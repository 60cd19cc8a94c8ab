import LiveGraph.Proofs.Snapshot.Normal
import Mathlib.Data.List.Induction

/-!
# Loading children

What is told of children is written to those that are there, where the last value of a property counts, and makes
new ones of the others, for which the first value counts. Each is linked to the parent. If no child is told of with
two values for one property, it does nothing to tell the same again.
-/

namespace LiveGraph

/-- Properties that go by name are told by what is found under each name. -/
theorem eq_of_find?_eq {l l' : List (String × Value)} (h : l.Pairwise fun p q ↦ byName p q = .lt)
    (h' : l'.Pairwise fun p q ↦ byName p q = .lt)
    (hfind : ∀ name, l.find? (·.1 = name) = l'.find? (·.1 = name)) : l = l' := by
  have hmem {l : List (String × Value)} (h : l.Pairwise fun p q ↦ byName p q = .lt) (p : String × Value) :
      p ∈ l ↔ l.find? (·.1 = p.1) = some p :=
    ((find?_key_eq_some (List.pairwise_map.mpr (h.imp ne_of_byName_lt))).trans (and_iff_left rfl)).symm
  let s : EntitySpec := ⟨"", "", l'⟩
  have hnormal : l' = s.normal.props := s.eq_normal h' (hmem h')
  exact (s.eq_normal h fun p ↦ by rw [hmem h, hfind]).trans hnormal.symm

attribute [ext] EntitySpec

namespace EntitySpec

variable {s : EntitySpec} {props : List (String × Value)}

/-- What is told of an entity once a property is written. -/
def withValue (s : EntitySpec) (p : String × Value) : EntitySpec :=
  EntitySpec.normal { s with props := p :: s.props }

/-- What is told of an entity once several properties are written one after the other. -/
def withValues (s : EntitySpec) (props : List (String × Value)) : EntitySpec :=
  props.foldl withValue s

@[simp] theorem uri_withValues (s : EntitySpec) (props : List (String × Value)) : (s.withValues props).uri = s.uri := by
  induction props generalizing s with
  | nil => rfl
  | cons p rest ih => exact ih (s.withValue p)

@[simp] theorem kind_withValues (s : EntitySpec) (props : List (String × Value)) :
    (s.withValues props).kind = s.kind := by
  induction props generalizing s with
  | nil => rfl
  | cons p rest ih => exact ih (s.withValue p)

theorem withValues_append (s : EntitySpec) (props props' : List (String × Value)) :
    s.withValues (props ++ props') = (s.withValues props).withValues props' :=
  List.foldl_append

theorem find?_withValue (s : EntitySpec) (p : String × Value) (name : String) :
    (s.withValue p).props.find? (·.1 = name) = if p.1 = name then some p else s.props.find? (·.1 = name) := by
  rw [withValue, find?_normal, List.find?_cons]
  by_cases hname : p.1 = name
  · rw [if_pos hname, decide_eq_true hname]
  · rw [if_neg hname, decide_eq_false hname]

/-- Of several values for one property the last counts. -/
theorem find?_withValues (s : EntitySpec) (props : List (String × Value)) (name : String) :
    (s.withValues props).props.find? (·.1 = name) =
      (props.reverse.find? (·.1 = name)).or (s.props.find? (·.1 = name)) := by
  induction props generalizing s with
  | nil => rfl
  | cons p rest ih =>
    calc
      (s.withValues (p :: rest)).props.find? (·.1 = name)
        = (rest.reverse.find? (·.1 = name)).or ((s.withValue p).props.find? (·.1 = name)) := ih (s.withValue p)
      _ = ((p :: rest).reverse.find? (·.1 = name)).or (s.props.find? (·.1 = name)) := by
        rw [find?_withValue, List.reverse_cons, List.find?_append, Option.or_assoc, List.find?_cons, List.find?_nil]
        by_cases hname : p.1 = name <;> simp [hname]

theorem pairwise_withValues (s : EntitySpec) {props : List (String × Value)} (h : props ≠ []) :
    (s.withValues props).props.Pairwise fun p q ↦ byName p q = .lt := by
  obtain ⟨before, p, rfl⟩ := (List.eq_nil_or_concat props).resolve_left h
  rw [List.concat_eq_append, withValues_append]
  exact pairwise_normal _

/-- To write the same again does nothing. -/
theorem withValues_withValues (s : EntitySpec) (props : List (String × Value)) :
    (s.withValues props).withValues props = s.withValues props := by
  by_cases hprops : props = []
  · rw [hprops]
    rfl
  · have hsame : ((s.withValues props).withValues props).props = (s.withValues props).props := by
      refine eq_of_find?_eq (pairwise_withValues _ hprops) (pairwise_withValues _ hprops) fun name ↦ ?_
      rw [find?_withValues, find?_withValues, ← Option.or_assoc, Option.or_self]
    exact EntitySpec.ext (by simp) (by simp) hsame

/-- Where no property has two values it does not matter whether the first counts or the last. -/
theorem normal_eq_withValues (hnodup : (s.props.map Prod.fst).Nodup) :
    s.normal = (⟨s.uri, s.kind, []⟩ : EntitySpec).withValues s.props := by
  have hprops : s.normal.props = ((⟨s.uri, s.kind, []⟩ : EntitySpec).withValues s.props).props := by
    by_cases hnil : s.props = []
    · rw [normal, hnil]
      exact List.mergeSort_nil
    · refine eq_of_find?_eq s.pairwise_normal (pairwise_withValues _ hnil) fun name ↦ ?_
      rw [find?_normal, find?_withValues, List.find?_nil, Option.or_none]
      refine Option.ext fun p ↦ ?_
      have hreverse : (s.props.reverse.map Prod.fst).Nodup := by
        rw [List.map_reverse]
        exact List.nodup_reverse.mpr hnodup
      rw [find?_key_eq_some hnodup, find?_key_eq_some hreverse, List.mem_reverse]
  exact EntitySpec.ext (by simp [normal]) (by simp [normal]) hprops

end EntitySpec

namespace Snapshot

variable {S : Snapshot} {edge : String} {parent uri : Uri} {specs : List EntitySpec} {spec x : EntitySpec}

/-- All that is told of an entity, in order. -/
def toldOf (specs : List EntitySpec) (uri : Uri) : List (String × Value) :=
  (specs.filter (·.uri = uri)).flatMap (·.props)

/-- Several properties are written at one entity. -/
def withValues (S : Snapshot) (uri : Uri) (props : List (String × Value)) : Snapshot :=
  { S with entities := S.entities.map fun x ↦ if x.uri = uri then x.withValues props else x }

/-- What is told of an entity is written to it if it is there, and makes a new one if not. -/
def withSpec (S : Snapshot) (spec : EntitySpec) : Snapshot :=
  if S.holds spec.uri then S.withValues spec.uri spec.props else S.withEntity spec

/-- A child is taken in and linked to its parent. -/
def withChild (edge : String) (parent : Uri) (S : Snapshot) (spec : EntitySpec) : Snapshot :=
  (S.withSpec spec).withEdge ⟨edge, spec.uri, parent⟩

/-- Children are taken in one after the other. -/
def withChildren (S : Snapshot) (edge : String) (parent : Uri) (specs : List EntitySpec) : Snapshot :=
  specs.foldl (withChild edge parent) S

theorem toldOf_append (specs specs' : List EntitySpec) (uri : Uri) :
    toldOf (specs ++ specs') uri = toldOf specs uri ++ toldOf specs' uri := by
  rw [toldOf, List.filter_append, List.flatMap_append, toldOf, toldOf]

theorem toldOf_cons (spec : EntitySpec) (specs : List EntitySpec) (uri : Uri) :
    toldOf (spec :: specs) uri = (if spec.uri = uri then spec.props else []) ++ toldOf specs uri := by
  rw [toldOf, List.filter_cons]
  split <;> simp_all [toldOf]

theorem toldOf_eq_nil (h : ∀ spec ∈ specs, spec.uri ≠ uri) : toldOf specs uri = [] := by
  rw [toldOf, List.filter_eq_nil_iff.mpr fun spec hspec ↦ by simpa using h spec hspec, List.flatMap_nil]

theorem holds_iff {uri : Uri} : S.holds uri = true ↔ ∃ x ∈ S.entities, x.uri = uri := by
  rw [holds, decide_eq_true_iff, List.mem_map]

theorem holds_congr {S' : Snapshot} (h : S'.entities.map (·.uri) = S.entities.map (·.uri)) (uri : Uri) :
    S'.holds uri = S.holds uri := by
  rw [holds, h, holds]

theorem withValues_nil (S : Snapshot) (uri : Uri) : S.withValues uri [] = S := by
  have hsame : S.entities.map (fun x ↦ if x.uri = uri then x.withValues [] else x) = S.entities := by
    refine (List.map_congr_left fun x _ ↦ ?_).trans (List.map_id _)
    exact ite_self x
  rw [withValues, hsame]

/-- Writing leaves the URIs. -/
theorem uris_withValues (S : Snapshot) (uri : Uri) (props : List (String × Value)) :
    (S.withValues uri props).entities.map (·.uri) = S.entities.map (·.uri) := by
  rw [withValues, List.map_map]
  refine List.map_congr_left fun x _ ↦ ?_
  rw [Function.comp_apply]
  split
  · exact x.uri_withValues props
  · rfl

theorem withValues_append (S : Snapshot) (uri : Uri) (props props' : List (String × Value)) :
    S.withValues uri (props ++ props') = (S.withValues uri props).withValues uri props' := by
  have hentities : S.entities.map (fun x ↦ if x.uri = uri then x.withValues (props ++ props') else x) =
      (S.withValues uri props).entities.map fun x ↦ if x.uri = uri then x.withValues props' else x := by
    rw [withValues, List.map_map]
    refine List.map_congr_left fun x _ ↦ ?_
    rw [Function.comp_apply]
    by_cases huri : x.uri = uri
    · rw [if_pos huri, if_pos huri, EntitySpec.uri_withValues, if_pos huri, EntitySpec.withValues_append]
    · rw [if_neg huri, if_neg huri, if_neg huri]
  rw [withValues, hentities]
  rfl

theorem holds_withChild (edge : String) (parent : Uri) (S : Snapshot) (spec : EntitySpec) (uri : Uri) :
    (withChild edge parent S spec).holds uri = (S.holds uri || decide (uri = spec.uri)) := by
  have hedge : (withChild edge parent S spec).holds uri = (S.withSpec spec).holds uri :=
    holds_congr (congrArg _ (entities_withEdge _ _)) uri
  rw [hedge, withSpec]
  split
  · rename_i hthere
    rw [holds_congr (S.uris_withValues spec.uri spec.props)]
    by_cases huri : uri = spec.uri
    · rw [huri, hthere, Bool.true_or]
    · rw [decide_eq_false huri, Bool.or_false]
  · rw [holds, withEntity, List.map_append, List.map_singleton, holds, Bool.eq_iff_iff, decide_eq_true_eq,
      List.mem_append, List.mem_singleton, Bool.or_eq_true, decide_eq_true_eq, decide_eq_true_eq]
    rfl

theorem holds_of_holds (h : S.holds uri = true) (specs : List EntitySpec) :
    (S.withChildren edge parent specs).holds uri = true := by
  induction specs generalizing S with
  | nil => exact h
  | cons spec rest ih => exact ih (by rw [holds_withChild, h, Bool.true_or])

/-- Every child is there then. -/
theorem holds_withChildren (h : spec ∈ specs) : (S.withChildren edge parent specs).holds spec.uri = true := by
  obtain ⟨before, after, rfl⟩ := List.append_of_mem h
  rw [withChildren, List.foldl_append, List.foldl_cons]
  exact holds_of_holds (by rw [holds_withChild, decide_eq_true rfl, Bool.or_true]) after

theorem edges_subset_withEdge (S : Snapshot) (e : Edge) : S.edges ⊆ (S.withEdge e).edges := by
  rw [withEdge]
  split
  · exact fun e' he' ↦ (sorted_perm Edge.byEnd _).mem_iff.mpr (List.mem_append_left _ he')
  · exact fun e' he' ↦ he'

theorem mem_edges_withEdge {e : Edge} (h : S.joins e = true) : e ∈ (S.withEdge e).edges := by
  rw [withEdge]
  split
  · exact (sorted_perm Edge.byEnd _).mem_iff.mpr (List.mem_append_right _ List.mem_cons_self)
  · rename_i hold
    exact by_contra fun hnew ↦ hold ⟨h, hnew⟩

theorem edges_withSpec (S : Snapshot) (spec : EntitySpec) : (S.withSpec spec).edges = S.edges := by
  rw [withSpec]
  split <;> rfl

theorem edges_subset_withChildren (S : Snapshot) (edge : String) (parent : Uri) (specs : List EntitySpec) :
    S.edges ⊆ (S.withChildren edge parent specs).edges := by
  induction specs generalizing S with
  | nil => exact fun e he ↦ he
  | cons spec rest ih =>
    refine List.Subset.trans ?_ (ih (withChild edge parent S spec))
    rw [← S.edges_withSpec spec]
    exact edges_subset_withEdge _ _

/-- Every child is linked to its parent then. -/
theorem mem_edges_withChildren (hparent : S.holds parent = true) (h : spec ∈ specs) :
    ⟨edge, spec.uri, parent⟩ ∈ (S.withChildren edge parent specs).edges := by
  obtain ⟨before, after, rfl⟩ := List.append_of_mem h
  rw [withChildren, List.foldl_append, List.foldl_cons]
  let S' := S.withChildren edge parent before
  have hheld : S'.holds parent = true := holds_of_holds hparent before
  have hboth : ∀ uri, (S'.withSpec spec).holds uri = (S'.holds uri || decide (uri = spec.uri)) := fun uri ↦ by
    rw [← holds_withChild edge parent]
    exact (holds_congr (congrArg _ (entities_withEdge _ _)) uri).symm
  refine edges_subset_withChildren _ edge parent after (mem_edges_withEdge ?_)
  have hjoins : (S'.withSpec spec).joins ⟨edge, spec.uri, parent⟩ = true := by
    rw [joins, hboth, hboth, decide_eq_true rfl, Bool.or_true, hheld, Bool.true_or, Bool.true_and]
  exact hjoins

/-- Each entity has the values that it is told last. -/
theorem exists_withValues (hnodup : ∀ spec ∈ specs, (spec.props.map Prod.fst).Nodup)
    (hx : x ∈ (S.withChildren edge parent specs).entities) :
    ∃ y : EntitySpec, x = y.withValues (toldOf specs x.uri) := by
  induction specs using List.reverseRecOn generalizing x with
  | nil => exact ⟨x, rfl⟩
  | append_singleton before spec ih =>
    have hbefore : ∀ spec ∈ before, (spec.props.map Prod.fst).Nodup := fun spec' hspec' ↦
      hnodup spec' (List.mem_append_left _ hspec')
    have hspec := hnodup spec (List.mem_append_right _ List.mem_cons_self)
    have hstep : S.withChildren edge parent (before ++ [spec]) =
        withChild edge parent (S.withChildren edge parent before) spec := List.foldl_append
    have hlast : ∀ uri, toldOf (before ++ [spec]) uri =
        toldOf before uri ++ if spec.uri = uri then spec.props else [] := fun uri ↦ by
      rw [toldOf_append, toldOf_cons]
      exact congrArg _ (List.append_nil _)
    rw [hstep, withChild, entities_withEdge, withSpec] at hx
    split at hx
    · obtain ⟨x', hx', rfl⟩ := List.mem_map.mp hx
      obtain ⟨y, hy⟩ := ih hbefore hx'
      by_cases huri : x'.uri = spec.uri
      · rw [if_pos huri, EntitySpec.uri_withValues, hlast, if_pos huri.symm]
        exact ⟨y, by rw [EntitySpec.withValues_append, ← hy]⟩
      · rw [if_neg huri, hlast, if_neg (Ne.symm huri), List.append_nil]
        exact ⟨y, hy⟩
    · rename_i hnew
      have hothers : ∀ x' ∈ (S.withChildren edge parent before).entities, x'.uri ≠ spec.uri := fun x' hx' huri ↦
        hnew (holds_iff.mpr ⟨x', hx', huri⟩)
      rcases List.mem_append.mp hx with hold | hadded
      · obtain ⟨y, hy⟩ := ih hbefore hold
        rw [hlast, if_neg (hothers x hold).symm, List.append_nil]
        exact ⟨y, hy⟩
      · obtain rfl := List.mem_singleton.mp hadded
        have hnone : toldOf before spec.uri = [] := toldOf_eq_nil fun spec' hspec' huri ↦
          hnew (huri ▸ holds_withChildren hspec')
        have huri : spec.normal.uri = spec.uri := rfl
        rw [huri, hlast, if_pos rfl, hnone]
        exact ⟨_, spec.normal_eq_withValues hspec⟩

/-- Where all children are there and linked, what is told of them is written. -/
theorem withChildren_of_holds (hthere : ∀ spec ∈ specs, S.holds spec.uri = true)
    (hlinked : ∀ spec ∈ specs, ⟨edge, spec.uri, parent⟩ ∈ S.edges) :
    S.withChildren edge parent specs =
      { S with entities := S.entities.map fun x ↦ x.withValues (toldOf specs x.uri) } := by
  induction specs generalizing S with
  | nil => exact congrArg (fun entities ↦ (⟨entities, S.edges, S.focus⟩ : Snapshot)) (List.map_id _).symm
  | cons spec rest ih =>
    have hstep : withChild edge parent S spec = S.withValues spec.uri spec.props := by
      have hspec : S.withSpec spec = S.withValues spec.uri spec.props := if_pos (hthere spec List.mem_cons_self)
      rw [withChild, hspec, withEdge, if_neg fun hnew ↦ hnew.2 (hlinked spec List.mem_cons_self)]
    have hrest := ih (S := S.withValues spec.uri spec.props)
      (fun spec' hspec' ↦ by
        rw [holds_congr (S.uris_withValues spec.uri spec.props)]
        exact hthere spec' (List.mem_cons_of_mem spec hspec'))
      fun spec' hspec' ↦ hlinked spec' (List.mem_cons_of_mem spec hspec')
    have hentities : (S.withValues spec.uri spec.props).entities.map (fun x ↦ x.withValues (toldOf rest x.uri)) =
        S.entities.map fun x ↦ x.withValues (toldOf (spec :: rest) x.uri) := by
      rw [withValues, List.map_map]
      refine List.map_congr_left fun x _ ↦ ?_
      rw [Function.comp_apply, toldOf_cons, EntitySpec.withValues_append]
      by_cases huri : x.uri = spec.uri
      · rw [if_pos huri, EntitySpec.uri_withValues, if_pos huri.symm]
      · rw [if_neg huri, if_neg (Ne.symm huri)]
        rfl
    calc
      S.withChildren edge parent (spec :: rest)
        = (S.withValues spec.uri spec.props).withChildren edge parent rest :=
          congrArg (·.withChildren edge parent rest) hstep
      _ = { S with entities := S.entities.map fun x ↦ x.withValues (toldOf (spec :: rest) x.uri) } := by
          rw [hrest, hentities]
          rfl

/-- To take in the same children again changes nothing. -/
theorem withChildren_withChildren (hnodup : ∀ spec ∈ specs, (spec.props.map Prod.fst).Nodup)
    (hparent : S.holds parent = true) : (S.withChildren edge parent specs).withChildren edge parent specs =
      S.withChildren edge parent specs := by
  rw [withChildren_of_holds (fun spec hspec ↦ holds_withChildren hspec)
    fun spec hspec ↦ mem_edges_withChildren hparent hspec]
  have hsame : (S.withChildren edge parent specs).entities.map (fun x ↦ x.withValues (toldOf specs x.uri)) =
      (S.withChildren edge parent specs).entities := by
    refine (List.map_congr_left fun x hx ↦ ?_).trans (List.map_id _)
    obtain ⟨y, hy⟩ := exists_withValues hnodup hx
    calc
      x.withValues (toldOf specs x.uri) = (y.withValues (toldOf specs x.uri)).withValues (toldOf specs x.uri) := by
        rw [← hy]
      _ = x := (y.withValues_withValues _).trans hy.symm
  rw [hsame]

end Snapshot

end LiveGraph
