import LiveGraph.Proofs.Store.Ground
import Mathlib.Logic.Function.Basic
import Mathlib.Order.BooleanAlgebra.Set

/-!
# Contents of a store, and what is told of them

Which entities a store has, of which type, and which edges. An entity or an edge comes or goes, and each time the
contents become others. An operation has an effect on contents and is told of by what has come and gone: of a removal
first every edge that goes with the entity, each once, and then the entity. The contents that a store has are its live
entities and its edges, and of each step of an operation it is said here what they are after it.
-/

namespace LiveGraph.Lifecycle

/-- The types of the entities by URI, and the edges. -/
@[ext]
structure Contents where
  kindAt : Uri → Option String
  edges : Set Edge

/-- One entity or edge that has come or gone. -/
inductive Happening
  | came (uri : Uri) (kind : String)
  | went (uri : Uri) (kind : String)
  | linked (edge : Edge)
  | cut (edge : Edge)
  deriving DecidableEq

namespace Happening

def kind : Happening → String
  | came _ kind => kind
  | went _ kind => kind
  | linked edge => edge.kind
  | cut edge => edge.kind

/-- Whether it is told to those who ask for a type; a type of `*` stands for all. -/
def isFor (x : Happening) (wanted : String) : Bool :=
  wanted = "*" || x.kind = wanted

/-- Where it is told. -/
def event : Happening → StoreEvent
  | came _ _ => .added
  | went _ _ => .removed
  | linked _ => .edgeAdded
  | cut _ => .edgeRemoved

/-- What is written down of it under a name. -/
def note (name : String) : Happening → Note
  | came uri _ => .entity name .added uri
  | went uri _ => .entity name .removed uri
  | linked edge => .edge name .edgeAdded edge
  | cut edge => .edge name .edgeRemoved edge

end Happening

namespace Contents

variable (c : Contents)

def empty : Contents := ⟨fun _ ↦ none, ∅⟩

/-- The contents after one thing has come or gone. -/
def after : Happening → Contents
  | .came uri kind => { c with kindAt := Function.update c.kindAt uri (some kind) }
  | .went uri _ => { c with kindAt := Function.update c.kindAt uri none }
  | .linked edge => { c with edges := insert edge c.edges }
  | .cut edge => { c with edges := c.edges \ {edge} }

/-- What has come and gone leads from some contents to others, and each time the contents change. -/
def Replays : Contents → List Happening → Contents → Prop
  | c, [], c' => c = c'
  | c, x :: rest, c' => c.after x ≠ c ∧ Replays (c.after x) rest c'

def Touches (edge : Edge) (uri : Uri) : Prop :=
  edge.source = uri ∨ edge.target = uri

/-- Whether an edge can be added. -/
def Linkable (edge : Edge) : Prop :=
  edge ∉ c.edges ∧ c.kindAt edge.source ≠ none ∧ c.kindAt edge.target ≠ none

open Classical in
/-- The contents after an operation. -/
noncomputable def edited : Edit → Contents
  | .add spec =>
    if c.kindAt spec.uri = none then { c with kindAt := Function.update c.kindAt spec.uri (some spec.kind) } else c
  | .remove uri =>
    if c.kindAt uri = none then c
    else ⟨Function.update c.kindAt uri none, {edge ∈ c.edges | ¬Touches edge uri}⟩
  | .link edge _ => if c.Linkable edge then { c with edges := insert edge c.edges } else c
  | .unlink edge => { c with edges := c.edges \ {edge} }
  | .update _ _ => c
  | .set _ _ _ => c
  | .define _ _ _ => c
  | .defineIndex _ _ _ => c

open Classical in
/-- What is told of an operation. What fails or changes nothing is not told of. -/
def Reports : Edit → List Happening → Prop
  | .add spec, told => told = if c.kindAt spec.uri = none then [.came spec.uri spec.kind] else []
  | .remove uri, told =>
    match c.kindAt uri with
    | none => told = []
    | some kind => ∃ gone : List Edge, gone.Nodup ∧ (∀ edge, edge ∈ gone ↔ edge ∈ c.edges ∧ Touches edge uri) ∧
        told = gone.map .cut ++ [.went uri kind]
  | .link edge _, told => told = if c.Linkable edge then [.linked edge] else []
  | .unlink edge, told => told = if edge ∈ c.edges then [.cut edge] else []
  | .update _ _, told => told = []
  | .set _ _ _, told => told = []
  | .define _ _ _, told => told = []
  | .defineIndex _ _ _, told => told = []

variable {c} {c' c'' : Contents} {told told' : List Happening}

theorem Replays.append (h : Replays c told c') (h' : Replays c' told' c'') : Replays c (told ++ told') c'' := by
  induction told generalizing c with
  | nil => exact (show c = c' from h) ▸ h'
  | cons x rest ih => exact ⟨h.1, ih h.2⟩

theorem Replays.single {x : Happening} (h : c.after x ≠ c) : Replays c [x] (c.after x) := ⟨h, rfl⟩

theorem after_came_ne {uri : Uri} (h : c.kindAt uri = none) (kind : String) : c.after (.came uri kind) ≠ c := fun heq ↦ by
  have hkind : Function.update c.kindAt uri (some kind) uri = c.kindAt uri := congrFun (congrArg kindAt heq) uri
  rw [Function.update_self, h] at hkind
  exact Option.some_ne_none kind hkind

theorem after_went_ne {uri : Uri} (h : c.kindAt uri ≠ none) (kind : String) : c.after (.went uri kind) ≠ c := fun heq ↦ by
  have hkind : Function.update c.kindAt uri none uri = c.kindAt uri := congrFun (congrArg kindAt heq) uri
  rw [Function.update_self] at hkind
  exact h hkind.symm

theorem after_linked_ne {edge : Edge} (h : edge ∉ c.edges) : c.after (.linked edge) ≠ c := fun heq ↦ by
  refine h ?_
  rw [← heq]
  exact Set.mem_insert edge c.edges

theorem after_cut_ne {edge : Edge} (h : edge ∈ c.edges) : c.after (.cut edge) ≠ c := fun heq ↦ by
  rw [← heq] at h
  exact h.2 rfl

/-- Edges that are different and all there go one by one. -/
theorem replays_cuts {gone : List Edge} (hnodup : gone.Nodup) (hmem : ∀ edge ∈ gone, edge ∈ c.edges) :
    Replays c (gone.map .cut) { c with edges := {edge ∈ c.edges | edge ∉ gone} } := by
  induction gone generalizing c with
  | nil => simp [Replays]
  | cons edge rest ih =>
    obtain ⟨hfresh, hrest⟩ := List.nodup_cons.mp hnodup
    refine ⟨after_cut_ne (hmem edge List.mem_cons_self), ?_⟩
    have hcuts := ih (c := c.after (.cut edge)) hrest fun other hother ↦
      ⟨hmem other (List.mem_cons_of_mem edge hother), fun heq ↦ hfresh (Set.mem_singleton_iff.mp heq ▸ hother)⟩
    convert hcuts using 1
    refine Contents.ext rfl (Set.ext fun other ↦ ?_)
    simp only [after, Set.mem_ofPred_eq, Set.mem_sdiff, Set.mem_singleton_iff, List.mem_cons, not_or, and_assoc]

/-- What is told of an operation leads to the contents after it. -/
theorem Reports.replays {e : Edit} (h : c.Reports e told) : Replays c told (c.edited e) := by
  cases e with
  | add spec =>
    obtain rfl : told = _ := h
    rw [edited]
    split
    · rename_i hfree
      exact .single (after_came_ne hfree spec.kind)
    · rfl
  | remove uri =>
    rw [Reports] at h
    rw [edited]
    cases hkind : c.kindAt uri with
    | none =>
      rw [hkind] at h
      obtain rfl : told = [] := h
      rfl
    | some kind =>
      rw [hkind] at h
      obtain ⟨gone, hnodup, hmem, rfl⟩ := h
      rw [if_neg (Option.some_ne_none kind)]
      have hcuts := replays_cuts hnodup fun edge hedge ↦ ((hmem edge).mp hedge).1
      have hleft : {edge ∈ c.edges | edge ∉ gone} = {edge ∈ c.edges | ¬Touches edge uri} := Set.ext fun edge ↦
        and_congr_right fun hedge ↦ not_congr ((hmem edge).trans (and_iff_right hedge))
      rw [hleft] at hcuts
      refine hcuts.append (.single (after_went_ne ?_ kind))
      rw [hkind]
      exact Option.some_ne_none kind
  | link edge atFront =>
    obtain rfl : told = _ := h
    rw [edited]
    split
    · rename_i hlinkable
      exact .single (after_linked_ne hlinkable.1)
    · rfl
  | unlink edge =>
    obtain rfl : told = _ := h
    rw [edited]
    split
    · rename_i hmem
      exact .single (after_cut_ne hmem)
    · rename_i hmem
      exact Contents.ext rfl (Set.sdiff_singleton_eq_self hmem).symm
  | update uri props => exact h ▸ rfl
  | set e prop value => exact h ▸ rfl
  | define e prop value => exact h ▸ rfl
  | defineIndex name kind x => exact h ▸ rfl

end Contents

namespace Contents

variable {s s' : Store} {uri : Uri} {n : Nat}

def ofStore (s : Store) : Contents where
  kindAt uri := s.live[uri]?.map fun n ↦ (s.incarnation n).kind
  edges := {edge | edge ∈ s.edges.edges}

theorem ofStore_congr (hlive : s'.live = s.live) (hedges : s'.edges = s.edges)
    (hkind : ∀ (uri : Uri) n, s.live[uri]? = some n → (s'.incarnation n).kind = (s.incarnation n).kind) :
    ofStore s' = ofStore s := by
  refine Contents.ext (funext fun uri ↦ ?_) (congrArg (fun a : Adjacency ↦ {edge | edge ∈ a.edges}) hedges)
  change s'.live[uri]?.map _ = s.live[uri]?.map _
  rw [hlive]
  exact Option.map_congr fun n hn ↦ hkind uri n hn

theorem kindAt_ofStore (h : s.live[uri]? = some n) : (ofStore s).kindAt uri = some (s.incarnation n).kind :=
  congrArg (Option.map _) h

theorem kindAt_eq_none_iff : (ofStore s).kindAt uri = none ↔ s.live[uri]? = none :=
  Option.map_eq_none_iff

theorem kindAt_ne_none_iff : (ofStore s).kindAt uri ≠ none ↔ s.live.contains uri = true := by
  rw [Ne, kindAt_eq_none_iff, Std.TreeMap.contains_eq_isSome_getElem?, ← Option.isNone_iff_eq_none,
    Option.isSome_iff_ne_none, Option.isNone_iff_eq_none]

/-- The contents once an entity can be found. -/
theorem ofStore_insert (hlive : s'.live = s.live.insert uri n) (hedges : s'.edges = s.edges)
    (hsame : s'.incarnations = s.incarnations) :
    ofStore s' = (ofStore s).after (.came uri (s.incarnation n).kind) := by
  refine Contents.ext (funext fun uri' ↦ ?_) (congrArg (fun a : Adjacency ↦ {edge | edge ∈ a.edges}) hedges)
  have hkind : ∀ m, s'.incarnation m = s.incarnation m := fun m ↦ by
    rw [Store.incarnation, hsame, Store.incarnation]
  change s'.live[uri']?.map _ = Function.update (ofStore s).kindAt uri (some (s.incarnation n).kind) uri'
  simp only [hkind, hlive, Std.TreeMap.getElem?_insert]
  by_cases hu : uri = uri'
  · subst hu
    rw [if_pos Std.ReflCmp.compare_self, Function.update_self, Option.map_some]
  · rw [if_neg (by simpa using hu), Function.update_of_ne (Ne.symm hu)]
    rfl

/-- The contents without an entity and its edges. -/
theorem ofStore_without (h : s.Coherent) (hlive : s.live[uri]? = some n) : ofStore (s.without uri n) =
    ⟨Function.update (ofStore s).kindAt uri none, {edge ∈ (ofStore s).edges | ¬Touches edge uri}⟩ := by
  refine Contents.ext (funext fun uri' ↦ ?_) (Set.ext fun edge ↦ ?_)
  · change (s.live.erase uri)[uri']?.map _ = Function.update (ofStore s).kindAt uri none uri'
    rw [Std.TreeMap.getElem?_erase]
    by_cases hu : uri = uri'
    · subst hu
      rw [if_pos Std.ReflCmp.compare_self, Function.update_self, Option.map_none]
    · rw [if_neg (by simpa using hu), Function.update_of_ne (Ne.symm hu)]
      refine Option.map_congr fun m hm ↦ ?_
      have hkind := s.incarnation_modify n (fun x ↦ { x with live := false }) m (h.pos hlive) (h.pos hm)
      change (Store.incarnation { s with incarnations := s.incarnations.modify (n - 1) _ } m).kind = _
      rw [hkind]
      split
      all_goals rfl
  · change edge ∈ (s.edges.detach uri).2.edges ↔ edge ∈ s.edges.edges ∧ ¬Touches edge uri
    rw [(h.edges.detach uri).2.2.2 edge, Touches, not_or]

theorem ofStore_link (h : s.Coherent) {edge : Edge} {atFront : Bool} {edges : Adjacency}
    (hinsert : s.edges.insert? edge atFront = some edges) :
    ofStore { s with edges := edges } = (ofStore s).after (.linked edge) :=
  Contents.ext rfl (Set.ext fun other ↦ (h.edges.insert? hinsert).2 other)

theorem ofStore_unlink (h : s.Coherent) {edge : Edge} {edges : Adjacency}
    (hremove : s.edges.remove? edge = some edges) :
    ofStore { s with edges := edges } = (ofStore s).after (.cut edge) :=
  Contents.ext rfl (Set.ext fun other ↦ (h.edges.remove? hremove).2.2 other)

end Contents

open Contents

variable {w w' : World} {hidden : Nat → Prop} {uri : Uri} {kind : String} {e : EntityRef}

/-- The contents of the first store. -/
def contentsOf (w : World) : Contents :=
  .ofStore (w.store 0)

theorem kindAt_of_find? (h : w.find? 0 uri = some e) : (contentsOf w).kindAt uri = some (w.kindOf e) := by
  obtain ⟨hstore, hlive⟩ := World.live_of_find? h
  rw [World.kindOf, World.entity, hstore]
  exact kindAt_ofStore hlive

theorem kindAt_eq_none_of_find? (h : w.find? 0 uri = none) : (contentsOf w).kindAt uri = none :=
  kindAt_eq_none_iff.mpr (Option.map_eq_none_iff.mp h)

/-- On the same ground there are the same contents. -/
theorem contentsOf_same (h : Ground hidden w) (hw : SameGround w w') : contentsOf w' = contentsOf w :=
  ofStore_congr hw.store.live_eq hw.store.edges_eq fun _ n hn ↦ hw.store.kind_eq n (h.coherent.pos hn)

/-- A new incarnation is not among the contents yet. -/
theorem contentsOf_addIncarnation (h : Ground hidden w) (uri : Uri) (kind : String) :
    contentsOf (w.addIncarnation 0 uri kind).2 = contentsOf w := by
  rw [contentsOf, h.store_addIncarnation uri kind, contentsOf]
  refine ofStore_congr rfl rfl fun uri' n hn ↦ ?_
  have hpos := h.coherent.pos hn
  have hle := h.coherent.le_size hn
  rw [Store.incarnation_push, if_neg (by omega)]

/-- An entity that can be found from now on has come. -/
theorem contentsOf_enlist (h : OnGround (.coming e uri kind) w) :
    contentsOf (w.enlist e) = (contentsOf w).after (.came uri kind) := by
  obtain ⟨hground, he⟩ := h
  obtain ⟨s, n⟩ := e
  obtain rfl := he.store_eq
  obtain rfl : (w.entity ⟨0, n⟩).uri = uri := he.uri_eq
  obtain rfl : (w.entity ⟨0, n⟩).kind = kind := he.kind_eq
  have hstore : (w.enlist ⟨0, n⟩).store 0 = _ := hground.store_modifyStore _
  have hlive : ((w.enlist ⟨0, n⟩).store 0).live = (w.store 0).live.insert _ n := congrArg Store.live hstore
  have hedges : ((w.enlist ⟨0, n⟩).store 0).edges = (w.store 0).edges := (congrArg Store.edges hstore).trans rfl
  exact ofStore_insert hlive hedges ((congrArg Store.incarnations hstore).trans rfl)

/-- With an entity that is removed go all its edges. -/
theorem contentsOf_strike (h : Ground (fun _ ↦ False) w) (hfound : w.find? 0 uri = some e) :
    contentsOf ((w.strike e).2.retire e) =
      ⟨Function.update (contentsOf w).kindAt uri none, {edge ∈ (contentsOf w).edges | ¬Touches edge uri}⟩ := by
  obtain ⟨-, hlive⟩ := World.live_of_find? hfound
  have hsame := OnGround.sameGraph_strike h hfound
  have hwithout := h.coherent.strike hlive
  have hcongr := ofStore_congr hsame.live_eq hsame.edges_eq fun _ n hn ↦ hsame.kind_eq n (hwithout.pos hn)
  exact hcongr.trans (ofStore_without h.coherent hlive)

/-- The edges that go with an entity that is removed, each once. -/
theorem mem_strike (h : Ground (fun _ ↦ False) w) (hfound : w.find? 0 uri = some e) :
    (w.strike e).1.1.Nodup ∧
      ∀ edge, edge ∈ (w.strike e).1.1 ↔ edge ∈ (contentsOf w).edges ∧ Touches edge uri := by
  obtain ⟨he, hlive⟩ := World.live_of_find? hfound
  obtain ⟨s, n⟩ := e
  obtain rfl := he
  obtain rfl : (w.entity ⟨0, n⟩).uri = uri := h.coherent.uri_eq hlive
  obtain ⟨-, hnodup, hcut, -⟩ := h.coherent.edges.detach (w.entity ⟨0, n⟩).uri
  exact ⟨hnodup, hcut⟩

section Edges

variable {edge : Edge} {atFront : Bool} {edges : Adjacency}

theorem linkable (h : Ground hidden w) (hsource : w.contains 0 edge.source) (htarget : w.contains 0 edge.target)
    (hinsert : (w.store 0).edges.insert? edge atFront = some edges) : (contentsOf w).Linkable edge := by
  refine ⟨fun hmem ↦ ?_, kindAt_ne_none_iff.mpr hsource, kindAt_ne_none_iff.mpr htarget⟩
  exact (Option.ite_none_left_eq_some.mp hinsert).1 (h.coherent.edges.contains_iff.mpr hmem)

theorem not_linkable (h : Ground hidden w) (hnone : w.contains 0 edge.source ∧ w.contains 0 edge.target →
    (w.store 0).edges.insert? edge atFront = none) : ¬(contentsOf w).Linkable edge := by
  rintro ⟨hnew, hsource, htarget⟩
  have hthere := hnone ⟨kindAt_ne_none_iff.mp hsource, kindAt_ne_none_iff.mp htarget⟩
  rw [Adjacency.insert?, ite_eq_left_iff] at hthere
  exact Option.some_ne_none _ (hthere (mt h.coherent.edges.contains_iff.mp hnew))

theorem not_mem_edges (h : Ground hidden w) (hnone : (w.store 0).edges.remove? edge = none) :
    edge ∉ (contentsOf w).edges := fun hmem ↦ by
  rw [Adjacency.remove?, if_pos (h.coherent.edges.contains_iff.mpr hmem)] at hnone
  exact Option.some_ne_none _ hnone

end Edges

end LiveGraph.Lifecycle
