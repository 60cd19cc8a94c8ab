import LiveGraph.Proofs.Graph.Adjacency
import LiveGraph.Proofs.Snapshot.Normal
import LiveGraph.Proofs.Tables

/-!
# Listing the edges of an adjacency

The edges come by target and type, and those of one target and type in the order of their list; so the lists of the
targets say what is listed.
-/

namespace LiveGraph

open Snapshot

theorem Edge.byEnd_eq (e e' : Edge) :
    e.byEnd e' = (compare e.target e'.target).then (compare e.kind e'.kind) := rfl

theorem compare_self (text : String) : compare text text = .eq :=
  Std.ReflCmp.compare_self

theorem Edge.alike_byEnd {e x : Edge} : alike Edge.byEnd x e = true ↔ x.target = e.target ∧ x.kind = e.kind := by
  rw [alike, beq_iff_eq, Edge.byEnd, compareLex_eq_eq]
  exact and_congr Std.LawfulEqOrd.compare_eq_iff_eq Std.LawfulEqOrd.compare_eq_iff_eq

namespace Adjacency

variable (a : Adjacency)

theorem pairwise_edges : a.edges.Pairwise fun e e' ↦ (e.byEnd e').isLE = true := by
  rw [edges, List.pairwise_flatMap]
  constructor
  · rintro ⟨target, kinds⟩ -
    rw [List.pairwise_flatMap]
    constructor
    · rintro ⟨kind, sources⟩ -
      refine List.pairwise_map.mpr (List.pairwise_of_forall fun source source' ↦ ?_)
      rw [Edge.byEnd_eq, compare_self, compare_self]
      rfl
    · refine kinds.ordered_keys_toList.imp ?_
      rintro ⟨kind, sources⟩ ⟨kind', sources'⟩ hlt e he e' he'
      obtain ⟨source, -, rfl⟩ := List.mem_map.mp he
      obtain ⟨source', -, rfl⟩ := List.mem_map.mp he'
      rw [Edge.byEnd_eq, compare_self, hlt]
      rfl
  · refine a.incoming.ordered_keys_toList.imp ?_
    rintro ⟨target, kinds⟩ ⟨target', kinds'⟩ hlt e he e' he'
    obtain ⟨⟨kind, sources⟩, -, he⟩ := List.mem_flatMap.mp he
    obtain ⟨⟨kind', sources'⟩, -, he'⟩ := List.mem_flatMap.mp he'
    obtain ⟨source, -, rfl⟩ := List.mem_map.mp he
    obtain ⟨source', -, rfl⟩ := List.mem_map.mp he'
    rw [Edge.byEnd_eq, hlt]
    rfl

/-- The edges of one target and type are those of its list, in order. -/
theorem filter_edges (x : Edge) :
    a.edges.filter (alike Edge.byEnd x) = (a.sources x.target x.kind).map (⟨x.kind, ·, x.target⟩) := by
  have hmap : ∀ target kind (sources : List Uri),
      (sources.map fun source ↦ (⟨kind, source, target⟩ : Edge)).filter (alike Edge.byEnd x) =
        if x.target = target ∧ x.kind = kind then sources.map fun source ↦ ⟨kind, source, target⟩ else [] := by
    intro target kind sources
    split
    · rename_i heq
      refine List.filter_eq_self.mpr fun e he ↦ ?_
      obtain ⟨source, -, rfl⟩ := List.mem_map.mp he
      exact Edge.alike_byEnd.mpr heq
    · rename_i hne
      refine List.filter_eq_nil_iff.mpr fun e he halike ↦ ?_
      obtain ⟨source, -, rfl⟩ := List.mem_map.mp he
      exact hne (Edge.alike_byEnd.mp halike)
  have hkinds : ∀ target (kinds : Std.TreeMap String (List Uri)),
      (kinds.toList.flatMap fun p ↦ (p.2.map fun source ↦ (⟨p.1, source, target⟩ : Edge)).filter
        (alike Edge.byEnd x)) =
      if x.target = target then (kinds.getD x.kind []).map (⟨x.kind, ·, target⟩) else [] := by
    intro target kinds
    rw [Tables.flatMap_toList kinds x.kind _ fun p hp ↦ (hmap target p.1 p.2).trans
      (if_neg fun heq ↦ hp heq.2.symm)]
    rw [Std.TreeMap.getD_eq_getD_getElem?, ← Std.TreeMap.get?_eq_getElem?]
    cases kinds.get? x.kind with
    | none => exact (ite_self []).symm
    | some sources =>
      rw [Option.elim_some, hmap, Option.getD_some]
      exact if_congr (and_iff_left rfl) rfl rfl
  rw [edges, List.filter_flatMap]
  simp only [List.filter_flatMap]
  rw [Tables.flatMap_toList a.incoming x.target _ fun p hp ↦ (hkinds p.1 p.2).trans (if_neg fun heq ↦ hp heq.symm)]
  rw [sources, Neighbours.list, Std.TreeMap.getD_eq_getD_getElem? (a := x.target),
    ← Std.TreeMap.get?_eq_getElem? (a := x.target)]
  cases a.incoming.get? x.target with
  | none => rfl
  | some kinds => exact (hkinds x.target kinds).trans (if_pos rfl)

theorem filter_ends (l : List Edge) (x : Edge) :
    l.filter (fun e ↦ e.target = x.target ∧ e.kind = x.kind) = l.filter (alike Edge.byEnd x) := by
  refine List.filter_congr fun e _ ↦ ?_
  rw [Bool.eq_iff_iff, decide_eq_true_iff, Edge.alike_byEnd]
  exact and_congr eq_comm eq_comm

/-- The list of a target is told by the edges in order. -/
theorem sources_eq (target kind : String) :
    a.sources target kind = (a.edges.filter fun e ↦ e.target = target ∧ e.kind = kind).map (·.source) := by
  have hfilter := a.filter_edges ⟨kind, "", target⟩
  rw [← filter_ends] at hfilter
  rw [hfilter, List.map_map]
  exact (List.map_id _).symm

/-- Where the lists of all targets are those of a list of edges, that list is told. -/
theorem edges_eq_sorted {l : List Edge} (h : ∀ target kind, a.sources target kind =
    (l.filter fun e ↦ e.target = target ∧ e.kind = kind).map (·.source)) : a.edges = sorted Edge.byEnd l := by
  refine eq_of_filter_eq Edge.byEnd a.pairwise_edges (pairwise_sorted Edge.byEnd l) fun x ↦ ?_
  rw [filter_edges, filter_sorted, h, filter_ends, List.map_map]
  refine (List.map_congr_left fun e he ↦ ?_).trans (List.map_id _)
  obtain ⟨htarget, hkind⟩ := Edge.alike_byEnd.mp (List.mem_filter.mp he).2
  rw [Function.comp_apply, htarget, hkind]
  rfl

theorem sorted_edges : sorted Edge.byEnd a.edges = a.edges :=
  sorted_of_pairwise Edge.byEnd a.pairwise_edges

variable {a} {a' : Adjacency} {e : Edge}

/-- An edge that is inserted at the end comes last among those of its target and type. -/
theorem edges_insert? (h : a.insert? e false = some a') : a'.edges = sorted Edge.byEnd (a.edges ++ [e]) := by
  refine a'.edges_eq_sorted fun target kind ↦ ?_
  rw [List.filter_append, List.map_append, ← sources_eq]
  obtain ⟨-, ha'⟩ := Option.ite_none_left_eq_some.mp h
  obtain rfl := Option.some.inj ha'
  refine (Neighbours.list_put ..).trans ?_
  by_cases hends : e.target = target ∧ e.kind = kind
  · obtain ⟨rfl, rfl⟩ := hends
    simp only [and_self, if_true, List.filter_cons, decide_true, List.filter_nil, List.map_cons, List.map_nil]
    rfl
  · simp only [hends, if_false, List.filter_cons, decide_false, Bool.false_eq_true, List.filter_nil, List.map_nil,
      List.append_nil]
    rfl

end Adjacency

end LiveGraph
