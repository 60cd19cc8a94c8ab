import LiveGraph.Proofs.Graph.Edges

/-!
# Adjacencies and lists of edges

An adjacency is a list of edges in another form. An edge comes to the front of the list or to its end, and the list
of an entity holds the ends of its edges in their order; what is taken away leaves the others where they are.
-/

namespace LiveGraph

open Snapshot

namespace Neighbours

/-- No list is kept that holds nothing, and no entity without a list. -/
def Tidy (m : Neighbours) : Prop :=
  ∀ (uri : Uri) (kinds : Std.TreeMap String (List Uri)), m[uri]? = some kinds →
    kinds.isEmpty = false ∧ ∀ (kind : String) (neighbours : List Uri), kinds[kind]? = some neighbours → neighbours ≠ []

theorem Tidy.empty : Tidy ∅ := fun uri kinds h ↦ by simp at h

variable {m : Neighbours} (h : m.Tidy)
include h

theorem Tidy.erase (uri : Uri) : Tidy (m.erase uri) := by
  intro uri' kinds hkinds
  rw [Std.TreeMap.getElem?_erase] at hkinds
  split at hkinds
  · exact nomatch hkinds
  · exact h uri' kinds hkinds

theorem Tidy.put (uri : Uri) (kind : String) (neighbours : List Uri) : Tidy (m.put uri kind neighbours) := by
  have hkept (kind' : String) (list : List Uri) (hlist : (m.getD uri ∅)[kind']? = some list) : list ≠ [] := by
    rw [Std.TreeMap.getD_eq_getD_getElem?] at hlist
    cases huri : m[uri]? with
    | none => simp [huri] at hlist
    | some kinds => exact (h uri kinds huri).2 kind' list (by simpa [huri] using hlist)
  let kinds := if neighbours.isEmpty then (m.getD uri ∅).erase kind else (m.getD uri ∅).insert kind neighbours
  have hkinds (kind' : String) (list : List Uri) (hlist : kinds[kind']? = some list) : list ≠ [] := by
    by_cases hempty : neighbours.isEmpty = true
    · simp only [kinds, hempty, if_true, Std.TreeMap.getElem?_erase] at hlist
      split at hlist
      · exact nomatch hlist
      · exact hkept kind' list hlist
    · simp only [kinds, hempty, if_false, Std.TreeMap.getElem?_insert, Bool.false_eq_true] at hlist
      split at hlist
      · rw [← Option.some.inj hlist]
        exact fun hnil ↦ hempty (List.isEmpty_iff.mpr hnil)
      · exact hkept kind' list hlist
  intro uri' kinds' hkinds'
  change (if kinds.isEmpty then m.erase uri else m.insert uri kinds)[uri']? = some kinds' at hkinds'
  by_cases hempty : kinds.isEmpty = true
  · rw [if_pos hempty] at hkinds'
    exact h.erase uri uri' kinds' hkinds'
  · rw [if_neg hempty, Std.TreeMap.getElem?_insert] at hkinds'
    split at hkinds'
    · rw [← Option.some.inj hkinds']
      exact ⟨Bool.eq_false_iff.mpr hempty, hkinds⟩
    · exact h uri' kinds' hkinds'

theorem Tidy.dropEach (w : Uri) (entries : List (String × Uri)) : Tidy (m.dropEach w entries) := by
  induction entries generalizing m with
  | nil => exact h
  | cons entry rest ih => exact ih (h.put _ _ _)

end Neighbours

/-- Edges go by type. -/
def Edge.byKind : Edge → Edge → Ordering :=
  compareOn Edge.kind

instance : Std.TransCmp Edge.byKind :=
  inferInstanceAs (Std.TransCmp (compareOn Edge.kind))

theorem Edge.alike_byKind {e x : Edge} : alike Edge.byKind x e = true ↔ x.kind = e.kind := by
  rw [alike, beq_iff_eq]
  exact Std.LawfulEqOrd.compare_eq_iff_eq

/-- What can happen to edges. -/
inductive EdgeChange
  | insert (e : Edge) (atFront : Bool)
  | remove (e : Edge)
  | detach (uri : Uri)

/-- One change after the other. -/
def EdgeChange.run {α : Type} (change : α → EdgeChange → List Edge × α) (a : α) : List EdgeChange → List (List Edge) × α
  | [] => ([], a)
  | c :: rest =>
    let (concerned, a') := change a c
    let (answers, a'') := run change a' rest
    (concerned :: answers, a'')

/-- Carries out a change, and tells the edges that come or go. -/
def Adjacency.change (a : Adjacency) : EdgeChange → List Edge × Adjacency
  | .insert e atFront => (a.insert? e atFront).elim ([], a) ([e], ·)
  | .remove e => (a.remove? e).elim ([], a) ([e], ·)
  | .detach uri => a.detach uri

/-- Edges in the order of one list. -/
abbrev Roll := List Edge

namespace Roll

/-- The far ends of the edges of an entity and a type, in order. -/
def targets (l : Roll) (uri : Uri) (kind : String) : List Uri :=
  (l.filter fun e ↦ e.source = uri ∧ e.kind = kind).map (·.target)

def sources (l : Roll) (uri : Uri) (kind : String) : List Uri :=
  (l.filter fun e ↦ e.target = uri ∧ e.kind = kind).map (·.source)

/-- What an adjacency is to do, on a list: a new edge comes to the front or to the end, one that is there goes, or
those of an entity go, the outgoing ones by type and position and then the incoming ones. -/
def change (l : Roll) : EdgeChange → List Edge × Roll
  | .insert e atFront => if e ∈ l then ([], l) else ([e], if atFront then e :: l else l ++ [e])
  | .remove e => if e ∈ l then ([e], l.erase e) else ([], l)
  | .detach uri =>
    (sorted Edge.byKind (l.filter fun e ↦ e.source = uri) ++
        sorted Edge.byKind (l.filter fun e ↦ e.target = uri ∧ e.source ≠ uri),
      l.filter fun e ↦ e.source ≠ uri ∧ e.target ≠ uri)

section Ends

variable {key : Edge → Prop} [DecidablePred key] {far : Edge → Uri} {l : Roll} {e : Edge}

theorem map_filter_extend (atFront : Bool) (e : Edge) (l : Roll) :
    ((if atFront then e :: l else l ++ [e]).filter (key ·)).map far =
      if key e then Adjacency.extend atFront (far e) ((l.filter (key ·)).map far) else (l.filter (key ·)).map far := by
  cases atFront <;> by_cases hkey : key e <;> simp [Adjacency.extend, hkey]

theorem map_map_filter {edge : Uri → Edge} (h : ∀ e, key e → edge (far e) = e) (l : Roll) :
    ((l.filter (key ·)).map far).map edge = l.filter (key ·) := by
  rw [List.map_map]
  refine (List.map_congr_left fun e he ↦ ?_).trans (List.map_id _)
  exact h e (of_decide_eq_true (List.mem_filter.mp he).2)

variable (hfar : ∀ x y, key x → key y → far x = far y → x = y)
include hfar

theorem map_filter_erase (e : Edge) (l : Roll) :
    ((l.erase e).filter (key ·)).map far =
      if key e then ((l.filter (key ·)).map far).erase (far e) else (l.filter (key ·)).map far := by
  induction l with
  | nil => simp
  | cons x l ih =>
    by_cases hx : x = e
    · subst hx
      by_cases hkey : key x <;> simp [hkey]
    · rw [List.erase_cons_tail (by simpa using hx)]
      by_cases hkeyx : key x
      · by_cases hkey : key e
        · have hne : far x ≠ far e := fun heq ↦ hx (hfar x e hkeyx hkey heq)
          simp only [hkeyx, hkey, List.filter_cons, decide_true, if_true, List.map_cons] at ih ⊢
          rw [ih, List.erase_cons_tail (by simpa using hne)]
        · simp only [hkeyx, hkey, List.filter_cons, decide_true, if_true, if_false, List.map_cons] at ih ⊢
          rw [ih]
      · simp only [hkeyx, List.filter_cons, decide_false, Bool.false_eq_true, if_false]
        exact ih

theorem count_map_filter (hkey : key e) (l : Roll) : ((l.filter (key ·)).map far).count (far e) = l.count e := by
  induction l with
  | nil => rfl
  | cons x l ih =>
    by_cases hkeyx : key x
    · have hsame : far x = far e ↔ x = e := ⟨hfar x e hkeyx hkey, congrArg far⟩
      simp only [hkeyx, List.filter_cons, decide_true, if_true, List.map_cons, List.count_cons, ih, beq_iff_eq, hsame]
    · have hne : x ≠ e := fun heq ↦ hkeyx (heq ▸ hkey)
      simp [hkeyx, hne, ih]

theorem nodup_map_filter (h : l.Nodup) : ((l.filter (key ·)).map far).Nodup := by
  refine (h.filter _).map_on fun x hx y hy heq ↦ ?_
  exact hfar x y (of_decide_eq_true (List.mem_filter.mp hx).2) (of_decide_eq_true (List.mem_filter.mp hy).2) heq

end Ends

variable {uri v : Uri} {kind : String}

theorem eq_of_target {x y : Edge} (hx : x.source = uri ∧ x.kind = kind) (hy : y.source = uri ∧ y.kind = kind)
    (h : x.target = y.target) : x = y := by
  cases x; cases y; simp_all

theorem eq_of_source {x y : Edge} (hx : x.target = uri ∧ x.kind = kind) (hy : y.target = uri ∧ y.kind = kind)
    (h : x.source = y.source) : x = y := by
  cases x; cases y; simp_all

/-- The edges that are left when those of an entity go stay in order. -/
theorem map_filter_without {near far : Edge → Uri}
    (hends : ∀ e : Edge, e.source ≠ uri ∧ e.target ≠ uri ↔ near e ≠ uri ∧ far e ≠ uri) (l : Roll) (v : Uri)
    (kind : String) :
    ((l.filter fun e ↦ e.source ≠ uri ∧ e.target ≠ uri).filter fun e ↦ near e = v ∧ e.kind = kind).map far =
      if uri = v then [] else ((l.filter fun e ↦ near e = v ∧ e.kind = kind).map far).filter (· ≠ uri) := by
  rw [List.filter_filter, List.filter_map, List.filter_filter]
  split
  · rename_i hv
    refine List.map_eq_nil_iff.mpr (List.filter_eq_nil_iff.mpr fun e _ hkept ↦ ?_)
    simp only [Bool.and_eq_true, decide_eq_true_iff] at hkept
    obtain ⟨⟨hnear, -⟩, hleft⟩ := hkept
    exact ((hends e).mp hleft).1 (hnear.trans hv.symm)
  · rename_i hv
    refine congrArg _ (List.filter_congr fun e _ ↦ ?_)
    rw [Bool.eq_iff_iff]
    simp only [Bool.and_eq_true, decide_eq_true_iff, Function.comp_apply, hends]
    rw [and_comm]
    refine and_congr_left fun hkey ↦ and_iff_right ?_
    exact fun hnear ↦ hv (hnear.symm.trans hkey.1)

theorem targets_without (l : Roll) (uri v : Uri) (kind : String) :
    targets (l.filter fun e ↦ e.source ≠ uri ∧ e.target ≠ uri) v kind =
      if uri = v then [] else (targets l v kind).filter (· ≠ uri) :=
  map_filter_without (fun _ ↦ Iff.rfl) l v kind

theorem sources_without (l : Roll) (uri v : Uri) (kind : String) :
    sources (l.filter fun e ↦ e.source ≠ uri ∧ e.target ≠ uri) v kind =
      if uri = v then [] else (sources l v kind).filter (· ≠ uri) :=
  map_filter_without (fun _ ↦ and_comm) l v kind

/-- The outgoing edges of a type, from their far ends. -/
theorem map_targets (l : Roll) (uri : Uri) (kind : String) :
    (targets l uri kind).map (⟨kind, uri, ·⟩) = (l.filter fun e ↦ e.source = uri).filter fun e ↦ e.kind = kind := by
  rw [targets, map_map_filter fun e he ↦ by rw [← he.1, ← he.2], List.filter_filter]
  exact List.filter_congr fun e _ ↦ by simp [Bool.and_comm]

/-- The incoming edges of a type, from their far ends; one from the entity to itself goes out. -/
theorem map_sources (l : Roll) (uri : Uri) (kind : String) :
    ((sources l uri kind).filter (· ≠ uri)).map (⟨kind, ·, uri⟩) =
      (l.filter fun e ↦ e.target = uri ∧ e.source ≠ uri).filter fun e ↦ e.kind = kind := by
  have hfilter : (l.filter fun e ↦ e.target = uri ∧ e.kind = kind).filter (fun e ↦ e.source ≠ uri) =
      l.filter fun e ↦ (e.target = uri ∧ e.kind = kind) ∧ e.source ≠ uri := by
    rw [List.filter_filter]
    exact List.filter_congr fun e _ ↦ by simp [Bool.and_comm]
  rw [sources, List.filter_map]
  change ((List.filter (fun e ↦ e.source ≠ uri) (l.filter _)).map _).map _ = _
  rw [hfilter, map_map_filter fun e he ↦ by rw [← he.1.1, ← he.1.2], List.filter_filter]
  exact List.filter_congr fun e _ ↦ by simp [Bool.and_comm, Bool.and_left_comm]

end Roll

/-- The neighbours of an entity, as edges, are in the order of their types. -/
theorem Neighbours.map_around (m : Neighbours) (uri : Uri) {edge : String × Uri → Edge}
    (hedge : ∀ p, (edge p).kind = p.1) (l : Roll)
    (h : ∀ kind, (m.list uri kind).map (fun v ↦ edge (kind, v)) = l.filter fun e ↦ e.kind = kind) :
    (m.around uri).map edge = sorted Edge.byKind l := by
  have hlists : (m.around uri).map edge =
      (m.getD uri ∅).toList.flatMap fun p ↦ p.2.map fun v ↦ edge (p.1, v) := by
    have haround : m.around uri = (m.getD uri ∅).toList.flatMap fun p ↦ p.2.map (p.1, ·) := rfl
    rw [haround, List.map_flatMap]
    exact congrArg (m.getD uri ∅).toList.flatMap (funext fun p ↦ List.map_map)
  rw [hlists]
  refine eq_of_filter_eq Edge.byKind ?_ (pairwise_sorted Edge.byKind l) fun x ↦ ?_
  · rw [List.pairwise_flatMap]
    constructor
    · rintro ⟨kind, neighbours⟩ -
      refine List.pairwise_map.mpr (List.pairwise_of_forall fun v v' ↦ ?_)
      rw [Edge.byKind, compareOn, hedge, hedge, compare_self]
      rfl
    · refine (m.getD uri ∅).ordered_keys_toList.imp ?_
      rintro ⟨kind, neighbours⟩ ⟨kind', neighbours'⟩ hlt e he e' he'
      obtain ⟨v, -, rfl⟩ := List.mem_map.mp he
      obtain ⟨v', -, rfl⟩ := List.mem_map.mp he'
      rw [Edge.byKind, compareOn, hedge, hedge, hlt]
      rfl
  · have hsame : l.filter (alike Edge.byKind x) = l.filter fun e ↦ e.kind = x.kind := by
      refine List.filter_congr fun e _ ↦ ?_
      rw [Bool.eq_iff_iff, decide_eq_true_iff, Edge.alike_byKind]
      exact eq_comm
    have hone (p : String × List Uri) : (p.2.map fun v ↦ edge (p.1, v)).filter (alike Edge.byKind x) =
        if p.1 = x.kind then p.2.map fun v ↦ edge (p.1, v) else [] := by
      split
      · rename_i hkind
        refine List.filter_eq_self.mpr fun e he ↦ ?_
        obtain ⟨v, -, rfl⟩ := List.mem_map.mp he
        exact Edge.alike_byKind.mpr ((hedge _).trans hkind).symm
      · rename_i hkind
        refine List.filter_eq_nil_iff.mpr fun e he halike ↦ hkind ?_
        obtain ⟨v, -, rfl⟩ := List.mem_map.mp he
        exact ((Edge.alike_byKind.mp halike).trans (hedge _)).symm
    rw [filter_sorted, hsame, ← h, List.filter_flatMap]
    rw [Tables.flatMap_toList (m.getD uri ∅) x.kind _ fun p hp ↦ (hone p).trans (if_neg hp)]
    rw [list, Std.TreeMap.getD_eq_getD_getElem? (a := x.kind), ← Std.TreeMap.get?_eq_getElem?]
    cases (m.getD uri ∅).get? x.kind with
    | none => rfl
    | some neighbours => exact (hone (x.kind, neighbours)).trans (if_pos rfl)

namespace Adjacency

/-- An adjacency is a list of edges in another form. -/
structure Refines (a : Adjacency) (l : Roll) : Prop where
  targets_eq : ∀ uri kind, a.targets uri kind = l.targets uri kind
  sources_eq : ∀ uri kind, a.sources uri kind = l.sources uri kind
  nodup : l.Nodup
  count_eq : a.count = l.length
  outgoing_tidy : a.outgoing.Tidy
  incoming_tidy : a.incoming.Tidy

variable {a a' : Adjacency} {l l' : Roll} {e : Edge}

theorem Refines.empty : Refines .empty [] :=
  ⟨fun uri kind ↦ by simp [targets, Adjacency.empty, Neighbours.list, Roll.targets],
    fun uri kind ↦ by simp [sources, Adjacency.empty, Neighbours.list, Roll.sources], List.nodup_nil, rfl, .empty, .empty⟩

theorem Refines.mem_targets (h : a.Refines l) (e : Edge) : e.target ∈ a.targets e.source e.kind ↔ e ∈ l := by
  rw [h.targets_eq, ← List.count_pos_iff, ← List.count_pos_iff]
  rw [Roll.targets, Roll.count_map_filter (fun _ _ ↦ Roll.eq_of_target) ⟨rfl, rfl⟩]

theorem Refines.mem_sources (h : a.Refines l) (e : Edge) : e.source ∈ a.sources e.target e.kind ↔ e ∈ l := by
  rw [h.sources_eq, ← List.count_pos_iff, ← List.count_pos_iff]
  rw [Roll.sources, Roll.count_map_filter (fun _ _ ↦ Roll.eq_of_source) ⟨rfl, rfl⟩]

theorem Refines.mem_edges (h : a.Refines l) (e : Edge) : e ∈ a.edges ↔ e ∈ l :=
  (Adjacency.mem_edges a e).trans (h.mem_sources e)

theorem Refines.coherent (h : a.Refines l) : a.Coherent := by
  have hlists : a.Lists (· ∈ l) := by
    refine ⟨h.mem_targets, h.mem_sources, fun uri kind ↦ ?_, fun uri kind ↦ ?_⟩
    · rw [h.targets_eq]
      exact Roll.nodup_map_filter (fun _ _ ↦ Roll.eq_of_target) h.nodup
    · rw [h.sources_eq]
      exact Roll.nodup_map_filter (fun _ _ ↦ Roll.eq_of_source) h.nodup
  refine hlists.coherent (h.count_eq.trans ?_)
  exact ((List.perm_ext_iff_of_nodup hlists.nodup_edges h.nodup).mpr h.mem_edges).length_eq.symm

theorem Refines.contains_iff (h : a.Refines l) : a.contains e = true ↔ e ∈ l :=
  h.coherent.contains_iff.trans (h.mem_edges e)

/-- The count is right if the edges are. -/
theorem Coherent.count_eq_length (h : a.Coherent) (hnodup : l.Nodup) (hmem : ∀ e, e ∈ a.edges ↔ e ∈ l) :
    a.count = l.length :=
  h.count_eq.trans ((List.perm_ext_iff_of_nodup h.lists.nodup_edges hnodup).mpr hmem).length_eq

/-- An edge that is not there is put at the same end of both of its lists and of the list of edges. -/
theorem Refines.insert? (h : a.Refines l) {atFront : Bool} (hins : a.insert? e atFront = some a') :
    a'.Refines (if atFront then e :: l else l ++ [e]) := by
  obtain ⟨hcoherent, hedges⟩ := h.coherent.insert? hins
  obtain ⟨hnew, ha'⟩ := Option.ite_none_left_eq_some.mp hins
  have hfresh : e ∉ l := fun hmem ↦ hnew (h.contains_iff.mpr hmem)
  have hnodup : (if atFront then e :: l else l ++ [e]).Nodup := by
    cases atFront with
    | true => exact List.nodup_cons.mpr ⟨hfresh, h.nodup⟩
    | false => simpa using h.nodup.concat hfresh
  refine ⟨fun uri kind ↦ ?_, fun uri kind ↦ ?_, hnodup, hcoherent.count_eq_length hnodup fun x ↦ ?_, ?_, ?_⟩
  · obtain rfl := Option.some.inj ha'
    rw [Roll.targets, Roll.map_filter_extend, ← Roll.targets, ← h.targets_eq]
    refine (Neighbours.list_put ..).trans (ite_congr rfl (fun hkey ↦ ?_) fun _ ↦ rfl)
    rw [hkey.1, hkey.2]
  · obtain rfl := Option.some.inj ha'
    rw [Roll.sources, Roll.map_filter_extend, ← Roll.sources, ← h.sources_eq]
    refine (Neighbours.list_put ..).trans (ite_congr rfl (fun hkey ↦ ?_) fun _ ↦ rfl)
    rw [hkey.1, hkey.2]
  · rw [hedges, h.mem_edges]
    cases atFront <;> simp [or_comm]
  · obtain rfl := Option.some.inj ha'
    exact h.outgoing_tidy.put _ _ _
  · obtain rfl := Option.some.inj ha'
    exact h.incoming_tidy.put _ _ _

/-- An edge that is there is taken out of both of its lists and out of the list of edges. -/
theorem Refines.remove? (h : a.Refines l) (hrem : a.remove? e = some a') : a'.Refines (l.erase e) := by
  obtain ⟨hcoherent, -, hedges⟩ := h.coherent.remove? hrem
  obtain ⟨-, ha'⟩ := Option.ite_none_right_eq_some.mp hrem
  have hnodup : (l.erase e).Nodup := h.nodup.erase e
  refine ⟨fun uri kind ↦ ?_, fun uri kind ↦ ?_, hnodup, hcoherent.count_eq_length hnodup fun x ↦ ?_, ?_, ?_⟩
  · obtain rfl := Option.some.inj ha'
    rw [Roll.targets, Roll.map_filter_erase fun _ _ ↦ Roll.eq_of_target]
    refine (Neighbours.list_drop ..).trans ?_
    rw [← Roll.targets, ← h.targets_eq]
    rfl
  · obtain rfl := Option.some.inj ha'
    rw [Roll.sources, Roll.map_filter_erase fun _ _ ↦ Roll.eq_of_source]
    refine (Neighbours.list_drop ..).trans ?_
    rw [← Roll.sources, ← h.sources_eq]
    rfl
  · rw [hedges, h.mem_edges, h.nodup.mem_erase_iff, and_comm]
  · obtain rfl := Option.some.inj ha'
    exact h.outgoing_tidy.put _ _ _
  · obtain rfl := Option.some.inj ha'
    exact h.incoming_tidy.put _ _ _

/-- Those that others are linked to stay in order. -/
theorem Coherent.list_targets_detach (h : a.Coherent) (uri v : Uri) (kind : String) :
    (a.detach uri).2.targets v kind = if uri = v then [] else (a.targets v kind).filter (· ≠ uri) := by
  have herased (v : Uri) (kind : String) : (Neighbours.list (a.outgoing.erase uri) v kind).Nodup := by
    rw [Neighbours.list_erase]
    split
    · exact List.nodup_nil
    · exact h.lists.nodup_targets v kind
  refine (Neighbours.list_dropEach (a.outgoing.erase uri) herased).trans ?_
  rw [Neighbours.list_erase]
  by_cases hv : uri = v
  · simp [hv]
  · rw [if_neg hv]
    split
    · rfl
    · rename_i hnone
      refine (List.filter_eq_self.mpr fun u hu ↦ decide_eq_true_eq.mpr ?_).symm
      rintro rfl
      have hedge := (h.lists.mem_sources ⟨kind, v, u⟩).mpr ((h.lists.mem_targets ⟨kind, v, u⟩).mp hu)
      refine hnone ((Neighbours.mem_around ..).mpr ?_)
      exact h.list_dropEach_around u u kind ▸ List.mem_filter.mpr ⟨hedge, decide_eq_true (Ne.symm hv)⟩

theorem Coherent.list_sources_detach (h : a.Coherent) (uri v : Uri) (kind : String) :
    (a.detach uri).2.sources v kind = if uri = v then [] else (a.sources v kind).filter (· ≠ uri) :=
  (Neighbours.list_erase ..).trans (ite_congr rfl (fun _ ↦ rfl) fun _ ↦ h.list_dropEach_around uri v kind)

/-- Detaching takes the edges of an entity out of the list of edges, those that go out by type and position, and then
those that come in. -/
theorem Refines.detach (h : a.Refines l) (uri : Uri) :
    (a.detach uri).1 = (l.change (.detach uri)).1 ∧ (a.detach uri).2.Refines (l.change (.detach uri)).2 := by
  obtain ⟨hcoherent, -, -, hedges⟩ := h.coherent.detach uri
  have hnodup : (l.filter fun e ↦ e.source ≠ uri ∧ e.target ≠ uri).Nodup := h.nodup.filter _
  constructor
  · refine congrArg₂ (· ++ ·) ?_ ?_
    · refine Neighbours.map_around a.outgoing uri (fun _ ↦ rfl) _ fun kind ↦ ?_
      exact (congrArg (List.map _) (h.targets_eq uri kind)).trans (l.map_targets uri kind)
    · refine Neighbours.map_around _ uri (fun _ ↦ rfl) _ fun kind ↦ ?_
      refine (congrArg (List.map _) (h.coherent.list_dropEach_around uri uri kind)).trans ?_
      rw [h.sources_eq]
      exact l.map_sources uri kind
  · refine ⟨fun v kind ↦ ?_, fun v kind ↦ ?_, hnodup, hcoherent.count_eq_length hnodup fun x ↦ ?_, ?_, ?_⟩
    · exact (h.coherent.list_targets_detach uri v kind).trans
        ((h.targets_eq v kind).symm ▸ (l.targets_without uri v kind).symm)
    · exact (h.coherent.list_sources_detach uri v kind).trans
        ((h.sources_eq v kind).symm ▸ (l.sources_without uri v kind).symm)
    · rw [hedges, h.mem_edges]
      change _ ↔ x ∈ l.filter _
      rw [List.mem_filter, decide_eq_true_iff]
    · exact (h.outgoing_tidy.erase uri).dropEach uri _
    · exact (h.incoming_tidy.dropEach uri _).erase uri

/-- Each change does to an adjacency what it does to the list. -/
theorem Refines.change (h : a.Refines l) (c : EdgeChange) :
    (a.change c).1 = (l.change c).1 ∧ (a.change c).2.Refines (l.change c).2 := by
  cases c with
  | insert e atFront =>
    by_cases hmem : e ∈ l
    · have hnone : a.insert? e atFront = none := if_pos (h.contains_iff.mpr hmem)
      rw [Adjacency.change, hnone, Roll.change, if_pos hmem]
      exact ⟨rfl, h⟩
    · obtain ⟨a', hins⟩ : ∃ a', a.insert? e atFront = some a' := ⟨_, if_neg (mt h.contains_iff.mp hmem)⟩
      rw [Adjacency.change, hins, Roll.change, if_neg hmem]
      exact ⟨rfl, h.insert? hins⟩
  | remove e =>
    by_cases hmem : e ∈ l
    · obtain ⟨a', hrem⟩ : ∃ a', a.remove? e = some a' := ⟨_, if_pos (h.contains_iff.mpr hmem)⟩
      rw [Adjacency.change, hrem, Roll.change, if_pos hmem]
      exact ⟨rfl, h.remove? hrem⟩
    · have hnone : a.remove? e = none := if_neg (mt h.contains_iff.mp hmem)
      rw [Adjacency.change, hnone, Roll.change, if_neg hmem]
      exact ⟨rfl, h⟩
  | detach uri => exact h.detach uri

theorem Refines.run (h : a.Refines l) (cs : List EdgeChange) :
    (EdgeChange.run Adjacency.change a cs).1 = (EdgeChange.run Roll.change l cs).1 ∧
      (EdgeChange.run Adjacency.change a cs).2.Refines (EdgeChange.run Roll.change l cs).2 := by
  induction cs generalizing a l with
  | nil => exact ⟨rfl, h⟩
  | cons c rest ih =>
    obtain ⟨hconcerned, hnext⟩ := h.change c
    obtain ⟨hanswers, hend⟩ := ih hnext
    exact ⟨congrArg₂ List.cons hconcerned hanswers, hend⟩

/-- Both lists of an edge hold it as often as the list of edges does. -/
theorem Refines.count_eq_count (h : a.Refines l) (e : Edge) :
    (a.targets e.source e.kind).count e.target = l.count e ∧
      (a.sources e.target e.kind).count e.source = l.count e := by
  rw [h.targets_eq, h.sources_eq]
  exact ⟨Roll.count_map_filter (fun _ _ ↦ Roll.eq_of_target) ⟨rfl, rfl⟩ l,
    Roll.count_map_filter (fun _ _ ↦ Roll.eq_of_source) ⟨rfl, rfl⟩ l⟩

/-- Detaching tells each edge of the entity once. -/
theorem Refines.detach_perm (h : a.Refines l) (uri : Uri) :
    (a.detach uri).1.Perm (l.filter fun e ↦ e.source = uri ∨ e.target = uri) := by
  obtain ⟨-, hnodup, hremoved, -⟩ := h.coherent.detach uri
  refine (List.perm_ext_iff_of_nodup hnodup (h.nodup.filter _)).mpr fun e ↦ ?_
  rw [hremoved, h.mem_edges, List.mem_filter, decide_eq_true_iff]

/-- Whatever happens to an empty adjacency, it is a list of edges in another form: it tells what comes and goes as the
list does, its lists hold the ends of the edges in their order, each edge stands once in the list of its source and
once in the list of its target, no empty list is kept, and the count is right. To detach an entity tells each of its
edges once and leaves the others in order. -/
theorem run_refines (cs : List EdgeChange) :
    let a := (EdgeChange.run Adjacency.change .empty cs).2
    let l := (EdgeChange.run Roll.change [] cs).2
    (EdgeChange.run Adjacency.change .empty cs).1 = (EdgeChange.run Roll.change [] cs).1 ∧ a.Refines l ∧
      (∀ e : Edge, (a.targets e.source e.kind).count e.target = l.count e ∧
        (a.sources e.target e.kind).count e.source = l.count e ∧ l.count e ≤ 1) ∧
      ∀ uri,
        (a.detach uri).1 = sorted Edge.byKind (l.filter fun e ↦ e.source = uri) ++
          sorted Edge.byKind (l.filter fun e ↦ e.target = uri ∧ e.source ≠ uri) ∧
        (a.detach uri).1.Perm (l.filter fun e ↦ e.source = uri ∨ e.target = uri) ∧
        (a.detach uri).2.Refines (l.filter fun e ↦ e.source ≠ uri ∧ e.target ≠ uri) := by
  obtain ⟨hanswers, hrefines⟩ := Refines.empty.run cs
  refine ⟨hanswers, hrefines, fun e ↦ ?_, fun uri ↦ ?_⟩
  · obtain ⟨htargets, hsources⟩ := hrefines.count_eq_count e
    exact ⟨htargets, hsources, List.nodup_iff_count_le_one.mp hrefines.nodup e⟩
  · obtain ⟨hremoved, hleft⟩ := hrefines.detach uri
    exact ⟨hremoved, hrefines.detach_perm uri, hleft⟩

/-- An edge comes in front of another one, and the loop goes before both of them. -/
example : (EdgeChange.run Adjacency.change .empty [.insert ⟨"p", "a", "b"⟩ false, .insert ⟨"p", "a", "c"⟩ true,
    .insert ⟨"l", "a", "a"⟩ false, .insert ⟨"p", "c", "b"⟩ false, .detach "a"]).1.getLast? =
      some [⟨"l", "a", "a"⟩, ⟨"p", "a", "c"⟩, ⟨"p", "a", "b"⟩] := by
  cbv

end Adjacency

end LiveGraph
