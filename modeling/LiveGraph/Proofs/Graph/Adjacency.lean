import LiveGraph.Graph.Adjacency
import Mathlib.Data.List.Nodup

/-!
# The two tables of an adjacency agree

Every edge stands once in the list of its source and once in the list of its target, and the count
is the number of edges. Inserting, removing and detaching keep this, and each is described by the
edges that are there afterwards.
-/

namespace LiveGraph

namespace Neighbours

variable (m : Neighbours) (uri : Uri) (kind : String)

theorem list_put (neighbours : List Uri) (uri' : Uri) (kind' : String) :
    (m.put uri kind neighbours).list uri' kind' =
      if uri = uri' ∧ kind = kind' then neighbours else m.list uri' kind' := by
  let kinds := m.getD uri ∅
  let kinds' := if neighbours.isEmpty then kinds.erase kind else kinds.insert kind neighbours
  have hinner : kinds'.getD kind' [] = if kind = kind' then neighbours else kinds.getD kind' [] := by
    simp only [kinds']
    split
    · simp_all [Std.TreeMap.getD_erase]
    · simp [Std.TreeMap.getD_insert]
  have houter : ((if kinds'.isEmpty then m.erase uri else m.insert uri kinds').getD uri' ∅).getD
      kind' [] = if uri = uri' then kinds'.getD kind' [] else m.list uri' kind' := by
    by_cases hu : uri = uri'
    · split
      · rename_i hempty
        simp [hu, Std.TreeMap.getD_of_isEmpty hempty]
      · simp [hu]
    · split <;> simp [hu, list, Std.TreeMap.getD_erase, Std.TreeMap.getD_insert]
  calc
    _ = if uri = uri' then kinds'.getD kind' [] else m.list uri' kind' := houter
    _ = _ := by
      rw [hinner]
      by_cases hu : uri = uri' <;> by_cases hk : kind = kind' <;> simp [hu, hk, kinds, list]

theorem list_drop (neighbour : Uri) (uri' : Uri) (kind' : String) :
    (m.drop uri kind neighbour).list uri' kind' =
      if uri = uri' ∧ kind = kind' then (m.list uri' kind').erase neighbour
      else m.list uri' kind' := by
  rw [drop, list_put]
  split
  · rename_i h
    rw [h.1, h.2]
  · rfl

theorem list_erase (uri' : Uri) :
    Neighbours.list (m.erase uri) uri' kind = if uri = uri' then [] else m.list uri' kind := by
  by_cases hu : uri = uri' <;> simp [hu, list, Std.TreeMap.getD_erase]

/-- An entry of the inner tables, listed, is a neighbour. -/
theorem mem_flatMap_kinds {α : Type} (kinds : Std.TreeMap String (List Uri))
    (f : String → Uri → α) (a : α) :
    (a ∈ kinds.toList.flatMap fun (kind, neighbours) ↦ neighbours.map (f kind)) ↔
      ∃ kind, ∃ v ∈ kinds.getD kind [], f kind v = a := by
  simp only [List.mem_flatMap, List.mem_map, Prod.exists, Std.TreeMap.mem_toList_iff_getElem?_eq_some,
    Std.TreeMap.getD_eq_getD_getElem?]
  constructor
  · rintro ⟨kind, neighbours, hkind, v, hv, rfl⟩
    exact ⟨kind, v, by simpa [hkind] using hv, rfl⟩
  · rintro ⟨kind, v, hv, rfl⟩
    cases hkind : kinds[kind]? with
    | none => simp [hkind] at hv
    | some neighbours => exact ⟨kind, neighbours, hkind, v, by simpa [hkind] using hv, rfl⟩

/-- Neighbours listed with their types are distinct if every list has none twice. -/
theorem nodup_flatMap_kinds {α : Type} (kinds : Std.TreeMap String (List Uri))
    (f : String → Uri → α) (hf : ∀ k v k' v', f k v = f k' v' → k = k' ∧ v = v')
    (h : ∀ kind, (kinds.getD kind []).Nodup) :
    (kinds.toList.flatMap fun (kind, neighbours) ↦ neighbours.map (f kind)).Nodup := by
  rw [List.nodup_flatMap]
  constructor
  · rintro ⟨kind, neighbours⟩ hkind
    rw [Std.TreeMap.mem_toList_iff_getElem?_eq_some] at hkind
    have hlist := h kind
    rw [Std.TreeMap.getD_eq_getD_getElem?, hkind] at hlist
    exact hlist.map fun a b hab ↦ (hf _ _ _ _ hab).2
  · refine kinds.distinct_keys_toList.imp fun {a b} hab ↦ ?_
    simp only [Function.onFun, List.disjoint_left, List.mem_map]
    rintro _ ⟨v, _, rfl⟩ ⟨v', _, hv'⟩
    have hkinds : b.1 = a.1 := (hf _ _ _ _ hv').1
    simp [hkinds] at hab

theorem mem_around (kind : String) (v : Uri) : (kind, v) ∈ m.around uri ↔ v ∈ m.list uri kind := by
  refine (mem_flatMap_kinds (m.getD uri ∅) (fun kind v ↦ (kind, v)) (kind, v)).trans ?_
  simp [list]

theorem nodup_around (h : ∀ kind, (m.list uri kind).Nodup) : (m.around uri).Nodup :=
  nodup_flatMap_kinds _ _ (fun _ _ _ _ heq ↦ Prod.mk.inj heq) h

theorem mem_put_extend {uri v uri' : Uri} {kind kind' : String} {atFront : Bool} (w : Uri) :
    v ∈ (m.put uri kind (Adjacency.extend atFront w (m.list uri kind))).list uri' kind' ↔
      (uri' = uri ∧ kind' = kind ∧ v = w) ∨ v ∈ m.list uri' kind' := by
  have hextend : v ∈ Adjacency.extend atFront w (m.list uri kind) ↔ v = w ∨ v ∈ m.list uri kind := by
    cases atFront <;> simp [Adjacency.extend, or_comm]
  rw [list_put]
  split
  · rename_i h
    obtain ⟨rfl, rfl⟩ := h
    simp [hextend]
  · rename_i h
    have hne : ¬(uri' = uri ∧ kind' = kind ∧ v = w) := fun h' ↦ h ⟨h'.1.symm, h'.2.1.symm⟩
    simp [hne]

theorem nodup_put_extend {uri w : Uri} {kind : String} {atFront : Bool}
    (h : ∀ uri kind, (m.list uri kind).Nodup) (hfresh : w ∉ m.list uri kind) (uri' : Uri)
    (kind' : String) :
    ((m.put uri kind (Adjacency.extend atFront w (m.list uri kind))).list uri' kind').Nodup := by
  rw [list_put]
  split
  · cases atFront
    · refine List.nodup_append.mpr ⟨h _ _, by simp, fun a ha b hb hab ↦ ?_⟩
      rw [List.mem_singleton.mp hb] at hab
      exact hfresh (hab ▸ ha)
    · exact List.nodup_cons.mpr ⟨hfresh, h _ _⟩
  · exact h _ _

theorem mem_drop {uri v w uri' : Uri} {kind kind' : String}
    (h : ∀ uri kind, (m.list uri kind).Nodup) :
    v ∈ (m.drop uri kind w).list uri' kind' ↔
      v ∈ m.list uri' kind' ∧ ¬(uri' = uri ∧ kind' = kind ∧ v = w) := by
  rw [list_drop]
  split
  · rename_i hk
    rw [(h uri' kind').mem_erase_iff, hk.1, hk.2]
    simp [and_comm]
  · rename_i hk
    have hne : ¬(uri' = uri ∧ kind' = kind ∧ v = w) := fun h' ↦ hk ⟨h'.1.symm, h'.2.1.symm⟩
    simp [hne]

theorem nodup_drop {uri w : Uri} {kind : String} (h : ∀ uri kind, (m.list uri kind).Nodup)
    (uri' : Uri) (kind' : String) : ((m.drop uri kind w).list uri' kind').Nodup := by
  rw [list_drop]
  split
  · exact (h _ _).erase _
  · exact h _ _

/-- Dropping one neighbour from several lists. -/
def dropEach (m : Neighbours) (w : Uri) (entries : List (String × Uri)) : Neighbours :=
  entries.foldl (fun m (kind, uri) ↦ m.drop uri kind w) m

theorem nodup_dropEach {w : Uri} {entries : List (String × Uri)}
    (h : ∀ uri kind, (m.list uri kind).Nodup) (uri : Uri) (kind : String) :
    ((m.dropEach w entries).list uri kind).Nodup := by
  induction entries generalizing m with
  | nil => exact h _ _
  | cons e rest ih => exact ih _ (nodup_drop m h)

theorem mem_dropEach {w v uri : Uri} {kind : String} {entries : List (String × Uri)}
    (h : ∀ uri kind, (m.list uri kind).Nodup) :
    v ∈ (m.dropEach w entries).list uri kind ↔
      v ∈ m.list uri kind ∧ ¬(v = w ∧ (kind, uri) ∈ entries) := by
  induction entries generalizing m with
  | nil => simp [dropEach]
  | cons e rest ih =>
    obtain ⟨kind', uri'⟩ := e
    have hstep : m.dropEach w ((kind', uri') :: rest) = (m.drop uri' kind' w).dropEach w rest := rfl
    rw [hstep, ih _ (nodup_drop m h), mem_drop m h]
    simp only [List.mem_cons, Prod.mk.injEq]
    tauto

/-- Dropping one neighbour from several lists leaves the others in order. -/
theorem list_dropEach {w uri : Uri} {kind : String} {entries : List (String × Uri)}
    (h : ∀ uri kind, (m.list uri kind).Nodup) :
    (m.dropEach w entries).list uri kind =
      if (kind, uri) ∈ entries then (m.list uri kind).filter (· ≠ w) else m.list uri kind := by
  induction entries generalizing m with
  | nil => simp [dropEach]
  | cons e rest ih =>
    obtain ⟨kind', uri'⟩ := e
    have hstep : m.dropEach w ((kind', uri') :: rest) = (m.drop uri' kind' w).dropEach w rest := rfl
    rw [hstep, ih _ (nodup_drop m h), list_drop]
    by_cases hentry : uri' = uri ∧ kind' = kind
    · obtain ⟨rfl, rfl⟩ := hentry
      have herase : (m.list uri' kind').erase w = (m.list uri' kind').filter (· ≠ w) := by
        rw [(h uri' kind').erase_eq_filter]
        exact List.filter_congr fun v _ ↦ by simp [bne, beq_eq_decide]
      rw [if_pos (And.intro rfl rfl), if_pos List.mem_cons_self, herase]
      split
      · simp
      · rfl
    · have hmem : (kind, uri) ∈ (kind', uri') :: rest ↔ (kind, uri) ∈ rest := by
        rw [List.mem_cons, or_iff_right fun heq ↦ hentry ?_]
        exact ⟨(congrArg Prod.snd heq).symm, (congrArg Prod.fst heq).symm⟩
      rw [if_neg hentry, if_congr hmem rfl rfl]

end Neighbours

namespace Adjacency

/-- Both tables list exactly the edges in a set, none of them twice. -/
structure Lists (a : Adjacency) (E : Edge → Prop) : Prop where
  mem_targets : ∀ e : Edge, e.target ∈ a.targets e.source e.kind ↔ E e
  mem_sources : ∀ e : Edge, e.source ∈ a.sources e.target e.kind ↔ E e
  nodup_targets : ∀ uri kind, (a.targets uri kind).Nodup
  nodup_sources : ∀ uri kind, (a.sources uri kind).Nodup

/-- The two tables list the same edges, and the count is right. -/
structure Coherent (a : Adjacency) : Prop where
  lists : a.Lists (· ∈ a.edges)
  count_eq : a.count = a.edges.length

theorem mem_edges (a : Adjacency) (e : Edge) : e ∈ a.edges ↔ e.source ∈ a.sources e.target e.kind := by
  rw [edges, List.mem_flatMap]
  constructor
  · rintro ⟨⟨target, kinds⟩, ht, he⟩
    rw [Std.TreeMap.mem_toList_iff_getElem?_eq_some] at ht
    obtain ⟨kind, source, hs, rfl⟩ :=
      (Neighbours.mem_flatMap_kinds kinds (fun kind source ↦ ⟨kind, source, target⟩) e).mp he
    simpa [sources, Neighbours.list, Std.TreeMap.getD_eq_getD_getElem?, ht] using hs
  · intro hs
    cases ht : a.incoming[e.target]? with
    | none => simp [sources, Neighbours.list, Std.TreeMap.getD_eq_getD_getElem?, ht] at hs
    | some kinds =>
      refine ⟨(e.target, kinds), Std.TreeMap.mem_toList_iff_getElem?_eq_some.mpr ht, ?_⟩
      refine (Neighbours.mem_flatMap_kinds kinds (fun kind source ↦ ⟨kind, source, e.target⟩) e).mpr
        ⟨e.kind, e.source, ?_, rfl⟩
      simpa [sources, Neighbours.list, Std.TreeMap.getD_eq_getD_getElem?, ht] using hs

theorem nodup_edges (a : Adjacency) (h : ∀ v kind, (a.sources v kind).Nodup) : a.edges.Nodup := by
  rw [edges, List.nodup_flatMap]
  constructor
  · rintro ⟨target, kinds⟩ ht
    rw [Std.TreeMap.mem_toList_iff_getElem?_eq_some] at ht
    refine Neighbours.nodup_flatMap_kinds kinds (fun kind source ↦ ⟨kind, source, target⟩)
      (fun k v k' v' heq ↦ ⟨congrArg Edge.kind heq, congrArg Edge.source heq⟩) fun kind ↦ ?_
    simpa [sources, Neighbours.list, Std.TreeMap.getD_eq_getD_getElem?, ht] using h target kind
  · refine a.incoming.distinct_keys_toList.imp ?_
    rintro ⟨target, kinds⟩ ⟨target', kinds'⟩ hne
    refine List.disjoint_left.mpr fun e he he' ↦ ?_
    obtain ⟨_, _, _, rfl⟩ := (Neighbours.mem_flatMap_kinds kinds
      (fun kind source ↦ (⟨kind, source, target⟩ : Edge)) e).mp he
    obtain ⟨_, _, _, heq⟩ := (Neighbours.mem_flatMap_kinds kinds'
      (fun kind source ↦ (⟨kind, source, target'⟩ : Edge)) _).mp he'
    have htargets : target' = target := congrArg Edge.target heq
    simp [htargets] at hne

theorem Lists.nodup_edges {a : Adjacency} {E : Edge → Prop} (h : a.Lists E) : a.edges.Nodup :=
  Adjacency.nodup_edges a h.nodup_sources

/-- What both tables list are the edges. -/
theorem Lists.coherent {a : Adjacency} {E : Edge → Prop} (h : a.Lists E)
    (hcount : a.count = a.edges.length) : a.Coherent := by
  have hE : ∀ e, e ∈ a.edges ↔ E e := fun e ↦ (mem_edges a e).trans (h.mem_sources e)
  exact ⟨⟨fun e ↦ (h.mem_targets e).trans (hE e).symm, fun e ↦ (h.mem_sources e).trans (hE e).symm,
    h.nodup_targets, h.nodup_sources⟩, hcount⟩

theorem Lists.mem_edges {a : Adjacency} {E : Edge → Prop} (h : a.Lists E) (e : Edge) :
    e ∈ a.edges ↔ E e :=
  (Adjacency.mem_edges a e).trans (h.mem_sources e)

theorem Coherent.empty : Coherent .empty where
  lists := ⟨by simp [targets, Adjacency.empty, Neighbours.list, edges],
    by simp [sources, Adjacency.empty, Neighbours.list, edges],
    by simp [targets, Adjacency.empty, Neighbours.list],
    by simp [sources, Adjacency.empty, Neighbours.list]⟩
  count_eq := rfl

variable {a a' : Adjacency} {e : Edge}

theorem Coherent.contains_iff (h : a.Coherent) : a.contains e = true ↔ e ∈ a.edges := by
  rw [contains, List.contains_iff_mem, h.lists.mem_targets]

/-- After an insertion there is one edge more. -/
theorem Coherent.insert? (h : a.Coherent) {atFront : Bool} (hins : a.insert? e atFront = some a') :
    a'.Coherent ∧ ∀ x, x ∈ a'.edges ↔ x = e ∨ x ∈ a.edges := by
  obtain ⟨hnew, ha'⟩ := Option.ite_none_left_eq_some.mp hins
  have hfresh : e ∉ a.edges := fun hmem ↦ hnew (h.contains_iff.mpr hmem)
  have hlists : a'.Lists fun x ↦ x = e ∨ x ∈ a.edges := by
    obtain rfl := Option.some.inj ha'
    refine ⟨fun x ↦ ?_, fun x ↦ ?_, ?_, ?_⟩
    · refine (Neighbours.mem_put_extend a.outgoing e.target).trans
        (or_congr ?_ (h.lists.mem_targets x))
      cases x; cases e
      simp only [Edge.mk.injEq]
      tauto
    · refine (Neighbours.mem_put_extend a.incoming e.source).trans
        (or_congr ?_ (h.lists.mem_sources x))
      cases x; cases e
      simp only [Edge.mk.injEq]
      tauto
    · exact Neighbours.nodup_put_extend a.outgoing h.lists.nodup_targets
        fun hmem ↦ hfresh ((h.lists.mem_targets e).mp hmem)
    · exact Neighbours.nodup_put_extend a.incoming h.lists.nodup_sources
        fun hmem ↦ hfresh ((h.lists.mem_sources e).mp hmem)
  refine ⟨hlists.coherent ?_, hlists.mem_edges⟩
  have hperm := (List.perm_ext_iff_of_nodup hlists.nodup_edges
    (List.nodup_cons.mpr ⟨hfresh, h.lists.nodup_edges⟩)).mpr
    fun x ↦ (hlists.mem_edges x).trans List.mem_cons.symm
  rw [hperm.length_eq, List.length_cons, ← h.count_eq, ← Option.some.inj ha']

/-- An edge that is inserted stands at the end of the list of its target, or at the front. -/
theorem sources_insert? {atFront : Bool} (hins : a.insert? e atFront = some a') :
    a'.sources e.target e.kind = extend atFront e.source (a.sources e.target e.kind) := by
  obtain ⟨-, ha'⟩ := Option.ite_none_left_eq_some.mp hins
  obtain rfl := Option.some.inj ha'
  exact (Neighbours.list_put ..).trans (if_pos ⟨rfl, rfl⟩)

/-- After a removal there is one edge less. -/
theorem Coherent.remove? (h : a.Coherent) (hrem : a.remove? e = some a') :
    a'.Coherent ∧ e ∈ a.edges ∧ ∀ x, x ∈ a'.edges ↔ x ∈ a.edges ∧ x ≠ e := by
  obtain ⟨hold, ha'⟩ := Option.ite_none_right_eq_some.mp hrem
  have hmem : e ∈ a.edges := h.contains_iff.mp hold
  have hlists : a'.Lists fun x ↦ x ∈ a.edges ∧ x ≠ e := by
    obtain rfl := Option.some.inj ha'
    refine ⟨fun x ↦ ?_, fun x ↦ ?_, ?_, ?_⟩
    · refine (Neighbours.mem_drop a.outgoing h.lists.nodup_targets).trans
        (and_congr (h.lists.mem_targets x) (not_congr ?_))
      cases x; cases e
      simp only [Edge.mk.injEq]
      tauto
    · refine (Neighbours.mem_drop a.incoming h.lists.nodup_sources).trans
        (and_congr (h.lists.mem_sources x) (not_congr ?_))
      cases x; cases e
      simp only [Edge.mk.injEq]
      tauto
    · exact Neighbours.nodup_drop a.outgoing h.lists.nodup_targets
    · exact Neighbours.nodup_drop a.incoming h.lists.nodup_sources
  refine ⟨hlists.coherent ?_, hmem, hlists.mem_edges⟩
  have hperm := (List.perm_ext_iff_of_nodup hlists.nodup_edges (h.lists.nodup_edges.erase e)).mpr
    fun x ↦ (hlists.mem_edges x).trans (by rw [h.lists.nodup_edges.mem_erase_iff, and_comm])
  rw [hperm.length_eq, List.length_erase_of_mem hmem, ← h.count_eq, ← Option.some.inj ha']

/-- Detaching takes away each edge of the entity once and leaves the others. -/
theorem Coherent.detach (h : a.Coherent) (uri : Uri) :
    (a.detach uri).2.Coherent ∧ (a.detach uri).1.Nodup ∧
      (∀ x, x ∈ (a.detach uri).1 ↔ x ∈ a.edges ∧ (x.source = uri ∨ x.target = uri)) ∧
      ∀ x, x ∈ (a.detach uri).2.edges ↔ x ∈ a.edges ∧ x.source ≠ uri ∧ x.target ≠ uri := by
  let out := a.outgoing.around uri
  let incoming := Neighbours.dropEach a.incoming uri out
  let back := Neighbours.around incoming uri
  have hnodupIn : ∀ u k, (Neighbours.list incoming u k).Nodup :=
    Neighbours.nodup_dropEach a.incoming h.lists.nodup_sources
  have hnodupOut : ∀ u k, (Neighbours.list (a.outgoing.erase uri) u k).Nodup := by
    intro u k
    rw [Neighbours.list_erase]
    split
    · exact List.nodup_nil
    · exact h.lists.nodup_targets _ _
  have hout : ∀ k v, (k, v) ∈ out ↔ (⟨k, uri, v⟩ : Edge) ∈ a.edges := fun k v ↦
    (Neighbours.mem_around a.outgoing uri k v).trans (h.lists.mem_targets ⟨k, uri, v⟩)
  have hin : ∀ k u v, u ∈ Neighbours.list incoming v k ↔
      (⟨k, u, v⟩ : Edge) ∈ a.edges ∧ u ≠ uri := by
    intro k u v
    rw [Neighbours.mem_dropEach a.incoming h.lists.nodup_sources, hout]
    refine (and_congr_left' (h.lists.mem_sources ⟨k, u, v⟩)).trans ?_
    constructor
    · rintro ⟨hmem, hne⟩
      exact ⟨hmem, fun heq ↦ hne ⟨heq, heq ▸ hmem⟩⟩
    · rintro ⟨hmem, hne⟩
      exact ⟨hmem, fun heq ↦ hne heq.1⟩
  have hback : ∀ k u, (k, u) ∈ back ↔ (⟨k, u, uri⟩ : Edge) ∈ a.edges ∧ u ≠ uri := fun k u ↦
    (Neighbours.mem_around incoming uri k u).trans (hin k u uri)
  have hremoved : ∀ x, x ∈ (a.detach uri).1 ↔
      x ∈ a.edges ∧ (x.source = uri ∨ x.target = uri) := by
    rintro ⟨k, u, v⟩
    change _ ∈ out.map (fun p ↦ (⟨p.1, uri, p.2⟩ : Edge)) ++
      back.map (fun p ↦ (⟨p.1, p.2, uri⟩ : Edge)) ↔ _
    simp only [List.mem_append, List.mem_map, Prod.exists, Edge.mk.injEq]
    constructor
    · rintro (⟨k', v', hmem, rfl, rfl, rfl⟩ | ⟨k', u', hmem, rfl, rfl, rfl⟩)
      · exact ⟨(hout _ _).mp hmem, .inl rfl⟩
      · exact ⟨((hback _ _).mp hmem).1, .inr rfl⟩
    · rintro ⟨hmem, hends⟩
      by_cases hu : u = uri
      · exact .inl ⟨k, v, (hout k v).mpr (hu ▸ hmem), rfl, hu.symm, rfl⟩
      · have hv : v = uri := hends.resolve_left hu
        exact .inr ⟨k, u, (hback k u).mpr ⟨hv ▸ hmem, hu⟩, rfl, rfl, hv.symm⟩
  have hnodup : (a.detach uri).1.Nodup := by
    refine List.nodup_append.mpr ⟨?_, ?_, ?_⟩
    · exact (Neighbours.nodup_around a.outgoing uri fun k ↦ h.lists.nodup_targets _ _).map
        fun x y hxy ↦ Prod.ext (congrArg Edge.kind hxy) (congrArg Edge.target hxy)
    · exact (Neighbours.nodup_around incoming uri fun k ↦ hnodupIn _ _).map
        fun x y hxy ↦ Prod.ext (congrArg Edge.kind hxy) (congrArg Edge.source hxy)
    · intro x hx y hy hxy
      obtain ⟨p, -, rfl⟩ := List.mem_map.mp hx
      obtain ⟨q, hq, rfl⟩ := List.mem_map.mp hy
      exact ((hback q.1 q.2).mp hq).2 (congrArg Edge.source hxy).symm
  have hlists : Lists (a.detach uri).2 fun x ↦ x ∈ a.edges ∧ x.source ≠ uri ∧ x.target ≠ uri := by
    refine ⟨fun x ↦ ?_, fun x ↦ ?_, ?_, ?_⟩
    · refine (Neighbours.mem_dropEach (a.outgoing.erase uri) hnodupOut).trans ?_
      change _ ∧ ¬(_ ∧ _ ∈ back) ↔ _
      rw [Neighbours.list_erase, hback]
      by_cases hs : uri = x.source
      · simp [hs]
      · rw [if_neg hs]
        refine (and_congr_left' (h.lists.mem_targets x)).trans ?_
        constructor
        · rintro ⟨hmem, hne⟩
          refine ⟨hmem, Ne.symm hs, fun ht ↦ hne ⟨ht, ?_, Ne.symm hs⟩⟩
          cases x
          exact ht ▸ hmem
        · rintro ⟨hmem, -, ht⟩
          exact ⟨hmem, fun hx ↦ ht hx.1⟩
    · change x.source ∈ Neighbours.list (incoming.erase uri) x.target x.kind ↔ _
      rw [Neighbours.list_erase]
      by_cases ht : uri = x.target
      · simp [ht]
      · rw [if_neg ht, hin]
        exact and_congr_right fun _ ↦ ⟨fun hs ↦ ⟨hs, Ne.symm ht⟩, fun hs ↦ hs.1⟩
    · exact Neighbours.nodup_dropEach (a.outgoing.erase uri) hnodupOut
    · intro u k
      change (Neighbours.list (incoming.erase uri) u k).Nodup
      rw [Neighbours.list_erase]
      split
      · exact List.nodup_nil
      · exact hnodupIn _ _
  refine ⟨hlists.coherent ?_, hnodup, hremoved, hlists.mem_edges⟩
  have hall : List.Perm a.edges ((a.detach uri).1 ++ (a.detach uri).2.edges) := by
    refine (List.perm_ext_iff_of_nodup h.lists.nodup_edges (List.nodup_append.mpr
      ⟨hnodup, hlists.nodup_edges, fun x hx y hy hxy ↦ ?_⟩)).mpr fun x ↦ ?_
    · have hx' := (hremoved x).mp hx
      have hy' := (hlists.mem_edges y).mp hy
      subst hxy
      tauto
    · rw [List.mem_append, hremoved, hlists.mem_edges]
      tauto
  have hlength := hall.length_eq
  rw [List.length_append] at hlength
  change a.count - (a.detach uri).1.length = _
  rw [h.count_eq, hlength, Nat.add_sub_cancel_left]

/-- An entity that is taken out of the lists of its targets is in no list of sources any more. -/
theorem Coherent.list_dropEach_around (h : a.Coherent) (uri v : Uri) (kind : String) :
    (Neighbours.dropEach a.incoming uri (a.outgoing.around uri)).list v kind =
      (a.sources v kind).filter (· ≠ uri) := by
  rw [Neighbours.list_dropEach a.incoming h.lists.nodup_sources]
  split
  · rfl
  · rename_i hnone
    rw [Neighbours.mem_around] at hnone
    refine (List.filter_eq_self.mpr fun u hu ↦ ?_).symm
    refine decide_eq_true_eq.mpr fun heq ↦ hnone ?_
    refine (h.lists.mem_targets ⟨kind, uri, v⟩).mpr ((h.lists.mem_sources ⟨kind, uri, v⟩).mp ?_)
    exact heq ▸ hu

/-- Those of others that are linked to an entity stay in order. -/
theorem Coherent.sources_detach (h : a.Coherent) {uri v : Uri} (hv : v ≠ uri) (kind : String) :
    (a.detach uri).2.sources v kind = (a.sources v kind).filter (· ≠ uri) := by
  refine (Neighbours.list_erase ..).trans ((if_neg (Ne.symm hv)).trans ?_)
  exact h.list_dropEach_around uri v kind

end Adjacency

end LiveGraph
