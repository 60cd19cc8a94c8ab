import LiveGraph.Proofs.Client.Basic
import LiveGraph.Proofs.Store.Coherence
import LiveGraph.Proofs.Tables

/-!
# What is seen of a coherent store

The integrity of a store in terms of what can be read off it: by URI, by type, by edge and by
number. Coherence of the tables is what makes all these readings agree.
-/

namespace LiveGraph

/-- What is looked up at several URIs is what is found at each of them. -/
theorem Store.value_lookupAll (s : StoreId) (w : World) (uris : List Uri) :
    (Store.lookupAll s uris).value w = uris.filterMap (w.find? s) := by
  induction uris with
  | nil => rfl
  | cons uri rest ih =>
    change (w.find? s uri).toList ++ (Store.lookupAll s rest).value w = _
    rw [ih]
    cases hfind : w.find? s uri with
    | none => rw [List.filterMap_cons_none hfind]; rfl
    | some e => rw [List.filterMap_cons_some hfind]; rfl

namespace World

/-- An entity of a store that is live. -/
def IsLive (w : World) (s : StoreId) (e : EntityRef) : Prop :=
  e.store = s ∧ w.knows e ∧ (w.entity e).live = true

/-- What is read off a store fits together. -/
structure Integral (w : World) (s : StoreId) : Prop where
  uri_inj : ∀ e e', w.IsLive s e → w.IsLive s e' → w.uriOf e = w.uriOf e' → e = e'
  find_iff : ∀ uri e, w.find? s uri = some e ↔ w.IsLive s e ∧ w.uriOf e = uri
  mem_entities : ∀ e, e ∈ w.entities s ↔ w.IsLive s e
  nodup_entities : (w.entities s).Nodup
  mem_entitiesOf : ∀ kind e, e ∈ w.entitiesOf s kind ↔ w.IsLive s e ∧ w.kindOf e = kind
  sorted_entitiesOf : ∀ kind, (w.entitiesOf s kind).Pairwise fun a b ↦ a.serial < b.serial
  entities_count : (w.counts s).entities = (w.entities s).length
  mem_kinds : ∀ kind n, (kind, n) ∈ (w.counts s).kinds ↔ 0 < n ∧ n = (w.entitiesOf s kind).length
  nodup_kinds : ((w.counts s).kinds.map (·.1)).Nodup
  sum_kinds : ((w.counts s).kinds.map (·.2)).sum = (w.counts s).entities
  ends_live : ∀ x ∈ (w.store s).edges.edges, w.contains s x.source ∧ w.contains s x.target
  mem_targets : ∀ x : Edge, x.target ∈ (Store.targets s x.source x.kind).value w ↔
    x ∈ (w.store s).edges.edges
  mem_sources : ∀ x : Edge, x.source ∈ (Store.sources s x.target x.kind).value w ↔
    x ∈ (w.store s).edges.edges
  nodup_edges : (w.store s).edges.edges.Nodup
  nodup_targets : ∀ uri kind, ((Store.targets s uri kind).value w).Nodup
  nodup_sources : ∀ uri kind, ((Store.sources s uri kind).value w).Nodup
  edges_count : (w.counts s).edges = (w.store s).edges.edges.length

variable {w : World} {s : StoreId}

theorem isLive_iff (e : EntityRef) : w.IsLive s e ↔ e.store = s ∧ 0 < e.serial ∧
    e.serial ≤ (w.store s).incarnations.size ∧ ((w.store s).incarnation e.serial).live = true := by
  unfold IsLive knows entity
  constructor
  · rintro ⟨rfl, hknows, hlive⟩
    rw [Bool.and_eq_true, decide_eq_true_eq, decide_eq_true_eq] at hknows
    exact ⟨rfl, hknows.1, hknows.2, hlive⟩
  · rintro ⟨rfl, hpos, hsize, hlive⟩
    rw [Bool.and_eq_true, decide_eq_true_eq, decide_eq_true_eq]
    exact ⟨rfl, ⟨hpos, hsize⟩, hlive⟩

theorem isLive_iff_entity (e : EntityRef) : w.IsLive s e ↔ e.store = s ∧ 0 < e.serial ∧
    e.serial ≤ (w.store s).incarnations.size ∧ (w.entity e).live = true := by
  rw [isLive_iff]
  refine and_congr_right fun he ↦ ?_
  rw [entity, he]

theorem isLive_of_live {e : EntityRef} (he : e.store = s) (hserial : 0 < e.serial)
    (hlive : (w.entity e).live = true) : w.IsLive s e := by
  refine (isLive_iff_entity e).mpr ⟨he, hserial, Nat.le_of_not_lt fun hlt ↦ ?_, hlive⟩
  rw [entity, he, Store.incarnation_of_size_lt _ hlt] at hlive
  exact Bool.noConfusion hlive

theorem sorted_entitiesOf (kind : String) :
    (w.entitiesOf s kind).Pairwise fun a b ↦ a.serial < b.serial := by
  rw [entitiesOf, List.pairwise_map, Store.serialsOf]
  exact ((w.store s).bucket kind).ordered_keys.imp fun hlt ↦ Nat.compare_eq_lt.mp hlt

section Coherent

variable (h : (w.store s).Coherent)
include h

theorem live_iff_isLive (e : EntityRef) (he : e.store = s) (uri : Uri) :
    (w.store s).live[uri]? = some e.serial ↔ w.IsLive s e ∧ w.uriOf e = uri := by
  rw [h.live_iff, isLive_iff, uriOf, entity, he]
  tauto

theorem mem_entities_of_coherent (e : EntityRef) : e ∈ w.entities s ↔ w.IsLive s e := by
  rw [entities, List.mem_map]
  constructor
  · rintro ⟨n, hn, rfl⟩
    obtain ⟨uri, huri⟩ := (Tables.mem_values _ n).mp hn
    exact ((live_iff_isLive h ⟨s, n⟩ rfl uri).mp huri).1
  · intro hlive
    refine ⟨e.serial, (Tables.mem_values _ _).mpr ⟨w.uriOf e, ?_⟩, ?_⟩
    · exact (live_iff_isLive h e hlive.1 _).mpr ⟨hlive, rfl⟩
    · rw [← hlive.1]

theorem mem_serialsOf (kind : String) (n : Nat) :
    n ∈ (w.store s).serialsOf kind ↔
      ∃ uri : Uri, (w.store s).live[uri]? = some n ∧
        ((w.store s).incarnation n).kind = kind := by
  rw [Store.serialsOf, Std.TreeMap.mem_keys, ← Std.TreeMap.isSome_getElem?_iff_mem,
    Option.isSome_iff_exists]
  exact exists_congr fun uri ↦ h.bucket_iff kind n uri

theorem mem_entitiesOf_of_coherent (kind : String) (e : EntityRef) :
    e ∈ w.entitiesOf s kind ↔ w.IsLive s e ∧ w.kindOf e = kind := by
  rw [entitiesOf, List.mem_map]
  constructor
  · rintro ⟨n, hn, rfl⟩
    obtain ⟨uri, hlive, hkind⟩ := (mem_serialsOf h kind n).mp hn
    exact ⟨((live_iff_isLive h ⟨s, n⟩ rfl uri).mp hlive).1, hkind⟩
  · rintro ⟨hlive, hkind⟩
    refine ⟨e.serial, (mem_serialsOf h kind _).mpr ⟨w.uriOf e, ?_, ?_⟩, ?_⟩
    · exact (live_iff_isLive h e hlive.1 _).mpr ⟨hlive, rfl⟩
    · rw [← hkind, kindOf, entity, hlive.1]
    · rw [← hlive.1]

theorem mem_kinds_of_coherent (kind : String) (n : Nat) :
    (kind, n) ∈ (w.counts s).kinds ↔ 0 < n ∧ n = (w.entitiesOf s kind).length := by
  have hlength : (w.entitiesOf s kind).length = ((w.store s).bucket kind).size := by
    rw [entitiesOf, List.length_map, Store.serialsOf, Std.TreeMap.length_keys]
  have hmem : (kind, n) ∈ (w.counts s).kinds ↔
      ∃ bucket : Std.TreeMap Nat Uri, (w.store s).byKind[kind]? = some bucket ∧ bucket.size = n := by
    simp only [counts, List.mem_map, Prod.exists, Prod.mk.injEq,
      Std.TreeMap.mem_toList_iff_getElem?_eq_some]
    constructor
    · rintro ⟨_, bucket, hbucket, rfl, hsize⟩
      exact ⟨bucket, hbucket, hsize⟩
    · rintro ⟨bucket, hbucket, hsize⟩
      exact ⟨kind, bucket, hbucket, rfl, hsize⟩
  rw [hmem, hlength, Store.bucket, Std.TreeMap.getD_eq_getD_getElem?]
  constructor
  · rintro ⟨bucket, hbucket, rfl⟩
    have hfull := h.noneEmpty kind bucket hbucket
    rw [hbucket, Option.getD_some]
    refine ⟨Nat.pos_of_ne_zero fun hzero ↦ ?_, rfl⟩
    simp [Std.TreeMap.isEmpty_eq_size_eq_zero, hzero] at hfull
  · rintro ⟨hpos, hn⟩
    cases hbucket : (w.store s).byKind[kind]? with
    | none => simp [hn, hbucket] at hpos
    | some bucket => exact ⟨bucket, rfl, by rw [hn, hbucket, Option.getD_some]⟩

/-- The entities by type are all entities: both list the same serials once. -/
theorem sum_kinds_of_coherent :
    ((w.counts s).kinds.map (·.2)).sum = (w.counts s).entities := by
  have hbucket : ∀ (kind : String) (inner : Std.TreeMap Nat Uri) (n : Nat),
      (w.store s).byKind[kind]? = some inner → n ∈ inner →
        n ∈ (w.store s).serialsOf kind := by
    intro kind inner n hinner hn
    rw [Store.serialsOf, Store.bucket, Std.TreeMap.getD_eq_getD_getElem?, hinner, Option.getD_some]
    exact Std.TreeMap.mem_keys.mpr hn
  have hperm : (Tables.innerKeys (w.store s).byKind).Perm (w.store s).live.values := by
    refine (List.perm_ext_iff_of_nodup (Tables.nodup_innerKeys _ ?_)
      (Tables.nodup_values _ ?_)).mpr fun n ↦ ?_
    · intro kind kind' inner inner' n hinner hinner' hn hn'
      obtain ⟨_, -, hkind⟩ := (mem_serialsOf h kind n).mp (hbucket kind inner n hinner hn)
      obtain ⟨_, -, hkind'⟩ := (mem_serialsOf h kind' n).mp (hbucket kind' inner' n hinner' hn')
      exact hkind.symm.trans hkind'
    · exact fun uri uri' n hlive hlive' ↦ h.uri_unique hlive hlive'
    · rw [Tables.mem_innerKeys, Tables.mem_values]
      constructor
      · rintro ⟨kind, inner, hinner, hn⟩
        obtain ⟨uri, hlive, -⟩ := (mem_serialsOf h kind n).mp (hbucket kind inner n hinner hn)
        exact ⟨uri, hlive⟩
      · rintro ⟨uri, hlive⟩
        let kind := ((w.store s).incarnation n).kind
        have hmem := (h.bucket_iff kind n uri).mpr ⟨hlive, rfl⟩
        rw [Store.bucket, Std.TreeMap.getD_eq_getD_getElem?] at hmem
        cases hinner : (w.store s).byKind[kind]? with
        | none => simp [hinner] at hmem
        | some inner =>
          rw [hinner, Option.getD_some] at hmem
          exact ⟨kind, inner, hinner, Std.TreeMap.mem_iff_isSome_getElem?.mpr (by simp [hmem])⟩
  calc ((w.counts s).kinds.map (·.2)).sum
    _ = ((w.store s).byKind.toList.map fun p ↦ p.2.size).sum := by
      rw [counts, List.map_map]
      rfl
    _ = (Tables.innerKeys (w.store s).byKind).length := (Tables.length_innerKeys _).symm
    _ = (w.store s).live.values.length := hperm.length_eq
    _ = (w.store s).live.size := by
      rw [Tables.values_eq_map, List.length_map, Std.TreeMap.length_toList]

/-- A coherent store is sound to its readers. -/
theorem integral_of_coherent : w.Integral s where
  uri_inj e e' he he' huri := by
    have hlive := (live_iff_isLive h e he.1 _).mpr ⟨he, rfl⟩
    have hlive' := (live_iff_isLive h e' he'.1 _).mpr ⟨he', rfl⟩
    rw [← huri, hlive, Option.some.injEq] at hlive'
    exact EntityRef.eq_of_serial (he.1.trans he'.1.symm) hlive'
  find_iff uri e := by
    rw [find?, Option.map_eq_some_iff]
    constructor
    · rintro ⟨n, hn, rfl⟩
      exact (live_iff_isLive h ⟨s, n⟩ rfl uri).mp hn
    · intro hlive
      refine ⟨e.serial, (live_iff_isLive h e hlive.1.1 uri).mpr hlive, ?_⟩
      rw [← hlive.1.1]
  mem_entities := mem_entities_of_coherent h
  nodup_entities :=
    (Tables.nodup_values _ fun uri uri' n hlive hlive' ↦ h.uri_unique hlive hlive').map
      fun _ _ heq ↦ (EntityRef.mk.inj heq).2
  mem_entitiesOf := mem_entitiesOf_of_coherent h
  sorted_entitiesOf := sorted_entitiesOf
  entities_count := by
    rw [counts, entities, List.length_map, Tables.values_eq_map, List.length_map,
      Std.TreeMap.length_toList]
  mem_kinds := mem_kinds_of_coherent h
  nodup_kinds := by
    have hkeys : (w.counts s).kinds.map (·.1) = (w.store s).byKind.keys := by
      rw [counts, List.map_map, ← Std.TreeMap.map_fst_toList_eq_keys]
      rfl
    rw [hkeys]
    exact (w.store s).byKind.nodup_keys
  sum_kinds := sum_kinds_of_coherent h
  ends_live := h.ends
  mem_targets := h.edges.lists.mem_targets
  mem_sources := h.edges.lists.mem_sources
  nodup_edges := h.edges.lists.nodup_edges
  nodup_targets := h.edges.lists.nodup_targets
  nodup_sources := h.edges.lists.nodup_sources
  edges_count := h.edges.count_eq

end Coherent

end World

end LiveGraph
