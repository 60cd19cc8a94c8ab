import LiveGraph.Proofs.Graph.Edges
import LiveGraph.Proofs.Index.Calls
import LiveGraph.Proofs.Store.Coherence
import LiveGraph.Proofs.Store.Stages
import LiveGraph.Proofs.Store.Update
import LiveGraph.Snapshot.Capture

/-!
# What a store holds

The entities of a store by age and its edges are a snapshot. Where nobody hears of what is added, adding an edge
comes to an end, and does to that snapshot what it does to the store.
-/

namespace LiveGraph

namespace World

variable {w w' : World} {s : StoreId}

/-- What a store holds, as a snapshot. -/
def contents (w : World) (s : StoreId) : Snapshot :=
  ⟨(w.byAge s).map w.specOf, (w.store s).edges.edges, []⟩

theorem capture_false (w : World) (id : StateId) : w.capture id false = w.contents (w.state id).store := rfl

theorem mem_byAge (h : (w.store s).Coherent) {e : EntityRef} : e ∈ w.byAge s ↔ e.store = s ∧ w.isCurrent e := by
  rw [byAge, List.mem_filter, List.mem_map]
  constructor
  · rintro ⟨⟨n, -, rfl⟩, hcurrent⟩
    exact ⟨rfl, hcurrent⟩
  · rintro ⟨rfl, hcurrent⟩
    have hlive : (w.store e.store).live[w.uriOf e]? = some e.serial := of_decide_eq_true hcurrent
    have hle := Nat.lt_add_of_pos_right (n := (w.store e.store).incarnations.size) Nat.one_pos
    refine ⟨⟨e.serial, List.mem_range'_1.mpr ⟨h.pos hlive, ?_⟩, rfl⟩, hcurrent⟩
    rw [Nat.add_comm]
    exact Nat.lt_of_le_of_lt (h.le_size hlive) hle

theorem sorted_byAge (w : World) (s : StoreId) : (w.byAge s).Pairwise fun a b ↦ a.serial < b.serial :=
  List.Pairwise.filter _ (List.pairwise_map.mpr List.pairwise_lt_range')

/-- The entities by age are told by which of them can be found. -/
theorem byAge_eq_filter (h : (w.store s).Coherent) (h' : (w'.store s).Coherent) (p : EntityRef → Bool)
    (hp : ∀ e : EntityRef, e.store = s → (w'.isCurrent e ↔ w.isCurrent e ∧ p e)) :
    w'.byAge s = (w.byAge s).filter p := by
  have : Std.Antisymm fun a b : EntityRef ↦ a.serial < b.serial :=
    ⟨fun a b hab hba ↦ absurd hab (Nat.lt_asymm hba)⟩
  have : Std.Irrefl fun a b : EntityRef ↦ a.serial < b.serial := ⟨fun a ↦ Nat.lt_irrefl _⟩
  refine (w'.sorted_byAge s).eq_of_mem_iff ((w.sorted_byAge s).filter p) fun e ↦ ?_
  rw [mem_byAge h', List.mem_filter, mem_byAge h, and_assoc]
  exact and_congr_right (hp e)

theorem byAge_congr (h : (w.store s).Coherent) (h' : (w'.store s).Coherent)
    (hcurrent : ∀ e : EntityRef, e.store = s → (w'.isCurrent e ↔ w.isCurrent e)) : w'.byAge s = w.byAge s := by
  rw [byAge_eq_filter h h' (fun _ ↦ true) fun e he ↦ (hcurrent e he).trans (and_iff_left rfl).symm]
  exact List.filter_true _

theorem uris_contents (w : World) (s : StoreId) :
    (w.contents s).entities.map (·.uri) = (w.byAge s).map w.uriOf := by
  rw [contents, List.map_map]
  rfl

theorem holds_contents (h : (w.store s).Coherent) (uri : Uri) : (w.contents s).holds uri = w.contains s uri := by
  rw [Bool.eq_iff_iff, Snapshot.holds, decide_eq_true_iff, uris_contents, List.mem_map, contains,
    Std.TreeMap.contains_eq_isSome_getElem?, Option.isSome_iff_exists]
  constructor
  · rintro ⟨e, he, rfl⟩
    obtain ⟨rfl, hcurrent⟩ := (mem_byAge h).mp he
    exact ⟨e.serial, of_decide_eq_true hcurrent⟩
  · rintro ⟨n, hn⟩
    have huri : w.uriOf ⟨s, n⟩ = uri := h.uri_eq hn
    refine ⟨⟨s, n⟩, (mem_byAge h).mpr ⟨rfl, decide_eq_true ?_⟩, huri⟩
    rw [huri]
    exact hn

theorem joins_contents (h : (w.store s).Coherent) (edge : Edge) :
    (w.contents s).joins edge = (w.contains s edge.source && w.contains s edge.target) := by
  rw [Snapshot.joins, holds_contents h, holds_contents h]

/-- The record of an entity is told by the entity and what its properties hold. -/
theorem specOf_congr {e : EntityRef} (hentity : w'.entity e = w.entity e)
    (hvalue : ∀ prop id, (w.entity e).props.get? prop = some id → w'.valueOf id = w.valueOf id) :
    w'.specOf e = w.specOf e := by
  have hproperties : w'.properties e = w.properties e := by
    rw [properties, hentity, properties]
    refine List.map_congr_left fun p hp ↦ Prod.ext rfl ?_
    exact hvalue p.1 p.2 (Std.TreeMap.mem_toList_iff_getElem?_eq_some.mp hp)
  rw [specOf, hproperties, uriOf, kindOf, hentity]
  rfl

theorem pairwise_properties (w : World) (e : EntityRef) :
    (w.properties e).Pairwise fun p q ↦ byName p q = .lt :=
  List.pairwise_map.mpr (w.entity e).props.ordered_keys_toList

theorem nodup_properties (w : World) (e : EntityRef) : ((w.properties e).map Prod.fst).Nodup :=
  List.pairwise_map.mpr ((w.pairwise_properties e).imp ne_of_byName_lt)

theorem mem_properties (w : World) (e : EntityRef) (p : String × Value) :
    p ∈ w.properties e ↔ w.property? e p.1 = some p.2 := by
  rw [properties, List.mem_map, property?, Option.map_eq_some_iff]
  constructor
  · rintro ⟨⟨name, id⟩, hmem, rfl⟩
    exact ⟨id, Std.TreeMap.mem_toList_iff_getElem?_eq_some.mp hmem, rfl⟩
  · rintro ⟨id, hid, hvalue⟩
    exact ⟨(p.1, id), Std.TreeMap.mem_toList_iff_getElem?_eq_some.mpr hid, Prod.ext rfl hvalue⟩

/-- What is told of an entity is told under each name. -/
theorem find?_specOf (w : World) (e : EntityRef) (name : String) :
    (w.specOf e).props.find? (·.1 = name) = (w.property? e name).map (name, ·) := by
  refine Option.ext fun p ↦ (find?_key_eq_some (w.nodup_properties e)).trans ?_
  rw [w.mem_properties e p, Option.map_eq_some_iff]
  constructor
  · rintro ⟨hvalue, rfl⟩
    exact ⟨p.2, hvalue, rfl⟩
  · rintro ⟨v, hvalue, rfl⟩
    exact ⟨hvalue, rfl⟩

end World

/-- A store that can be added to, and nobody hears of it: nobody listens for what is added, and nothing was
computed from it. -/
structure Stocked (s : StoreId) (w : World) : Prop where
  lt_size : s < w.stores.size
  coherent : (w.store s).Coherent
  clocks_eq : (w.store s).clocks = ∅
  added_eq : (w.store s).listeners.added.entries = []
  edgeAdded_eq : (w.store s).listeners.edgeAdded.entries = []
  lt_signals : ∀ e, e.store = s → w.isCurrent e → ∀ prop id, (w.entity e).props.get? prop = some id →
    id < w.signals.size

/-- A store whose indices are right, and whose entities can be written to: the signal that counts the properties
of each is its own. -/
structure Editable (own : String → Prop) (δ : Definitions) (β : Background) (w : World) : Prop where
  indexed : Indexed own δ β (.whole ∅) w
  writable : ∀ e : EntityRef, e.store = 0 → w.isCurrent e →
    w.Writable e ∧ (w.signal (w.entity e).shape).owner = .entity e

theorem World.Writable.congr {w w' : World} {e : EntityRef} (h : w.Writable e) (hentity : w'.entity e = w.entity e)
    (hsize : w.signals.size ≤ w'.signals.size)
    (hsignal : ∀ prop id, (w.entity e).props.get? prop = some id →
      (w'.signal id).disposed = (w.signal id).disposed ∧ (w'.signal id).equality = (w.signal id).equality) :
    w'.Writable e := by
  refine ⟨?_, ?_, ?_, ?_⟩ <;> rw [hentity]
  · exact h.live
  · exact ⟨fun name id hid ↦ Nat.lt_of_lt_of_le (h.separate.lt_size name id hid) hsize,
      fun name id hid ↦ (hsignal name id hid).1.trans (h.separate.undisposed name id hid),
      fun name id hid ↦ (hsignal name id hid).2.trans (h.separate.equality_eq name id hid), h.separate.injective⟩
  · exact Nat.lt_of_lt_of_le h.shape_lt hsize
  · exact h.shape_ne

/-- What leaves the entities that can be found, and the signals that are theirs, leaves them so. -/
theorem Editable.unmoved {own : String → Prop} {δ : Definitions} {β β' : Background} {w w' : World}
    (h : Editable own δ β w) (hindexed : Indexed own δ β' (.whole ∅) w') (hsize : w.signals.size ≤ w'.signals.size)
    (hkept : ∀ e : EntityRef, e.store = 0 → w'.isCurrent e → w.isCurrent e ∧ w'.entity e = w.entity e ∧
      ∀ j, (w.signal j).owner = .entity e → (w'.signal j).disposed = (w.signal j).disposed ∧
        (w'.signal j).equality = (w.signal j).equality ∧ (w'.signal j).owner = (w.signal j).owner) :
    Editable own δ β' w' := by
  refine ⟨hindexed, fun e he hcurrent' ↦ ?_⟩
  obtain ⟨hcurrent, hentity, hsignal⟩ := hkept e he hcurrent'
  obtain ⟨hwritable, howner⟩ := h.writable e he hcurrent
  refine ⟨hwritable.congr hentity hsize fun prop id hid ↦ ?_, ?_⟩
  · have howned := (h.indexed.tied.property e prop id ⟨h.indexed.isLive he hcurrent, hid⟩).owner_eq
    exact ⟨(hsignal id howned).1, (hsignal id howned).2.1⟩
  · rw [hentity]
    exact (hsignal _ howner).2.2.trans howner

theorem Editable.context {own : String → Prop} {δ : Definitions} {β : Background} {w : World}
    (h : Editable own δ β w) (d : Nat) (f : Bool) (frames : List Frame) (pins : List Pin) :
    Editable own δ β { w with depth := d, flushing := f, frames := frames, pins := pins } :=
  h.unmoved (h.indexed.context d f frames pins) (Nat.le_refl _) fun _ _ hcurrent ↦
    ⟨hcurrent, rfl, fun _ _ ↦ ⟨rfl, rfl, rfl⟩⟩

theorem Editable.setDepth {own : String → Prop} {δ : Definitions} {β : Background} {w : World}
    (h : Editable own δ β w) (d : Nat) : Editable own δ β (w.setDepth d) :=
  h.context d w.flushing w.frames w.pins

/-- A world in which a store was added to: what was there is there still, and nothing waits because of it. -/
structure Grown (s : StoreId) (w w' : World) : Prop extends w.Quiet w' where
  session_eq : w'.session = w.session
  states_eq : w'.states = w.states
  signals_le : w.signals.size ≤ w'.signals.size
  signal_eq : ∀ j < w.signals.size, w'.signal j = w.signal j
  listeners_eq : (w'.store s).listeners = (w.store s).listeners
  kept : ∀ e, e.store = s → w.isCurrent e → w'.isCurrent e ∧ w'.specOf e = w.specOf e
  editable : s = 0 → ∀ own δ β, Editable own δ β w → Editable own δ β w'

namespace Grown

variable {s : StoreId} {w w' w'' : World}

theorem refl (s : StoreId) (w : World) : Grown s w w :=
  ⟨.refl w, rfl, rfl, Nat.le_refl _, fun _ _ ↦ rfl, rfl, fun _ _ hcurrent ↦ ⟨hcurrent, rfl⟩, fun _ _ _ _ h ↦ h⟩

theorem trans (h : Grown s w w') (h' : Grown s w' w'') : Grown s w w'' where
  toQuiet := h.toQuiet.trans h'.toQuiet
  session_eq := h'.session_eq.trans h.session_eq
  states_eq := h'.states_eq.trans h.states_eq
  signals_le := Nat.le_trans h.signals_le h'.signals_le
  signal_eq j hj := (h'.signal_eq j (Nat.lt_of_lt_of_le hj h.signals_le)).trans (h.signal_eq j hj)
  listeners_eq := h'.listeners_eq.trans h.listeners_eq
  kept e he hcurrent := by
    obtain ⟨hcurrent', hspec⟩ := h.kept e he hcurrent
    obtain ⟨hcurrent'', hspec'⟩ := h'.kept e he hcurrent'
    exact ⟨hcurrent'', hspec'.trans hspec⟩
  editable hs own δ β hw := h'.editable hs own δ β (h.editable hs own δ β hw)

theorem setDepth {d : Nat} (h : Grown s (w.setDepth d) w') : Grown s w (w'.setDepth w.depth) :=
  ⟨⟨rfl, h.flushing_eq, h.queue_eq, h.effects_eq⟩, h.session_eq, h.states_eq, h.signals_le, h.signal_eq,
    h.listeners_eq, h.kept, fun hs own δ β hw ↦ (h.editable hs own δ β (hw.setDepth d)).setDepth w.depth⟩

end Grown

namespace Act

variable [Dispatch] {w : World} {s : StoreId}

/-- Where nobody waits for what a batch does, the batch is its act. -/
theorem ends_batch_quiet {α : Type} {a : Act α} {Q : α → World → Prop} (hcalm : w.Busy ∨ w.Idle)
    (hrounds : 0 < Dispatch.rounds) (hbody : a.Ends (w.setDepth (w.depth + 1)) fun x w' ↦
      (w.setDepth (w.depth + 1)).Quiet w' ∧ Q x (w'.setDepth w.depth)) : (batch a).Ends w Q := by
  refine hbody.batch fun x w' hdone ↦ ?_
  obtain ⟨hquiet, hQ⟩ := hdone
  have hback : w'.setDepth (w'.depth - 1) = w'.setDepth w.depth := by
    rw [hquiet.depth_eq, World.depth_setDepth, Nat.add_sub_cancel]
  rw [hback]
  refine ⟨(), _, ?_, hQ⟩
  rcases hcalm with hbusy | hidle
  · exact flushOutside_busy (hbusy.imp id fun hflushing ↦ hquiet.flushing_eq.trans hflushing)
  · refine flushOutside_idle (fun hdepth hflushing ↦ ?_) hrounds
    obtain ⟨hqueue, heffects⟩ := hidle hdepth (hquiet.flushing_eq.symm.trans hflushing)
    exact ⟨hquiet.queue_eq.trans hqueue, hquiet.effects_eq.trans heffects⟩

/-- Nobody is told of a change of what nothing was computed from. -/
theorem bumpAll_run (h : (w.store s).clocks = ∅) (keys : List ClockKey) : Store.bumpAll s keys w = .ok () w := by
  induction keys with
  | nil => rfl
  | cons key rest ih =>
    have hnone : (w.store s).clocks.get? key = none := by
      rw [h]
      rfl
    have hbump : Store.bump s key w = .ok () w := by
      simp only [Store.bump, bind_run, get_run, hnone, pure_run]
    simp only [Store.bumpAll, bind_run, hbump, ih]

theorem notify_run (channel : Channel) (h : (w.watchers channel).entries = []) (event : Event) :
    notify channel event w = .ok () w := by
  simp only [notify, bind_run, get_run, h, notifyEach, pure_run]

end Act

namespace Stocked

variable {s : StoreId} {w : World}

theorem setDepth (h : Stocked s w) (d : Nat) : Stocked s (w.setDepth d) :=
  ⟨h.lt_size, h.coherent, h.clocks_eq, h.added_eq, h.edgeAdded_eq, h.lt_signals⟩

section Edges

variable {edge : Edge} {edges : Adjacency}

/-- One more edge changes no entity. -/
theorem entity_edges (h : Stocked s w) (edges : Adjacency) {e : EntityRef} (he : e.store = s) :
    (w.modifyStore s fun s ↦ { s with edges := edges }).entity e = w.entity e ∧
      (w.modifyStore s fun s ↦ { s with edges := edges }).isCurrent e = w.isCurrent e := by
  have hstore := w.store_modifyStore_self h.lt_size fun s ↦ { s with edges := edges }
  have hentity : (w.modifyStore s fun s ↦ { s with edges := edges }).entity e = w.entity e := by
    rw [World.entity, he, hstore, World.entity, he]
    rfl
  refine ⟨hentity, ?_⟩
  rw [World.isCurrent, World.uriOf, hentity, he, hstore, World.isCurrent, World.uriOf, he]

theorem kept_edges (h : Stocked s w) (edges : Adjacency) {e : EntityRef} (he : e.store = s) (hcurrent : w.isCurrent e) :
    (w.modifyStore s fun s ↦ { s with edges := edges }).isCurrent e ∧
      (w.modifyStore s fun s ↦ { s with edges := edges }).specOf e = w.specOf e := by
  obtain ⟨hentity, hsame⟩ := h.entity_edges edges he
  exact ⟨hsame.symm ▸ hcurrent, World.specOf_congr hentity fun _ _ _ ↦ rfl⟩

theorem grown_edges (h : Stocked s w) (hjoins : (w.contents s).joins edge)
    (hinsert : (w.store s).edges.insert? edge false = some edges) :
    Grown s w (w.modifyStore s fun s ↦ { s with edges := edges }) := by
  rw [World.joins_contents h.coherent, Bool.and_eq_true_iff] at hjoins
  refine ⟨⟨rfl, rfl, rfl, rfl⟩, rfl, rfl, Nat.le_refl _, fun _ _ ↦ rfl, ?_, fun e he hcurrent ↦
    h.kept_edges edges he hcurrent, fun hs own δ β hw ↦ hw.unmoved ?_ (Nat.le_refl _) fun e he hcurrent ↦ ?_⟩
  · rw [w.store_modifyStore_self h.lt_size]
  · subst hs
    exact hw.indexed.modifyStore (fun _ ↦ rfl) (fun _ ↦ rfl) (fun _ ↦ rfl) id
      (OnGround.link hw.indexed.ground hjoins.1 hjoins.2 hinsert)
  · obtain ⟨hentity, hsame⟩ := h.entity_edges edges (he.trans hs.symm)
    exact ⟨hsame ▸ hcurrent, hentity, fun _ _ ↦ ⟨rfl, rfl, rfl⟩⟩

theorem contents_edges (h : Stocked s w) (edges : Adjacency) :
    (w.modifyStore s fun s ↦ { s with edges := edges }).contents s =
      { w.contents s with edges := edges.edges } := by
  have hstore := w.store_modifyStore_self h.lt_size fun s ↦ { s with edges := edges }
  have hcurrent : ∀ n, (w.modifyStore s fun s ↦ { s with edges := edges }).isCurrent ⟨s, n⟩ = w.isCurrent ⟨s, n⟩ :=
    fun n ↦ by
      rw [World.isCurrent, World.uriOf, World.entity]
      simp only [hstore]
      rfl
  have hbyAge : (w.modifyStore s fun s ↦ { s with edges := edges }).byAge s = w.byAge s := by
    rw [World.byAge, hstore]
    refine List.filter_congr fun e he ↦ ?_
    obtain ⟨n, -, rfl⟩ := List.mem_map.mp he
    exact hcurrent n
  rw [World.contents, hbyAge, hstore]
  refine congrArg (fun entities ↦ (⟨entities, edges.edges, []⟩ : Snapshot)) (List.map_congr_left fun e he ↦ ?_)
  obtain ⟨hs, hcurrent⟩ := (World.mem_byAge h.coherent).mp he
  exact (h.kept_edges edges hs hcurrent).2

theorem link (h : Stocked s w) (hjoins : (w.contents s).joins edge)
    (hinsert : (w.store s).edges.insert? edge false = some edges) :
    Stocked s (w.modifyStore s fun s ↦ { s with edges := edges }) := by
  have hstore := w.store_modifyStore_self h.lt_size fun s ↦ { s with edges := edges }
  rw [World.joins_contents h.coherent, Bool.and_eq_true_iff] at hjoins
  refine ⟨Nat.lt_of_lt_of_eq h.lt_size (w.size_modifyStore s _).symm, ?_, ?_, ?_, ?_, fun e he hcurrent ↦ ?_⟩
  · rw [hstore]
    exact h.coherent.link hjoins.1 hjoins.2 hinsert
  · rw [hstore]
    exact h.clocks_eq
  · rw [hstore]
    exact h.added_eq
  · rw [hstore]
    exact h.edgeAdded_eq
  · obtain ⟨hentity, hsame⟩ := h.entity_edges edges he
    rw [hentity]
    exact h.lt_signals e he (hsame ▸ hcurrent)

end Edges

/-- To link two entities comes to an end; an edge without one of its ends, or that is there, is passed over. -/
theorem ends_link [Dispatch] (h : Stocked s w) (hdepth : 0 < w.depth) (hrounds : 0 < Dispatch.rounds)
    (edge : Edge) : (Store.link s edge false).Ends w fun _ w' ↦ Grown s w w' ∧ Stocked s w' ∧
      w'.contents s = (w.contents s).withEdge edge := by
  let w₁ := w.setDepth (w.depth + 1)
  have h₁ : Stocked s w₁ := h.setDepth _
  have hmem : (w.store s).edges.contains edge = true ↔ edge ∈ (w.contents s).edges :=
    h.coherent.edges.contains_iff
  have hjoins : (w.contents s).joins edge = (w₁.contains s edge.source && w₁.contains s edge.target) :=
    World.joins_contents h.coherent edge
  refine Act.ends_batch_quiet (.inl (.inl hdepth)) hrounds (Act.ends_get ?_)
  cases hends : (w.contents s).joins edge with
  | false =>
    have hmissing : (!w₁.contains s edge.source || !w₁.contains s edge.target) = true := by
      rw [← Bool.not_and, ← hjoins, hends]
      rfl
    have hsame : (w.contents s).withEdge edge = w.contents s := if_neg fun hnew ↦ by
      rw [hends] at hnew
      exact Bool.false_ne_true hnew.1
    rw [if_pos hmissing]
    exact Act.ends_pure ⟨.refl _, .refl s w, h, hsame.symm⟩
  | true =>
    have hthere : ¬(!w₁.contains s edge.source || !w₁.contains s edge.target) = true := by
      rw [← Bool.not_and, ← hjoins, hends]
      exact Bool.false_ne_true
    rw [if_neg hthere]
    cases hinsert : (w₁.store s).edges.insert? edge false with
    | none =>
      have hold : (w.store s).edges.contains edge = true := by
        by_contra hnew
        exact Option.some_ne_none _ ((if_neg hnew).symm.trans hinsert)
      have hsame : (w.contents s).withEdge edge = w.contents s := if_neg fun hnew ↦ hnew.2 (hmem.mp hold)
      exact Act.ends_pure ⟨.refl _, .refl s w, h, hsame.symm⟩
    | some edges =>
      have hnew : ¬(w.store s).edges.contains edge = true := (Option.ite_none_left_eq_some.mp hinsert).1
      have hgrown := h₁.grown_edges hends hinsert
      have hstocked := h₁.link hends hinsert
      let w₂ := w₁.modifyStore s fun s ↦ { s with edges := edges }
      have hcontents : w₂.contents s = (w.contents s).withEdge edge := by
        rw [Snapshot.withEdge, if_pos ⟨hends, fun hold ↦ hnew (hmem.mpr hold)⟩]
        have hedges : edges.edges = Snapshot.sorted Edge.byEnd ((w.store s).edges.edges ++ [edge]) :=
          Adjacency.edges_insert? hinsert
        refine (h₁.contents_edges edges).trans ?_
        rw [hedges]
        rfl
      have hnotify := Act.notify_run (.store s .edgeAdded) hstocked.edgeAdded_eq (.edge .edgeAdded edge)
      refine Act.ends_after (Act.modify_run _ _) (Act.ends_after (Act.bumpAll_run hstocked.clocks_eq _) ?_)
      refine Act.ends_after hnotify ?_
      exact Act.ends_pure ⟨hgrown.toQuiet, hgrown.setDepth, hstocked.setDepth _, hcontents⟩

end Stocked

end LiveGraph
