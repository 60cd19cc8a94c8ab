import LiveGraph.Store.Edit

/-!
# Looking into a changed world

What is found after a change of one thing: the thing changed, and everything else as it was.
-/

namespace LiveGraph

theorem EntityRef.eq_of_serial {e e' : EntityRef} (hstore : e.store = e'.store)
    (hserial : e.serial = e'.serial) : e = e' := by
  cases e
  cases e'
  exact (mk.injEq ..).mpr ⟨hstore, hserial⟩

/-- Callbacks, each under a number of its own that was issued. -/
structure Watchers.Numbered (ws : Watchers) : Prop where
  nodup : (ws.entries.map (·.1)).Nodup
  le_issued : ∀ e ∈ ws.entries, e.1 ≤ ws.issued

namespace Watchers.Numbered

variable {ws : Watchers}

theorem empty : Watchers.empty.Numbered :=
  ⟨List.nodup_nil, fun _ h ↦ absurd h List.not_mem_nil⟩

theorem add (h : ws.Numbered) (callback : Callback) : (ws.add callback).Numbered := by
  constructor
  · rw [Watchers.add, List.map_append]
    refine List.nodup_append.mpr ⟨h.nodup, List.pairwise_singleton _ _, fun i hi j hj ↦ ?_⟩
    obtain ⟨e, he, rfl⟩ := List.mem_map.mp hi
    have hle := h.le_issued e he
    have hnew : j = ws.issued + 1 := List.mem_singleton.mp hj
    omega
  · intro e he
    rcases List.mem_append.mp he with he | he
    · exact Nat.le_succ_of_le (h.le_issued e he)
    · rw [List.mem_singleton.mp he]
      exact Nat.le_refl _

theorem remove (h : ws.Numbered) (id : Nat) : (ws.remove id).Numbered where
  nodup := h.nodup.sublist (List.filter_sublist.map _)
  le_issued e he := h.le_issued e (List.mem_filter.mp he).1

end Watchers.Numbered

theorem Listeners.get_modify (ls : Listeners) (event event' : StoreEvent) (f : Watchers → Watchers) :
    (ls.modify event f).get event' = if event = event' then f (ls.get event') else ls.get event' := by
  cases event <;> cases event' <;> rfl

namespace World

variable (w : World)

theorem getD_modify {α : Type} (xs : Array α) (x : α) (i : Nat) (f : α → α) (j : Nat) :
    (xs.modify i f).getD j x = if i = j ∧ j < xs.size then f (xs.getD j x) else xs.getD j x := by
  simp only [Array.getD_eq_getD_getElem?, Array.getElem?_modify]
  by_cases hij : i = j
  · by_cases hlt : j < xs.size <;> simp [hij, hlt]
  · simp [hij]

theorem signal_modifySignal (id : SignalId) (f : Signal → Signal) (id' : SignalId) :
    (w.modifySignal id f).signal id' =
      if id = id' ∧ id' < w.signals.size then f (w.signal id') else w.signal id' :=
  getD_modify ..

theorem derived_modifyDerived (id : DerivedId) (f : Derived → Derived) (id' : DerivedId) :
    (w.modifyDerived id f).derived id' =
      if id = id' ∧ id' < w.deriveds.size then f (w.derived id') else w.derived id' :=
  getD_modify ..

theorem store_modifyStore (id : StoreId) (f : Store → Store) (id' : StoreId) :
    (w.modifyStore id f).store id' =
      if id = id' ∧ id' < w.stores.size then f (w.store id') else w.store id' :=
  getD_modify ..

theorem store_modifyStore_self {id : StoreId} (h : id < w.stores.size) (f : Store → Store) :
    (w.modifyStore id f).store id = f (w.store id) := by
  rw [store_modifyStore, if_pos ⟨rfl, h⟩]

/-- A part of all stores that a change leaves as it is. -/
theorem part_modifyStore {α : Type} {f : Store → Store} (part : Store → α)
    (hf : ∀ s, part (f s) = part s) (id id' : StoreId) :
    part ((w.modifyStore id f).store id') = part (w.store id') := by
  rw [store_modifyStore]
  split
  · exact hf _
  · rfl

/-- Who listens to a store after a change of who listens to one event. -/
theorem listeners_modifyWatchers {id : StoreId} (h : id < w.stores.size) (event event' : StoreEvent)
    (f : Watchers → Watchers) : ((w.modifyWatchers (.store id event) f).store id).listeners.get event' =
      if event = event' then f ((w.store id).listeners.get event') else (w.store id).listeners.get event' := by
  change ((w.modifyStore id fun s ↦ { s with listeners := s.listeners.modify event f }).store id).listeners.get event' = _
  rw [w.store_modifyStore_self h, Listeners.get_modify]

theorem view_modifyView (id : ViewId) (f : View → View) (id' : ViewId) :
    (w.modifyView id f).view id' =
      if id = id' ∧ id' < w.views.size then f (w.view id') else w.view id' :=
  getD_modify ..

theorem state_modifyState (id : StateId) (f : State → State) (id' : StateId) :
    (w.modifyState id f).state id' =
      if id = id' ∧ id' < w.states.size then f (w.state id') else w.state id' :=
  getD_modify ..

/-- A part of all debug states that a change leaves as it is. -/
theorem part_modifyState {α : Type} {f : State → State} (part : State → α)
    (hf : ∀ s, part (f s) = part s) (id id' : StateId) :
    part ((w.modifyState id f).state id') = part (w.state id') := by
  rw [state_modifyState]
  split
  · exact hf _
  · rfl

theorem signal_addSignal (value : Value) (equality : Equality) (owner : Owner) (id : SignalId) :
    (w.addSignal value equality owner).2.signal id =
      if id = w.signals.size then ⟨value, equality, owner, .empty, [], false, false⟩
      else w.signal id := by
  simp only [signal, addSignal, Array.getD_eq_getD_getElem?, Array.getElem?_push]
  split <;> rfl

theorem signal_of_size_le {id : SignalId} (h : w.signals.size ≤ id) : w.signal id = default := by
  simp [signal, h]

theorem derived_of_size_le {id : DerivedId} (h : w.deriveds.size ≤ id) : w.derived id = default := by
  simp [derived, h]

@[simp] theorem size_modifySignal (id : SignalId) (f : Signal → Signal) :
    (w.modifySignal id f).signals.size = w.signals.size := Array.size_modify

@[simp] theorem size_modifyDerived (id : DerivedId) (f : Derived → Derived) :
    (w.modifyDerived id f).deriveds.size = w.deriveds.size := Array.size_modify

@[simp] theorem size_modifyStore (id : StoreId) (f : Store → Store) :
    (w.modifyStore id f).stores.size = w.stores.size := Array.size_modify

@[simp] theorem size_modifyView (id : ViewId) (f : View → View) :
    (w.modifyView id f).views.size = w.views.size := Array.size_modify

@[simp] theorem size_modifyState (id : StateId) (f : State → State) :
    (w.modifyState id f).states.size = w.states.size := Array.size_modify

@[simp] theorem size_addSignal (value : Value) (equality : Equality) (owner : Owner) :
    (w.addSignal value equality owner).2.signals.size = w.signals.size + 1 := Array.size_push ..

end World

end LiveGraph
