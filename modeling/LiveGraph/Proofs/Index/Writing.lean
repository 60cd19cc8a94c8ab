import LiveGraph.Proofs.Index.Unheard

/-!
# Writing to a store that nobody listens to

A property that is there is written, and the store is yet to be told of it; a new one is added, and the store is told at
once. Either way the indices are right afterwards, one property of one entity reads what was written, and all others
what they read before. When the batch ends, the store is told of each property that waits, one in a round, and holds
what it held.
-/

namespace LiveGraph

open Act World

variable {own : String → Prop} {δ : Definitions} {β : Background} {w w' w'' : World} {e : EntityRef} {prop : String}
variable {v : Value} {id : SignalId}

/-- A change that has to do with nothing but the entities of a store. -/
structure Confined (w w' : World) : Prop where
  session_eq : w'.session = w.session
  states_eq : w'.states = w.states
  depth_eq : w'.depth = w.depth
  flushing_eq : w'.flushing = w.flushing
  signals_le : w.signals.size ≤ w'.signals.size
  signal_eq : ∀ j < w.signals.size, (∀ e, (w.signal j).owner ≠ .entity e) → w'.signal j = w.signal j
  watchers_eq : ∀ j < w.signals.size, (w'.signal j).watchers = (w.signal j).watchers
  listeners_eq : (w'.store 0).listeners = (w.store 0).listeners
  kept : ∀ e : EntityRef, e.store = 0 → w.isCurrent e → w'.isCurrent e ∧ w'.uriOf e = w.uriOf e

namespace Confined

theorem refl (w : World) : Confined w w :=
  ⟨rfl, rfl, rfl, rfl, Nat.le_refl _, fun _ _ _ ↦ rfl, fun _ _ ↦ rfl, rfl, fun _ _ hcurrent ↦ ⟨hcurrent, rfl⟩⟩

theorem trans (h : Confined w w') (h' : Confined w' w'') : Confined w w'' where
  session_eq := h'.session_eq.trans h.session_eq
  states_eq := h'.states_eq.trans h.states_eq
  depth_eq := h'.depth_eq.trans h.depth_eq
  flushing_eq := h'.flushing_eq.trans h.flushing_eq
  signals_le := Nat.le_trans h.signals_le h'.signals_le
  signal_eq j hj howner := by
    have hsame := h.signal_eq j hj howner
    exact (h'.signal_eq j (Nat.lt_of_lt_of_le hj h.signals_le) (hsame ▸ howner)).trans hsame
  watchers_eq j hj := (h'.watchers_eq j (Nat.lt_of_lt_of_le hj h.signals_le)).trans (h.watchers_eq j hj)
  listeners_eq := h'.listeners_eq.trans h.listeners_eq
  kept e he hcurrent := by
    obtain ⟨hcurrent', huri⟩ := h.kept e he hcurrent
    obtain ⟨hcurrent'', huri'⟩ := h'.kept e he hcurrent'
    exact ⟨hcurrent'', huri'.trans huri⟩

theorem setDepth (h : Confined w w') (d : Nat) : Confined (w.setDepth d) (w'.setDepth d) :=
  { h with depth_eq := rfl }

end Confined

theorem Grown.confined (h : Grown 0 w w') : Confined w w' where
  session_eq := h.session_eq
  states_eq := h.states_eq
  depth_eq := h.depth_eq
  flushing_eq := h.flushing_eq
  signals_le := h.signals_le
  signal_eq j hj _ := h.signal_eq j hj
  watchers_eq j hj := congrArg Signal.watchers (h.signal_eq j hj)
  listeners_eq := h.listeners_eq
  kept e he hcurrent := (h.kept e he hcurrent).imp_right (congrArg EntitySpec.uri)

/-- Two worlds that differ in one property. -/
structure Retold (w w' : World) (e : EntityRef) (prop : String) (v : Value) : Prop where
  live_eq : (w'.store 0).live = (w.store 0).live
  edges_eq : (w'.store 0).edges = (w.store 0).edges
  isCurrent_eq : ∀ e' : EntityRef, e'.store = 0 → w'.isCurrent e' = w.isCurrent e'
  uri_eq : ∀ e' : EntityRef, e'.store = 0 → w.isCurrent e' → w'.uriOf e' = w.uriOf e'
  kind_eq : ∀ e' : EntityRef, e'.store = 0 → w.isCurrent e' → w'.kindOf e' = w.kindOf e'
  property?_eq : ∀ e' : EntityRef, e'.store = 0 → w.isCurrent e' → ∀ prop',
    w'.property? e' prop' = if e = e' ∧ prop = prop' then some v else w.property? e' prop'

theorem Editable.ground (h : Editable own δ β w) : Ground (fun _ ↦ False) w :=
  h.indexed.ground

/-- A property of one entity is written, and at most that is to be told of because of it. -/
structure Wrote (w w' : World) (e : EntityRef) (prop : String) (v : Value) : Prop extends
    Confined w w', Retold w w' e prop v where
  effects : w'.effects = w.effects ∨
    ∃ id, w'.effects = w.effects ++ [.signal id] ∧ (w'.signal id).watchers.entries ≠ []

/-! ## A property that is there -/

/-- A property that is there is written. -/
theorem Editable.retold_assigned (h : Editable own δ β w) (hid : w.HasProperty e prop id) :
    Retold w (w.assigned id v) e prop v := by
  have hrewritten := World.Rewritten.assigned w id v
  have hstore : ∀ s, (w.assigned id v).store s = w.store s := fun s ↦ by
    rw [World.store, hrewritten.stores_eq, World.store]
  have hcurrent := (h.ground.isCurrent_iff_isLive hid.1.1).mpr hid.1
  have hseparate := (h.writable e hid.1.1 hcurrent).1.separate
  have hvalue := w.valueOf_assigned (hseparate.lt_size prop id hid.2) (hseparate.undisposed prop id hid.2)
    (hseparate.equality_eq prop id hid.2) v
  refine ⟨by rw [hstore], by rw [hstore], fun e' _ ↦ ?_, fun e' _ _ ↦ ?_, fun e' _ _ ↦ ?_,
    fun e' he' hcurrent' prop' ↦ ?_⟩
  · rw [World.isCurrent, hstore, World.uriOf, hrewritten.entity_eq, World.isCurrent, World.uriOf]
  · rw [World.uriOf, hrewritten.entity_eq, World.uriOf]
  · rw [World.kindOf, hrewritten.entity_eq, World.kindOf]
  · rw [World.property?, hrewritten.entity_eq, World.property?]
    cases hid' : (w.entity e').props.get? prop' with
    | none =>
      rw [if_neg fun heq ↦ ?_]
      · rfl
      · rw [← heq.1, ← heq.2, hid.2] at hid'
        exact Option.some_ne_none _ hid'
    | some id' =>
      rw [Option.map_some, hvalue, apply_ite some]
      refine if_congr ⟨fun heq ↦ ?_, fun heq ↦ ?_⟩ rfl rfl
      · subst heq
        have howner := (h.indexed.tied.property e' prop' id
          ⟨h.indexed.isLive he' hcurrent', hid'⟩).owner_eq
        rw [(h.indexed.tied.property e prop id hid).owner_eq, Owner.entity.injEq] at howner
        subst howner
        exact ⟨rfl, hseparate.injective prop prop' id hid.2 hid'⟩
      · rw [← heq.1, ← heq.2, hid.2] at hid'
        exact Option.some.inj hid'

/-- A signal stays what it was but for its value, and for whether it is to be told of. -/
theorem part_assigned {α : Type} (part : Signal → α) (hpart : ∀ (s : Signal) (v : Value) (notifying : Bool),
    part { s with value := v, notifying := notifying } = part s) (w : World) (id : SignalId) (v : Value)
    (j : SignalId) : part ((w.assigned id v).signal j) = part (w.signal j) := by
  rcases w.assigned_cases id v with heq | ⟨-, heq⟩
  · rw [heq]
  · rw [heq]
    exact w.part_write id v part hpart j

theorem signal_assigned_of_ne (hplain : w.deriveds = #[]) {j : SignalId} (hne : id ≠ j) (v : Value) :
    (w.assigned id v).signal j = w.signal j := by
  rcases w.assigned_cases id v with heq | ⟨-, heq⟩
  · rw [heq]
  · rw [heq, w.write_of_noDeriveds hplain]
    let w₁ := w.modifySignal id fun s ↦ { s with value := v }
    have hsame : w₁.signal j = w.signal j := by
      rw [World.signal_modifySignal, if_neg fun hand ↦ hne hand.1]
    by_cases htold : ((w₁.signal id).watchers.isEmpty || (w₁.signal id).notifying) = true
    · rw [w₁.deferSignal_of_told htold, hsame]
    · rw [w₁.deferSignal_of_untold htold, ← hsame]
      exact (w₁.signal_modifySignal id _ j).trans (if_neg fun hand ↦ hne hand.1)

/-- At most the signal that was written is to be told of. -/
theorem effects_assigned (hplain : w.deriveds = #[]) (id : SignalId) (v : Value) :
    (w.assigned id v).effects = w.effects ∨ ∃ id', (w.assigned id v).effects = w.effects ++ [.signal id'] ∧
      ((w.assigned id v).signal id').watchers.entries ≠ [] := by
  rcases w.assigned_cases id v with heq | ⟨-, heq⟩
  · exact .inl (by rw [heq])
  · rw [heq, w.write_of_noDeriveds hplain]
    let w₁ := w.modifySignal id fun s ↦ { s with value := v }
    by_cases htold : ((w₁.signal id).watchers.isEmpty || (w₁.signal id).notifying) = true
    · exact .inl (by rw [w₁.deferSignal_of_told htold]; rfl)
    · have hentries : (w₁.signal id).watchers.entries ≠ [] := fun hnone ↦ htold (by simp [Watchers.isEmpty, hnone])
      have hwatchers : ((w₁.modifySignal id fun s ↦ { s with notifying := true }).signal id).watchers =
          (w₁.signal id).watchers := w₁.part_modifySignal (·.watchers) (by intro; rfl) id id
      rw [w₁.deferSignal_of_untold htold]
      exact .inr ⟨id, rfl, (congrArg Watchers.entries hwatchers).symm ▸ hentries⟩

theorem Editable.assigned (h : Editable own δ β w) (id : SignalId) (v : Value) :
    Editable own δ β (w.assigned id v) := by
  have hrewritten := World.Rewritten.assigned w id v
  have hindexed : Indexed own δ β (.whole ∅) (w.assigned id v) := by
    rcases w.assigned_cases id v with heq | ⟨-, heq⟩
    · exact heq.symm ▸ h.indexed
    · exact heq.symm ▸ h.indexed.write id v
  have hpart {α : Type} (part : Signal → α) (hpart : ∀ (s : Signal) (v : Value) (notifying : Bool),
      part { s with value := v, notifying := notifying } = part s) := part_assigned part hpart w id v
  refine h.unmoved hindexed (Nat.le_of_eq (w.size_assigned id v).symm) fun e _ hcurrent ↦ ⟨?_,
    hrewritten.entity_eq e, fun j _ ↦ ⟨hpart (·.disposed) (fun _ _ _ ↦ rfl) j, hpart (·.equality) (fun _ _ _ ↦ rfl) j,
      hpart (·.owner) (fun _ _ _ ↦ rfl) j⟩⟩
  rwa [World.isCurrent, World.store, hrewritten.stores_eq, World.uriOf, hrewritten.entity_eq] at hcurrent

theorem Editable.wrote_assigned (h : Editable own δ β w) (hid : w.HasProperty e prop id) (v : Value) :
    Wrote w (w.assigned id v) e prop v := by
  have hrewritten := World.Rewritten.assigned w id v
  have hretold : Retold w (w.assigned id v) e prop v := h.retold_assigned hid
  refine ⟨⟨hrewritten.session_eq, hrewritten.states_eq, hrewritten.depth_eq, hrewritten.flushing_eq,
    Nat.le_of_eq (w.size_assigned id v).symm, fun j _ howner ↦ ?_, fun j _ ↦ ?_, ?_, fun e' he' hcurrent' ↦
      ⟨hretold.isCurrent_eq e' he' ▸ hcurrent', hretold.uri_eq e' he' hcurrent'⟩⟩, hretold,
    effects_assigned h.indexed.plain.noDeriveds id v⟩
  · refine signal_assigned_of_ne h.indexed.plain.noDeriveds (fun heq ↦ howner e ?_) v
    rw [← heq]
    exact (h.indexed.tied.property e prop id hid).owner_eq
  · exact part_assigned Signal.watchers (fun _ _ _ ↦ rfl) w id v j
  · rw [World.store, hrewritten.stores_eq, World.store]

/-! ## A new property -/

theorem size_withNewProperty (w : World) (e : EntityRef) (prop : String) (v : Value) :
    w.signals.size ≤ (w.withNewProperty e prop v).signals.size := by
  have hadded := World.size_addProperty (w := w) e prop v
  have hcounted : (w.withNewProperty e prop v).signals.size = (w.addProperty e prop v).2.signals.size :=
    World.size_assigned _ _ _
  rw [hcounted, hadded]
  exact Nat.le_succ _

section New

variable (h : Editable own δ β w) (he : e.store = 0) (hcurrent : w.isCurrent e)
  (hnone : (w.entity e).props.get? prop = none)
include h he hcurrent hnone

/-- Of a new property the store is not told yet. -/
theorem Editable.indexed_new (v : Value) : let w' := w.withNewProperty e prop v
    Indexed own δ β (.whole {e}) w' ∧
      ∃ value, w' = (w.addProperty e prop v).2 ∨
        w' = (w.addProperty e prop v).2.modifySignal (w.entity e).shape fun s ↦ { s with value := value } := by
  intro w'
  have hindexed := h.indexed
  obtain ⟨hpos, -, -, hlive⟩ := (h.ground.isCurrent_iff he).mp hcurrent
  have hadded : Indexed own δ β (.whole {e}) (w.addProperty e prop v).2 :=
    hindexed.addProperty he hpos hlive hnone
  obtain ⟨hlt, hunwatched⟩ := hindexed.tied.shape e (hindexed.isLive he hcurrent)
  have hshape : ((w.addProperty e prop v).2.signal (w.entity e).shape).watchers.entries = [] := by
    rw [World.signal_addProperty, if_neg (Nat.ne_of_lt hlt)]
    exact hunwatched
  exact ⟨hadded.counted (.signal (w.entity e).shape),
    World.advanced_of_unwatched _ hadded.plain.noDeriveds hshape⟩

/-- Signals that were there before are as they were, but for what counts the properties. -/
theorem Editable.signal_new (v : Value) {j : SignalId} (hj : j < w.signals.size) :
    (j ≠ (w.entity e).shape → (w.withNewProperty e prop v).signal j = w.signal j) ∧
      { (w.withNewProperty e prop v).signal j with value := .nil } = { w.signal j with value := .nil } := by
  have hadded : (w.addProperty e prop v).2.signal j = w.signal j := by
    rw [World.signal_addProperty, if_neg (Nat.ne_of_lt hj)]
  obtain ⟨-, value, heq | heq⟩ := h.indexed_new he hcurrent hnone v
  · rw [heq, hadded]
    exact ⟨fun _ ↦ rfl, rfl⟩
  · rw [heq, World.signal_modifySignal, hadded]
    refine ⟨fun hne ↦ if_neg fun hand ↦ hne hand.1.symm, ?_⟩
    split <;> rfl

omit hnone in
theorem Editable.entity_new (v : Value) {e' : EntityRef} (he' : w.IsLive 0 e') :
    (w.withNewProperty e prop v).entity e' =
      if e = e' then { w.entity e' with props := (w.entity e').props.insert prop w.signals.size } else w.entity e' := by
  have hadded : (w.addProperty e prop v).2.entity e' = _ :=
    World.entity_addProperty (h.ground.stores_size ▸ Nat.one_pos) (h.indexed.isLive he hcurrent) he'
  rw [← hadded]
  exact (World.Rewritten.assigned _ _ _).entity_eq e'

/-- What counts the properties of an entity is watched by nobody, so it is no property itself, and to count does not
change what a property reads. -/
theorem Editable.valueOf_new (v : Value) {e' : EntityRef} {prop' : String} {id : SignalId}
    (hid : (w.withNewProperty e prop v).HasProperty e' prop' id) :
    (w.withNewProperty e prop v).valueOf id = (w.addProperty e prop v).2.valueOf id := by
  let w₁ := w.withNewProperty e prop v
  have hlive := h.indexed.isLive he hcurrent
  obtain ⟨hpos, -⟩ := (h.ground.isCurrent_iff he).mp hcurrent
  have hsame : SameGround w w₁ := .trans (.addProperty w e prop v hpos) (.counted _ (.signal (w.entity e).shape))
  obtain ⟨hindexed, value, heq⟩ := h.indexed_new he hcurrent hnone v
  obtain ⟨n, hentries⟩ := (hindexed.tied.property e' prop' id hid).entries_eq
  have hunwatched := (hindexed.tied.shape e ((hsame.isLive_iff e).mpr hlive)).2
  have hshape : (w₁.entity e).shape = (w.entity e).shape := by
    rw [h.entity_new he hcurrent v hlive, if_pos rfl]
  have hne : (w.entity e).shape ≠ id := fun heq ↦ by
    rw [hshape, heq, hentries] at hunwatched
    exact List.cons_ne_nil _ _ hunwatched
  rcases heq with heq | heq
  · rw [heq]
  · rw [heq, World.valueOf, World.signal_modifySignal, if_neg fun hand ↦ hne hand.1, World.valueOf]

theorem Editable.retold_new (v : Value) : Retold w ((w.withNewProperty e prop v).reindex e).2 e prop v := by
  have hindexed := h.indexed
  have hlive := hindexed.isLive he hcurrent
  obtain ⟨hpos, -⟩ := (h.ground.isCurrent_iff he).mp hcurrent
  let w₁ := w.withNewProperty e prop v
  have hsame₁ : SameGround w w₁ := .trans (.addProperty w e prop v hpos) (.counted _ (.signal (w.entity e).shape))
  have hsame : SameGround w (w₁.reindex e).2 := hsame₁.trans (.reindex w₁ e)
  have hground' := h.ground.same hsame
  have hserial : ∀ e' : EntityRef, e'.store = 0 → w.isCurrent e' → 0 < e'.serial := fun e' he' hcurrent' ↦
    ((h.ground.isCurrent_iff he').mp hcurrent').1
  refine ⟨hsame.store.live_eq, hsame.store.edges_eq, fun e' he' ↦ ?_, fun e' he' hcurrent' ↦ ?_,
    fun e' he' hcurrent' ↦ ?_, fun e' he' hcurrent' prop' ↦ ?_⟩
  · rw [Bool.eq_iff_iff, hground'.isCurrent_iff_isLive he', h.ground.isCurrent_iff_isLive he', hsame.isLive_iff]
  · rw [World.uriOf, World.entity, he', hsame.store.uri_eq _ (hserial e' he' hcurrent'), World.uriOf, World.entity, he']
  · rw [World.kindOf, World.entity, he', hsame.store.kind_eq _ (hserial e' he' hcurrent'), World.kindOf, World.entity,
      he']
  · have hlive' := hindexed.isLive he' hcurrent'
    have hproperty : (w.addProperty e prop v).2.property? e' prop' = _ :=
      World.property?_addProperty (h.ground.stores_size ▸ Nat.one_pos) hindexed.tied hlive hlive' prop'
    have hentity₁ : w₁.entity e' = (w.addProperty e prop v).2.entity e' :=
      (World.Rewritten.assigned _ _ _).entity_eq e'
    have hentity : (w₁.reindex e).2.entity e' = (w.addProperty e prop v).2.entity e' :=
      (w₁.entity_reindex e e').trans hentity₁
    rw [← hproperty, World.property?, hentity, World.property?]
    cases hid' : ((w.addProperty e prop v).2.entity e').props.get? prop' with
    | none => rfl
    | some id' =>
      have hhas : w₁.HasProperty e' prop' id' := ⟨(hsame₁.isLive_iff e').mpr hlive', by rw [hentity₁, hid']⟩
      exact congrArg some (h.valueOf_new he hcurrent hnone v hhas)

theorem Editable.editable_new (v : Value) : Editable own δ β
    ((w.withNewProperty e prop v).reindex e).2 := by
  let w₁ := w.withNewProperty e prop v
  have hretold := h.retold_new he hcurrent hnone v
  obtain ⟨hindexed, -⟩ := h.indexed_new he hcurrent hnone v
  have hcurrent₁ : w₁.isCurrent e := by
    rw [← World.isCurrent_reindex w₁ e e, hretold.isCurrent_eq e he]
    exact hcurrent
  refine ⟨(hindexed.reindex he hcurrent₁).told, fun e' he' hcurrent' ↦ ?_⟩
  rw [hretold.isCurrent_eq e' he'] at hcurrent'
  obtain ⟨hwritable, howner⟩ := h.writable e' he' hcurrent'
  have hentity : (w₁.reindex e).2.entity e' = w₁.entity e' := w₁.entity_reindex e e'
  have hentity₁ : (w.withNewProperty e prop v).entity e' = _ :=
    h.entity_new he hcurrent v (h.indexed.isLive he' hcurrent')
  have hwritable₁ : w₁.Writable e' := by
    by_cases heq : e = e'
    · subst heq
      rw [show w₁ = _ from World.withNewProperty_eq hwritable.live prop v]
      exact (hwritable.addProperty prop v).advanced
    · rw [if_neg heq] at hentity₁
      refine hwritable.congr hentity₁ (size_withNewProperty w e prop v) fun prop' id hid ↦ ?_
      have hsignal := (h.signal_new he hcurrent hnone v (hwritable.separate.lt_size prop' id hid)).2
      exact ⟨(congrArg Signal.disposed hsignal).trans rfl, (congrArg Signal.equality hsignal).trans rfl⟩
  refine ⟨hwritable₁.congr hentity (Nat.le_refl _) fun _ _ _ ↦ ⟨rfl, rfl⟩, ?_⟩
  have hshape : (w₁.entity e').shape = (w.entity e').shape := by
    rw [hentity₁]
    split <;> rfl
  rw [hentity, hshape]
  exact (congrArg Signal.owner (h.signal_new he hcurrent hnone v hwritable.shape_lt).2).trans howner

theorem Editable.confined_new (v : Value) : Confined w ((w.withNewProperty e prop v).reindex e).2 := by
  let w₁ := w.withNewProperty e prop v
  have hrewritten : (w.addProperty e prop v).2.Rewritten w₁ := .assigned _ _ _
  have hretold := h.retold_new he hcurrent hnone v
  have hlisteners : ((w₁.reindex e).2.store 0).listeners = (w.store 0).listeners := by
    have hfiled : ((w₁.reindex e).2.store 0).listeners = (w₁.store 0).listeners :=
      w₁.part_modifyStore (·.listeners) (by intro; rfl) e.store 0
    have hadded : ((w.addProperty e prop v).2.store 0).listeners = (w.store 0).listeners :=
      World.part_modifyStore _ (·.listeners) (by intro; rfl) e.store 0
    rw [hfiled, World.store, hrewritten.stores_eq]
    exact hadded
  have hsignal : ∀ j < w.signals.size, (∀ e', (w.signal j).owner ≠ .entity e') → w₁.signal j = w.signal j :=
    fun j hj howner ↦ (h.signal_new he hcurrent hnone v hj).1 fun heq ↦
      howner e (heq ▸ (h.writable e he hcurrent).2)
  have hwatchers : ∀ j < w.signals.size, (w₁.signal j).watchers = (w.signal j).watchers := fun j hj ↦ by
    have hsame := congrArg Signal.watchers (h.signal_new he hcurrent hnone v hj).2
    exact hsame
  have hkept : ∀ e' : EntityRef, e'.store = 0 → w.isCurrent e' →
      (w₁.reindex e).2.isCurrent e' ∧ (w₁.reindex e).2.uriOf e' = w.uriOf e' := fun e' he' hcurrent' ↦
    ⟨(hretold.isCurrent_eq e' he').trans hcurrent', hretold.uri_eq e' he' hcurrent'⟩
  exact ⟨hrewritten.session_eq, hrewritten.states_eq, hrewritten.depth_eq, hrewritten.flushing_eq,
    size_withNewProperty w e prop v, hsignal, hwatchers, hlisteners, hkept⟩

theorem Editable.wrote_new (v : Value) : Wrote w ((w.withNewProperty e prop v).reindex e).2 e prop v := by
  let w₁ := w.withNewProperty e prop v
  have heffects : w₁.effects = w.effects := by
    obtain ⟨-, value, heq | heq⟩ := h.indexed_new he hcurrent hnone v
    · rw [show w₁ = _ from heq]
      rfl
    · rw [show w₁ = _ from heq]
      rfl
  exact ⟨h.confined_new he hcurrent hnone v, h.retold_new he hcurrent hnone v, .inl heffects⟩

end New

/-- Within a batch a property is written, or added and told to the store. -/
theorem Editable.ends_set [Dispatch] (h : Editable own δ β w) (hupdated : (w.store 0).listeners.updated.entries = [])
    (hdepth : 0 < w.depth) (he : e.store = 0) (hcurrent : w.isCurrent e) (prop : String) (v : Value) :
    (Entity.set e prop v).Ends w fun r w' ↦ r = .ok () ∧ Editable own δ β w' ∧ Wrote w w' e prop v := by
  have hwritable := (h.writable e he hcurrent).1
  cases hid : (w.entity e).props.get? prop with
  | some id =>
    have hrun : Entity.set e prop v w = _ :=
      Entity.set_run hwritable hdepth (by rw [World.property?, hid]; rfl) v
    rw [World.withProperty, hid] at hrun
    exact ⟨_, _, hrun, rfl, h.assigned id v, h.wrote_assigned ⟨h.indexed.isLive he hcurrent, hid⟩ v⟩
  | none =>
    have hrun : Entity.set e prop v w = _ :=
      Entity.set_new_run hwritable hdepth (by rw [World.property?, hid]; rfl) v
    have hwrote := h.wrote_new he hcurrent hid v
    obtain ⟨hindexed, -⟩ := h.indexed_new he hcurrent hid v
    let w₁ := w.withNewProperty e prop v
    have hcurrent₁ : w₁.isCurrent e := by
      rw [← World.isCurrent_reindex w₁ e e, hwrote.isCurrent_eq e he]
      exact hcurrent
    have hheld : w₁.isStoreHeld e.store = true := he.symm ▸ OnGround.held hindexed.ground
    have hdepth₁ : 0 < w₁.depth := (hwrote.depth_eq : w₁.depth = w.depth).symm ▸ hdepth
    have hlisteners : (w₁.store 0).listeners.updated.entries = [] := by
      have hfiled : ((w₁.reindex e).2.store 0).listeners = (w₁.store 0).listeners :=
        w₁.part_modifyStore (·.listeners) (by intro; rfl) e.store 0
      rw [← hfiled, hwrote.listeners_eq, hupdated]
    have htold : Entity.tellStore e prop w₁ = .ok () (w₁.reindex e).2 := by
      have hchanged := Entity.propertyChanged_unheard hcurrent₁ (.inl hdepth₁)
        (he.symm ▸ hindexed.behind.noClocks) (he.symm ▸ hlisteners) prop
      simp only [Entity.tellStore, bind_run, get_run, hheld, if_true, hchanged]
    refine ⟨.ok (), _, hrun.trans ?_, rfl, h.editable_new he hcurrent hid v, hwrote⟩
    simp only [bind_run, w₁, htold, pure_run]

/-! ## What is told when a batch ends -/

/-- All that is still to be told of are properties, at most so many. -/
structure World.Owes (w : World) (n : Nat) : Prop where
  length_le : w.effects.length ≤ n
  watched : ∀ effect ∈ w.effects, ∃ id, effect = .signal id ∧ (w.signal id).watchers.entries ≠ []

theorem Confined.watched (h : Confined w w') (hentries : (w.signal id).watchers.entries ≠ []) :
    (w'.signal id).watchers.entries ≠ [] := by
  have hlt : id < w.signals.size := by
    by_contra hge
    rw [World.signal_of_size_le w (Nat.le_of_not_lt hge)] at hentries
    exact hentries rfl
  rwa [h.watchers_eq id hlt]

theorem Confined.owes {n : Nat} (h : Confined w w') (heffects : w'.effects = w.effects) (howes : w.Owes n) :
    w'.Owes n where
  length_le := heffects ▸ howes.length_le
  watched effect heffect := by
    obtain ⟨id, rfl, hentries⟩ := howes.watched effect (heffects ▸ heffect)
    exact ⟨id, rfl, h.watched hentries⟩

/-- To write a property leaves at most one more to be told of. -/
theorem Wrote.owes {n : Nat} (h : Wrote w w' e prop v) (howes : w.Owes n) : w'.Owes (n + 1) := by
  rcases h.effects with heffects | ⟨id, heffects, hentries⟩
  · have hsame := h.toConfined.owes heffects howes
    exact ⟨Nat.le_succ_of_le hsame.length_le, hsame.watched⟩
  · refine ⟨?_, fun effect heffect ↦ ?_⟩
    · rw [heffects, List.length_append]
      exact Nat.succ_le_succ howes.length_le
    · rw [heffects, List.mem_append, List.mem_singleton] at heffect
      rcases heffect with hold | rfl
      · obtain ⟨id', rfl, hentries'⟩ := howes.watched effect hold
        exact ⟨id', rfl, h.toConfined.watched hentries'⟩
      · exact ⟨id, rfl, hentries⟩

/-- Notifications are taken up, and the store holds what it held. -/
structure Taken (w w' : World) : Prop extends Confined w w' where
  live_eq : (w'.store 0).live = (w.store 0).live
  contents_eq : w'.contents 0 = w.contents 0

theorem Taken.refl (w : World) : Taken w w :=
  ⟨.refl w, rfl, rfl⟩

theorem Taken.trans (h : Taken w w') (h' : Taken w' w'') : Taken w w'' :=
  ⟨h.toConfined.trans h'.toConfined, h'.live_eq.trans h.live_eq, h'.contents_eq.trans h.contents_eq⟩

/-- When a notification is taken up, its entity is filed anew. -/
theorem Editable.taken (h : Editable own δ β w) (hid : w.HasProperty e prop id)
    (hindexed : Indexed own δ β (.whole ∅) ((w.taken id).reindex e).2) :
    Editable own δ β ((w.taken id).reindex e).2 ∧ Taken w ((w.taken id).reindex e).2 := by
  let w₁ := w.taken id
  have hsignal : ∀ j, w₁.signal j = if id = j ∧ j < w.signals.size then { w.signal j with notifying := false }
      else w.signal j := World.signal_modifySignal { w with effects := w.effects.tail } id _
  have hpart : ∀ {α : Type} (part : Signal → α), (∀ s : Signal, part { s with notifying := false } = part s) →
      ∀ j, part (w₁.signal j) = part (w.signal j) := fun part hpart j ↦ by
    rw [hsignal]
    split
    · exact hpart _
    · rfl
  have hsize : w₁.signals.size = w.signals.size := World.size_modifySignal _ id _
  have hcurrent : ∀ e', (w₁.reindex e).2.isCurrent e' = w.isCurrent e' := fun e' ↦ w₁.isCurrent_reindex e e'
  have hentity : ∀ e', (w₁.reindex e).2.entity e' = w.entity e' := fun e' ↦ w₁.entity_reindex e e'
  have hstore {α : Type} (part : Store → α) (hpart : ∀ (s : Store) indices,
      part { s with indices := indices } = part s) : part ((w₁.reindex e).2.store 0) = part (w.store 0) :=
    w₁.part_modifyStore part (fun _ ↦ hpart _ _) e.store 0
  have howner : ∀ j, (∀ e', (w.signal j).owner ≠ .entity e') → w₁.signal j = w.signal j := fun j howner ↦ by
    rw [hsignal, if_neg fun hand ↦ howner e ?_]
    rw [← hand.1]
    exact (h.indexed.tied.property e prop id hid).owner_eq
  have hconfined : Confined w (w₁.reindex e).2 :=
    ⟨rfl, rfl, rfl, rfl, Nat.le_of_eq hsize.symm, fun j _ ↦ howner j, fun j _ ↦ hpart (·.watchers) (fun _ ↦ rfl) j,
      hstore (·.listeners) fun _ _ ↦ rfl, fun e' _ hcurrent' ↦ ⟨(hcurrent e').trans hcurrent', by
        rw [World.uriOf, hentity, World.uriOf]⟩⟩
  refine ⟨h.unmoved hindexed (Nat.le_of_eq hsize.symm) fun e' _ hcurrent' ↦ ?_, hconfined,
    hstore (·.live) fun _ _ ↦ rfl, ?_⟩
  · exact ⟨(hcurrent e').symm.trans hcurrent', hentity e', fun j _ ↦ ⟨hpart (·.disposed) (fun _ ↦ rfl) j,
      hpart (·.equality) (fun _ ↦ rfl) j, hpart (·.owner) (fun _ ↦ rfl) j⟩⟩
  · have hbyAge : (w₁.reindex e).2.byAge 0 = w.byAge 0 :=
      World.byAge_congr h.ground.coherent hindexed.ground.coherent fun e' _ ↦ by rw [hcurrent]
    have hedges : ((w₁.reindex e).2.store 0).edges = (w.store 0).edges := hstore (·.edges) fun _ _ ↦ rfl
    rw [World.contents, hbyAge, hedges, World.contents]
    refine congrArg (fun entities ↦ (⟨entities, _, []⟩ : Snapshot)) (List.map_congr_left fun e' _ ↦ ?_)
    exact World.specOf_congr (hentity e') fun _ j _ ↦ hpart (·.value) (fun _ ↦ rfl) j

section Flush

variable [D : Dispatch] (hD : Deep D) (h : Editable own δ β w) (hupdated : (w.store 0).listeners.updated.entries = [])
include hD h hupdated

/-- Of each property that is still to be told of the store is told in one round. -/
theorem Editable.ends_drain {n : Nat} (hbusy : w.Busy) (howes : w.Owes n) : (drain (n + 1)).Ends w fun _ w' ↦
    Editable own δ β w' ∧ w'.effects = [] ∧ Taken w w' := by
  induction n generalizing w with
  | zero =>
    have heffects : w.effects = [] := List.length_eq_zero_iff.mp (Nat.le_zero.mp howes.length_le)
    exact ⟨(), w, drain_done_run h.indexed.plain heffects 0, h, heffects, .refl w⟩
  | succ n ih =>
    cases heffects : w.effects with
    | nil => exact ⟨(), w, drain_done_run h.indexed.plain heffects _, h, heffects, .refl w⟩
    | cons effect rest =>
      obtain ⟨id, rfl, hentries⟩ := howes.watched effect (heffects ▸ List.mem_cons_self)
      obtain ⟨e, prop, hid⟩ := h.indexed.tied.only id hentries
      obtain ⟨hrun, hindexed⟩ := Effect.property_unheard hD h.indexed hid heffects hupdated hbusy
      obtain ⟨heditable, htaken⟩ := h.taken hid hindexed
      let w₁ := ((w.taken id).reindex e).2
      have htail : w₁.effects = rest := congrArg List.tail heffects
      have howes₁ : w₁.Owes n := by
        refine ⟨?_, fun effect heffect ↦ ?_⟩
        · have hle := howes.length_le
          rw [heffects, List.length_cons] at hle
          rw [htail]
          exact Nat.le_of_succ_le_succ hle
        · obtain ⟨id', rfl, hentries'⟩ := howes.watched effect (heffects ▸ List.mem_cons_of_mem _ (htail ▸ heffect))
          exact ⟨id', rfl, htaken.toConfined.watched hentries'⟩
      have hdrain := ih heditable (htaken.listeners_eq ▸ hupdated) hbusy howes₁
      rw [Ends, drain_effect_run h.indexed.plain heffects hrun]
      exact hdrain.mono fun _ w' hw' ↦ ⟨hw'.1, hw'.2.1, htaken.trans hw'.2.2⟩

/-- So a flush tells the store of all of them, if there are rounds enough. -/
theorem Editable.ends_flush {n : Nat} (hdepth : w.depth = 0) (hflushing : w.flushing = false) (howes : w.Owes n)
    (hrounds : n < D.rounds) : flushOutside.Ends w fun _ w' ↦ Editable own δ β w' ∧ w'.effects = [] ∧ Taken w w' := by
  obtain ⟨m, hm⟩ := Nat.exists_eq_add_of_lt hrounds
  let w₁ : World := { w with flushing := true }
  have h₁ : Editable own δ β w₁ := h.context w.depth true w.frames w.pins
  have howes₁ : w₁.Owes (n + m) := ⟨Nat.le_add_right_of_le howes.length_le, howes.watched⟩
  obtain ⟨_, w₂, hdrain, heditable, heffects, htaken⟩ := h₁.ends_drain hD hupdated (.inr rfl) howes₁
  rw [← hm] at hdrain
  refine ⟨(), _, flush_run hdepth hflushing hdrain, heditable.context w₂.depth false w₂.frames w₂.pins, heffects, ?_⟩
  exact ⟨⟨htaken.session_eq, htaken.states_eq, htaken.depth_eq, hflushing.symm, htaken.signals_le, htaken.signal_eq,
    htaken.watchers_eq, htaken.listeners_eq, htaken.kept⟩, htaken.live_eq, htaken.contents_eq⟩

end Flush

end LiveGraph
