import LiveGraph.Proofs.Store.Callbacks
import LiveGraph.Proofs.Store.Properties

/-!
# Notifications that are taken up

A flush takes up the notifications that were put off, one at a time. If one is that of a property,
the store is untold of its entity until the callback of the property was called. What is kept but
for the entities that the store is untold of is kept by a flush.
-/

namespace LiveGraph

open Act

variable {w w' : World} {effect : Effect}

/-- A world in which the first notification that was put off is taken up. -/
structure Popped (w w' : World) (effect : Effect) : Prop where
  effects_eq : w.effects = effect :: w'.effects
  stores_eq : w'.stores = w.stores
  size_eq : w'.signals.size = w.signals.size
  signal_cases : ∀ id, w'.signal id = w.signal id ∨
    w'.signal id = { w.signal id with notifying := false }
  told : ∀ e prop id, effect = .signal id → w.HasProperty e prop id →
    (w'.signal id).notifying = false
  deriveds_eq : w'.deriveds = w.deriveds
  queue_eq : w'.queue = []
  views_eq : w'.views = w.views
  states_eq : w'.states = w.states
  session_eq : w'.session = w.session

namespace Popped

variable (h : Popped w w' effect)
include h

theorem store_eq (s : StoreId) : w'.store s = w.store s := by
  rw [World.store, h.stores_eq, World.store]

theorem entity_eq (e : EntityRef) : w'.entity e = w.entity e := by
  rw [World.entity, h.store_eq, World.entity]

theorem isCurrent_eq (e : EntityRef) : w'.isCurrent e = w.isCurrent e := by
  rw [World.isCurrent, h.store_eq, World.uriOf, h.entity_eq, World.isCurrent, World.uriOf]

theorem hasProperty_iff (e : EntityRef) (prop : String) (id : SignalId) :
    w'.HasProperty e prop id ↔ w.HasProperty e prop id := by
  rw [World.HasProperty, World.IsLive, World.knows, h.store_eq, h.entity_eq, World.HasProperty,
    World.IsLive, World.knows]

theorem signal_kept (id : SignalId) : (w'.signal id).disposed = (w.signal id).disposed ∧
    (w'.signal id).owner = (w.signal id).owner ∧ (w'.signal id).watchers = (w.signal id).watchers ∧
    w'.valueOf id = w.valueOf id ∧
    ((w'.signal id).notifying = true → (w.signal id).notifying = true) := by
  rw [World.valueOf]
  rcases h.signal_cases id with hid | hid
  · rw [hid]
    exact ⟨rfl, rfl, rfl, rfl, fun h ↦ h⟩
  · rw [hid]
    exact ⟨rfl, rfl, rfl, rfl, fun h ↦ Bool.noConfusion h⟩

theorem tied (htied : w.Tied) : w'.Tied where
  property e prop id hid := by
    have hid' := (h.hasProperty_iff e prop id).mp hid
    obtain ⟨hlt, hundisposed, howner, hentries, hwaits⟩ := htied.property e prop id hid'
    obtain ⟨hdisposed', howner', hwatchers', -, hnotifying'⟩ := h.signal_kept id
    refine ⟨h.size_eq ▸ hlt, hdisposed'.trans hundisposed, howner'.trans howner,
      hwatchers'.symm ▸ hentries, fun hnotifying ↦ ?_⟩
    have hmem := hwaits (hnotifying' hnotifying)
    rw [h.effects_eq, List.mem_cons] at hmem
    refine hmem.resolve_left fun heq ↦ ?_
    rw [h.told e prop id heq.symm hid'] at hnotifying
    exact Bool.noConfusion hnotifying
  only id hentries := by
    rw [(h.signal_kept id).2.2.1] at hentries
    obtain ⟨e, prop, hid⟩ := htied.only id hentries
    exact ⟨e, prop, (h.hasProperty_iff e prop id).mpr hid⟩
  shape e he := by
    rw [World.IsLive, World.knows, h.store_eq, h.entity_eq] at he
    rw [h.entity_eq, h.size_eq, (h.signal_kept _).2.2.1]
    exact htied.shape e he

/-- Of the entity that the notification is about, if any, it was not told yet. -/
theorem unmoved {u u' g : EntityRef → Prop}
    (hu : ∀ e, u e ∨ (∃ prop id, effect = .signal id ∧ w.HasProperty e prop id) → u' e) :
    Unmoved w w' u u' g g := by
  refine ⟨fun e he hcurrent hnot hp ↦ ?_, fun e he hbefore ↦ ?_⟩
  · rw [h.isCurrent_eq] at hcurrent
    refine ⟨hcurrent, fun hun ↦ hnot (hu e (.inl hun)), fun ⟨prop, id, hid, hmem⟩ ↦ ?_,
      fun prop ↦ ?_⟩
    · rw [h.effects_eq, List.mem_cons] at hmem
      rcases hmem with heq | hmem
      · exact hnot (hu e (.inr ⟨prop, id, heq.symm, hid⟩))
      · exact hp ⟨prop, id, (h.hasProperty_iff e prop id).mpr hid, hmem⟩
    · rw [World.property?, h.entity_eq, World.property?]
      cases (w.entity e).props.get? prop with
      | none => rfl
      | some id => exact congrArg some (h.signal_kept id).2.2.2.1
  · rw [World.uriOf, World.kindOf, h.entity_eq, World.uriOf, World.kindOf, h.isCurrent_eq]
    exact ⟨rfl, rfl, hbefore⟩

theorem ground {hidden : Nat → Prop} (hground : Ground hidden w) : Ground hidden w' := by
  refine ⟨?_, h.stores_eq ▸ hground.stores_size, ?_⟩
  · rw [h.store_eq]
    exact hground.coherent
  · rw [h.session_eq, World.state, h.states_eq]
    exact hground.current

theorem plain (hplain : Plain w) : Plain w' :=
  ⟨h.deriveds_eq.trans hplain.noDeriveds, h.queue_eq⟩

end Popped

section Taken

variable {rest : List Effect} (frames : List Frame)

/-- A signal that is told now may be put off again. -/
theorem World.Tied.popped_signal (h : w.Tied) {id : SignalId}
    (heffects : w.effects = .signal id :: rest) :
    Popped w (World.modifySignal { w with queue := [], effects := rest, frames := frames } id
      fun s ↦ { s with notifying := false }) (.signal id) := by
  let w₁ : World := { w with queue := [], effects := rest, frames := frames }
  have hsignal : ∀ j, (w₁.modifySignal id fun s ↦ { s with notifying := false }).signal j =
      if id = j ∧ j < w.signals.size then { w.signal j with notifying := false } else w.signal j :=
    w₁.signal_modifySignal id _
  refine ⟨heffects, rfl, w₁.size_modifySignal id _, fun j ↦ ?_, fun e prop j hj hid ↦ ?_, rfl, rfl,
    rfl, rfl, rfl⟩
  · rw [hsignal]
    split
    · exact .inr rfl
    · exact .inl rfl
  · obtain rfl := Effect.signal.inj hj
    rw [hsignal, if_pos ⟨rfl, (h.property e prop id hid).lt_size⟩]

theorem World.popped (heffects : w.effects = effect :: rest)
    (hnone : ∀ e prop id, effect = .signal id → ¬w.HasProperty e prop id) :
    Popped w { w with queue := [], effects := rest, frames := frames } effect :=
  ⟨heffects, rfl, rfl, fun _ ↦ .inl rfl, fun e prop id he hid ↦ absurd hid (hnone e prop id he),
    rfl, rfl, rfl, rfl, rfl⟩

end Taken

/-- A property signal is in being as long as the store of its entity is. -/
theorem World.isSignalHeld_of_owner (w : World) {id : SignalId} {e : EntityRef}
    (howner : (w.signal id).owner = .entity e) (hheld : w.isStoreHeld e.store = true) :
    w.isSignalHeld id = true := by
  simp [isSignalHeld, howner, isOwnerHeld, isEntityHeld, hheld]

/-- A signal that was put off: if it is a property, its one callback is called, and otherwise nobody is told. -/
theorem Act.agree_effect_signal {D D' : Dispatch} {Q C : World → Prop} {id : SignalId} {rest : List Effect}
    (frames : List Frame) (htied : w.Tied) (heffects : w.effects = .signal id :: rest)
    (hheld : World.isStoreHeld { w with queue := [], effects := rest, frames := frames } 0 = true)
    (hproperty : ∀ e prop event, w.HasProperty e prop id →
      Agree (Held (fun w' ↦ Popped w w' (.signal id)) w.depth w.flushing) (D.call (.property e prop) event)
        (D'.call (.property e prop) event) (fun _ ↦ Q) fun _ ↦ False)
    (hunwatched : (∀ e prop, ¬w.HasProperty e prop id) →
      ∀ w', Held (fun w' ↦ Popped w w' (.signal id)) w.depth w.flushing w' → Q w') :
    Agree (· = { w with queue := [], effects := rest, frames := frames }) (@Effect.run D (.signal id))
      (@Effect.run D' (.signal id)) (fun _ ↦ Q) C := by
  let w₁ : World := { w with queue := [], effects := rest, frames := frames }
  let w₂ : World := w₁.modifySignal id fun s ↦ { s with notifying := false }
  have hpopped : Popped w w₂ (.signal id) := htied.popped_signal frames heffects
  refine agree_get fun w' hw' ↦ ?_
  subst hw'
  refine agree_ite (fun _ ↦ ?_) fun hgone ↦ agree_pure fun w' hw' ↦ ?_
  · refine agree_bind (agree_modify (Q := fun _ ↦ (· = w₂)) fun w' hw' ↦ by rw [hw'])
      fun _ ↦ agree_get fun w' hw' ↦ ?_
    subst hw'
    by_cases hid : ∃ e prop, w.HasProperty e prop id
    · obtain ⟨e, prop, hid⟩ := hid
      have hwatched := htied.property e prop id hid
      obtain ⟨n, hentries⟩ := hwatched.entries_eq
      have hchannel : (w₂.watchers (.signal id)).entries = [(n, .property e prop)] := by
        rw [World.watchers, (hpopped.signal_kept id).2.2.1]
        exact hentries
      refine agree_ite (fun _ ↦ ?_) fun hdisposed ↦ ?_
      · refine agree_notify_single (fun w' hw' ↦ hw' ▸ hchannel) ?_
        exact (hproperty e prop _ hid).mono (fun w' hw' ↦ hw' ▸ ⟨hpopped, rfl, rfl⟩) (fun _ _ h ↦ h)
          fun _ h ↦ h.elim
      · rw [(hpopped.signal_kept id).1, hwatched.undisposed] at hdisposed
        exact absurd rfl hdisposed
    · have htold : Q w₂ := hunwatched (fun e prop hid' ↦ hid ⟨e, prop, hid'⟩) w₂ ⟨hpopped, rfl, rfl⟩
      have hnone : (w₂.watchers (.signal id)).entries = [] := by
        rw [World.watchers, (hpopped.signal_kept id).2.2.1]
        exact by_contra fun hentries ↦ hid (htied.only id hentries)
      refine agree_ite (fun _ ↦ agree_get fun w' hw' ↦ ?_) fun _ ↦
        agree_pure fun w' hw' ↦ hw' ▸ htold
      subst hw'
      rw [hnone]
      exact agree_pure fun w' hw' ↦ hw' ▸ htold
  · subst hw'
    have hnone : ∀ e prop, ¬w.HasProperty e prop id := fun e prop hid ↦ by
      have howner : (w₁.signal id).owner = .entity e := (htied.property e prop id hid).owner_eq
      exact absurd (w₁.isSignalHeld_of_owner howner (hid.1.1.symm ▸ hheld)) hgone
    refine hunwatched hnone w₁ ⟨World.popped frames heffects fun e prop id' he ↦ ?_, rfl, rfl⟩
    obtain rfl := Effect.signal.inj he
    exact hnone e prop

/-- What is kept but for some entities, those that the store is untold of. -/
structure Excusing (K : Set EntityRef → World → Prop) : Prop where
  robust : ∀ U, Robust (K U)
  ground : ∀ U w, K U w → Ground (fun _ ↦ False) w
  tied : ∀ U w, K U w → w.Tied
  pop : ∀ U U' w w' effect, K U w → U ⊆ U' → Popped w w' effect →
    (∀ e prop id, effect = .signal id → w.HasProperty e prop id → e ∈ U') → K U' w'

namespace Excusing

variable {K : Set EntityRef → World → Prop} {U : Set EntityRef} {D D' : Dispatch}
variable {C : World → Prop}

/-- A signal that was put off: if it is a property, its entity is untold of until the store knows. -/
theorem agree_effect_signal (h : Excusing K) {id : SignalId} {rest : List Effect}
    (hproperty : ∀ (e : EntityRef) prop event, e.store = 0 → Agree (Held (K (insert e U)) 0 true)
      (D.call (.property e prop) event) (D'.call (.property e prop) event)
      (fun _ ↦ Held (K U) 0 true) fun _ ↦ False)
    (hw : Held (K U) 0 true w) (heffects : w.effects = .signal id :: rest) (frames : List Frame) :
    Agree (· = { w with queue := [], effects := rest, frames := frames })
      (@Effect.run D (.signal id)) (@Effect.run D' (.signal id)) (fun _ ↦ Held (K U) 0 true) C := by
  have htied := h.tied U w hw.holds
  have hground := h.ground U w hw.holds
  have hpop {U' : Set EntityRef} (hU : U ⊆ U') (htold : ∀ e prop, w.HasProperty e prop id → e ∈ U') {w' : World}
      (hw' : Held (fun w' ↦ Popped w w' (.signal id)) w.depth w.flushing w') : Held (K U') 0 true w' :=
    ⟨h.pop U U' w w' _ hw.holds hU hw'.holds fun e prop id' he hid ↦ by
      obtain rfl := Effect.signal.inj he
      exact htold e prop hid, hw'.depth_eq.trans hw.depth_eq, hw'.flushing_eq.trans hw.flushing_eq⟩
  refine Act.agree_effect_signal frames htied heffects
    (Ground.held ⟨hground.coherent, hground.stores_size, hground.current⟩)
    (fun e prop event hid ↦ (hproperty e prop event hid.1.1).pre fun w' ↦
      hpop (Set.subset_insert e U) fun e' prop' hid' ↦ ?_)
    fun hnone w' ↦ hpop subset_rfl fun e prop hid ↦ absurd hid (hnone e prop)
  have howner := (htied.property e' prop' id hid').owner_eq
  rw [(htied.property e prop id hid).owner_eq, Owner.entity.injEq] at howner
  exact .inl howner.symm

section Callbacks

variable (h : Excusing K) (hrounds : D.rounds = D'.rounds)
  (hproperty : ∀ (e : EntityRef) prop event, e.store = 0 → Agree (Held (K (insert e U)) 0 true)
    (D.call (.property e prop) event) (D'.call (.property e prop) event)
    (fun _ ↦ Held (K U) 0 true) fun _ ↦ False)
  (hview : ∀ id, Agree (Held (K U) 0 true) (@Effect.run D (.view id)) (@Effect.run D' (.view id))
    (fun _ ↦ Held (K U) 0 true) fun _ ↦ False)
include h hproperty hview

/-- Whatever was put off, telling it keeps what the callbacks of properties and those of views keep. -/
theorem agree_effect {effect : Effect} {rest : List Effect} (hw : Held (K U) 0 true w)
    (heffects : w.effects = effect :: rest) (frames : List Frame) :
    Agree (· = { w with queue := [], effects := rest, frames := frames }) (@Effect.run D effect)
      (@Effect.run D' effect) (fun _ ↦ Held (K U) 0 true) fun _ ↦ False := by
  have hpop : (∀ id, effect ≠ .signal id) → Held (K U) 0 true
      { w with queue := [], effects := rest, frames := frames } := fun hother ↦
    ⟨h.pop U U w _ effect hw.holds subset_rfl
      (World.popped frames heffects fun _ _ id he ↦ absurd he (hother id))
      fun _ _ id he ↦ absurd he (hother id), hw.depth_eq, hw.flushing_eq⟩
  match effect with
  | .signal id => exact h.agree_effect_signal hproperty hw heffects frames
  | .derived id =>
    exact ((h.robust U).agree_effect_derived id).pre fun w' hw' ↦ hw' ▸ hpop nofun
  | .view id => exact (hview id).pre fun w' hw' ↦ hw' ▸ hpop nofun

include hrounds

/-- A flush keeps what the callbacks of properties and those of views keep. -/
theorem agree_flush : Agree (Held (K U) 0 false) (@flush D) (@flush D') (fun _ ↦ At (K U) 0 false)
    fun _ ↦ False :=
  (h.robust U).agree_flush ((h.robust U).rounds hrounds fun _ _ _ frames hw heffects ↦
    h.agree_effect hproperty hview hw heffects frames)

end Callbacks

end Excusing

end LiveGraph
