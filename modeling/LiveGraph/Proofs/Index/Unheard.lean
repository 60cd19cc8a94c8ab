import LiveGraph.Proofs.Index.Filing
import LiveGraph.Proofs.Snapshot.Contents

/-!
# Changes that only the store hears of

Where nobody listens to a store and nothing was computed from it, a property that was written is told to the store
alone: its notification is taken up, and its entity is filed anew.
-/

namespace LiveGraph

open Act

namespace Act

variable {w w' : World}

theorem holding_run {α : Type} {p : Pin} {a : Act α} {x : α} (h : a (w.pin p) = .ok x w') :
    holding p a w = .ok x (w'.unpin p) := by
  simp only [holding, followedBy, bind_run, modify_run, h]

/-- To tell a channel that has one callback is to call that. -/
theorem notify_single_run [Dispatch] {channel : Channel} {event : Event} {n : Nat} {callback : Callback}
    (hentries : (w.watchers channel).entries = [(n, callback)])
    (hcall : Dispatch.call callback event w = .ok () w') : notify channel event w = .ok () w' := by
  have hthere : (w.watchers channel).contains n = true := by
    simp [Watchers.contains, hentries]
  simp only [notify, bind_run, get_run, hentries, notifyEach, hthere, if_true, contained_run, hcall, pure_run]

theorem untracked_run {α : Type} {a : Act α} {x : α} (h : a (w.pushFrame none) = .ok x w') :
    untracked a w = .ok x w'.popFrame.reap := by
  simp only [untracked, followedBy, bind_run, modify_run, h]

/-- A flush takes up what was put off first. -/
theorem drain_effect_run [Dispatch] {effect : Effect} {rest : List Effect} (hplain : Plain w)
    (heffects : w.effects = effect :: rest) (hrun : effect.run.untracked { w with effects := rest } = .ok () w')
    (n : Nat) : drain (n + 1) w = drain n w' := by
  have htake : { w with queue := [], effects := rest } = ({ w with effects := rest } : World) := by
    rw [← hplain.queue_eq]
  simp only [drain, bind_run, get_run, hplain.popQueued_eq, heffects, modify_run, htake, hrun]

theorem drain_done_run [Dispatch] (hplain : Plain w) (heffects : w.effects = []) (n : Nat) :
    drain (n + 1) w = .ok () w := by
  have hsame : { w with queue := [], effects := [] } = w := by
    rw [← hplain.queue_eq, ← heffects]
  simp only [drain, bind_run, get_run, hplain.popQueued_eq, heffects, modify_run, hsame]

theorem flush_run [Dispatch] (hdepth : w.depth = 0) (hflushing : w.flushing = false)
    (h : drain Dispatch.rounds { w with flushing := true } = .ok () w') :
    flushOutside w = .ok () { w' with flushing := false } := by
  have houtside : flushOutside w = flush w := by
    simp only [flushOutside, bind_run, get_run, hdepth, if_true]
  rw [houtside]
  simp only [flush, followedBy, bind_run, get_run, modify_run, hflushing, Bool.not_false, if_true, h]

end Act

section Store

variable {w : World} {e : EntityRef}

/-- Where nobody listens, an entity whose property has changed is filed anew. -/
theorem Entity.propertyChanged_unheard [Dispatch] (hcurrent : w.isCurrent e) (hbusy : w.Busy)
    (hclocks : (w.store e.store).clocks = ∅) (hupdated : (w.store e.store).listeners.updated.entries = [])
    (prop : String) : propertyChanged e prop w = .ok () (w.reindex e).2 := by
  let w₁ := w.setDepth (w.depth + 1)
  have hparts : ((w₁.reindex e).2.store e.store).clocks = ∅ ∧
      ((w₁.reindex e).2.store e.store).listeners.updated.entries = [] :=
    ⟨(w₁.part_modifyStore (·.clocks) (by intro; rfl) e.store e.store).trans hclocks,
      (w₁.part_modifyStore (·.listeners.updated.entries) (by intro; rfl) e.store e.store).trans hupdated⟩
  have hnotify := notify_run (.store e.store .updated) hparts.2 (.property e prop)
  have hbody : (do
      let touched ← modifyGet (·.reindex e)
      Store.bumpAll e.store (touched.map .index)
      notify (.store e.store .updated) (.property e prop) : Act Unit) w₁ = .ok () (w₁.reindex e).2 := by
    simp only [bind_run, modifyGet_run, bumpAll_run hparts.1, hnotify]
  have hflush : flushOutside (w.reindex e).2 = .ok () (w.reindex e).2 := flushOutside_busy hbusy
  have hback : (w₁.reindex e).2.setDepth ((w₁.reindex e).2.depth - 1) = (w.reindex e).2 := rfl
  have hbatch := batch_run hbody
  rw [hback] at hbatch
  simp only [propertyChanged, bind_run, get_run, hcurrent, if_true, hbatch, hflush, pure_run]

variable {own : String → Prop} {δ : Definitions} {β : Background}

/-- The callback of a property files its entity anew. -/
theorem Callback.property_unheard [Dispatch] (h : Indexed own δ β (.whole {e}) w) (he : e.store = 0)
    (hcurrent : w.isCurrent e) (hbusy : w.Busy) (hupdated : (w.store 0).listeners.updated.entries = [])
    (prop : String) (event : Event) :
    Callback.run (.property e prop) event w = .ok () (w.reindex e).2 ∧ Indexed own δ β (.whole ∅) (w.reindex e).2 := by
  have hground : Ground (fun _ ↦ False) w := h.ground
  have hfiled := (h.reindex he hcurrent).told
  refine ⟨?_, hfiled⟩
  have hheld : w.isStoreHeld e.store = true := he.symm ▸ hground.held
  have hchanged : Entity.propertyChanged e prop (w.pin (.store e.store)) =
      .ok () ((w.pin (.store e.store)).reindex e).2 :=
    Entity.propertyChanged_unheard (w := w.pin (.store e.store)) hcurrent hbusy (he.symm ▸ h.behind.noClocks)
      (he.symm ▸ hupdated) prop
  have hunpin : ((w.pin (.store e.store)).reindex e).2.unpin (.store e.store) = (w.reindex e).2 := by
    have herase : { ((w.pin (.store e.store)).reindex e).2 with
        pins := ((w.pin (.store e.store)).reindex e).2.pins.erase (.store e.store) } = (w.reindex e).2 := by
      have hpins : (Pin.store e.store :: w.pins).erase (.store e.store) = w.pins := List.erase_cons_head ..
      exact congrArg (fun pins ↦ { (w.reindex e).2 with pins := pins }) hpins
    rw [World.unpin, herase, hfiled.reap_eq]
  have hholding := holding_run hchanged
  rw [hunpin] at hholding
  simp only [Callback.run, bind_run, get_run, hheld, if_true, hholding]

/-- Callbacks do what those of sessions do, and there are rounds enough to tell one of a property. -/
structure Deep (D : Dispatch) : Prop where
  rounds_pos : 1 < D.rounds
  call_eq : ∀ callback event, ∃ D' : Dispatch, 0 < D'.rounds ∧ D.call callback event = @Callback.run D' callback event

theorem deep_dispatch (n : Nat) : Deep (dispatch (n + 3)) where
  rounds_pos := Nat.lt_add_left n Nat.one_lt_two
  call_eq _ _ := ⟨dispatch (n + 2), Nat.succ_pos n, rfl⟩

/-- The world once the notification that was put off first is taken up. -/
def World.taken (w : World) (id : SignalId) : World :=
  World.modifySignal { w with effects := w.effects.tail } id fun s ↦ { s with notifying := false }

/-- What is done about a property that waits to be told of. -/
theorem Effect.property_unheard [D : Dispatch] {prop : String} {id : SignalId} {rest : List Effect} (hD : Deep D)
    (h : Indexed own δ β (.whole ∅) w) (hid : w.HasProperty e prop id) (heffects : w.effects = .signal id :: rest)
    (hupdated : (w.store 0).listeners.updated.entries = []) (hbusy : w.Busy) :
    (Effect.signal id).run.untracked { w with effects := rest } = .ok () ((w.taken id).reindex e).2 ∧
      Indexed own δ β (.whole ∅) ((w.taken id).reindex e).2 := by
  let frames : List Frame := ⟨none, [], false⟩ :: w.frames
  let w₁ : World := { w with effects := rest, frames := frames }
  let w₂ : World := w₁.modifySignal id fun s ↦ { s with notifying := false }
  have hground : Ground (fun _ ↦ False) w := h.ground
  have he : e.store = 0 := hid.1.1
  have hwatched := h.tied.property e prop id hid
  obtain ⟨n, hentries⟩ := hwatched.entries_eq
  have htaken : { w with effects := rest } = { w with effects := w.effects.tail } := by rw [heffects, List.tail_cons]
  have hqueue : { w with queue := [], effects := rest, frames := frames } = w₁ := by
    rw [← h.plain.queue_eq]
  have hpopped : Popped w w₂ (.signal id) := by
    have hpopped := h.tied.popped_signal frames heffects
    rwa [hqueue] at hpopped
  have hindexed : Indexed own δ β (.whole {e}) w₂ := by
    refine Indexed.excusing.pop ∅ {e} w w₂ _ h (Set.empty_subset _) hpopped fun e' prop' id' heq hid' ↦ ?_
    obtain rfl := Effect.signal.inj heq
    have howner := (h.tied.property e' prop' id hid').owner_eq
    rw [hwatched.owner_eq, Owner.entity.injEq] at howner
    exact howner.symm
  have hcurrent : w₂.isCurrent e := (hpopped.isCurrent_eq e).trans ((hground.isCurrent_iff_isLive he).mpr hid.1)
  let event : Event := .value (.value (w₂.signal id).value)
  have hcalled : Dispatch.call (.property e prop) event w₂ = .ok () (w₂.reindex e).2 ∧
      Indexed own δ β (.whole ∅) (w₂.reindex e).2 := by
    obtain ⟨D', -, heq⟩ := hD.call_eq (.property e prop) event
    exact (@Callback.property_unheard _ _ _ _ _ D' hindexed he hcurrent hbusy hupdated prop event).imp_left
      (congrFun heq w₂).trans
  obtain ⟨hcalled, hdone⟩ := hcalled
  have hchannel : (w₂.watchers (.signal id)).entries = [(n, .property e prop)] :=
    (congrArg Watchers.entries (hpopped.signal_kept id).2.2.1).trans hentries
  have hnotify := notify_single_run hchannel hcalled
  have hundisposed : (w₂.signal id).disposed = false := (hpopped.signal_kept id).1.trans hwatched.undisposed
  have hheld : w₁.isSignalHeld id = true := by
    have hstore : w₁.isStoreHeld e.store = true := by
      rw [he]
      exact hground.held
    exact w₁.isSignalHeld_of_owner hwatched.owner_eq hstore
  have hrun : (Effect.signal id).run w₁ = .ok () (w₂.reindex e).2 := by
    have hstep : (Effect.signal id).run w₁ = (if !(w₂.signal id).disposed then
        notify (.signal id) event else pure ()) w₂ := by
      simp only [Effect.run, bind_run, get_run, hheld, if_true, modify_run]
      rfl
    rw [hstep, hundisposed]
    exact hnotify
  have hback : (w₂.reindex e).2.popFrame = ((w.taken id).reindex e).2 := by
    rw [World.taken, ← htaken]
    rfl
  have hindexed' : Indexed own δ β (.whole ∅) ((w.taken id).reindex e).2 := by
    rw [← hback]
    exact hdone.context w.depth w.flushing w.frames w.pins
  refine ⟨?_, hindexed'⟩
  rw [← hindexed'.reap_eq, ← hback]
  exact untracked_run (w := { w with effects := rest }) hrun

end Store

end LiveGraph
