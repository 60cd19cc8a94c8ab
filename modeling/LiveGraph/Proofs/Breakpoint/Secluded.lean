import LiveGraph.Proofs.Breakpoint.Reading
import LiveGraph.Proofs.Focus.Holdings
import LiveGraph.Proofs.Snapshot.Restoring
import LiveGraph.Proofs.Snapshot.Updating

/-!
# A debug state by itself

A process that works on a debug state of its own has no listeners besides the focus, which lets go of what is
removed. What is changed there is heard of by nobody else, and at most one property is still to be told to the
store when a batch ends.
-/

namespace LiveGraph

namespace Breakpoint

open Act Focus World

/-- The index of sources is over what it should be over. -/
def sourceDefinitions : Definitions := fun _ ↦ some (sourceKind, sourceExtractor)

/-- Those who listen to a store from the first. -/
def ownListeners : Listeners :=
  { Store.empty.listeners with removed := Watchers.empty.add (.forget 0) }

/-- A debug state that nobody else has to do with, between two operations or within one. -/
structure Secluded (w : World) : Prop where
  editable : Editable (· = sourceIndex) sourceDefinitions w.background w
  focus : Sound w 0
  apart : ∀ slot j, (w.state 0).slot? slot = some j → w.Unheard j ∧ (w.signal j).owner = .state 0
  store_eq : (w.state 0).store = 0
  listeners_eq : (w.store 0).listeners = ownListeners

/-- At most one property is still to be told of. -/
def Owing (w : World) : Prop :=
  w.effects = [] ∨ ∃ id, w.effects = [.signal id] ∧ (w.signal id).watchers.entries ≠ []

/-- What an operation of the service leaves as it is, and how it leaves the debug state. -/
structure Worked (w w' : World) : Prop where
  secluded : Secluded w'
  owing : Owing w'
  background_eq : w'.background = w.background
  depth_eq : w'.depth = w.depth
  flushing_eq : w'.flushing = w.flushing

theorem Worked.trans {w w' w'' : World} (h : Worked w w') (h' : Worked w' w'') : Worked w w'' :=
  ⟨h'.secluded, h'.owing, h'.background_eq.trans h.background_eq, h'.depth_eq.trans h.depth_eq,
    h'.flushing_eq.trans h.flushing_eq⟩

theorem background_congr {w w' : World} (hsession : w'.session = w.session) (hstates : w'.states = w.states) :
    w'.background = w.background := by
  have hstate : ∀ id, w'.state id = w.state id := fun id ↦ by rw [World.state, hstates, World.state]
  rw [World.background, hsession, funext hstate, World.background]

namespace Secluded

variable {w w' : World} (h : Secluded w)
include h

theorem ground : Ground (fun _ ↦ False) w :=
  h.editable.indexed.ground

theorem clocks_eq : (w.store 0).clocks = ∅ :=
  h.editable.indexed.behind.noClocks

theorem ready (hcalm : w.Busy ∨ w.Idle) : Focus.Ready w 0 :=
  ⟨h.focus, hcalm.imp_right fun hidle ↦ ⟨hidle, fun slot j hj ↦ (h.apart slot j hj).1⟩⟩

theorem unheeded : Unheeded (· = sourceIndex) sourceDefinitions w.background w where
  toEditable := h.editable
  added_eq := congrArg (·.added.entries) h.listeners_eq
  edgeAdded_eq := congrArg (·.edgeAdded.entries) h.listeners_eq
  updated_eq := congrArg (·.updated.entries) h.listeners_eq

theorem stocked : Stocked 0 w :=
  h.unheeded.stocked

/-- A change that leaves the focus, which may be one of what debug states have besides that. -/
theorem changed (heditable : Editable (· = sourceIndex) sourceDefinitions w'.background w')
    (hstates : w'.states.size = w.states.size) (hslot : (w'.state 0).slot? = (w.state 0).slot?)
    (hstore : (w'.state 0).store = (w.state 0).store) (hle : w.signals.size ≤ w'.signals.size)
    (hsignal : ∀ slot j, (w.state 0).slot? slot = some j → w'.signal j = w.signal j)
    (hlisteners : (w'.store 0).listeners = (w.store 0).listeners) : Secluded w' := by
  refine ⟨heditable, ⟨hstates ▸ h.focus.state_lt, fun slot j hj ↦ ?_, fun slot j hj ↦ ?_,
    fun slot j hj ↦ ?_, hslot ▸ h.focus.injective⟩, fun slot j hj ↦ ?_, hstore.trans h.store_eq,
    hlisteners.trans h.listeners_eq⟩ <;> rw [hslot] at hj
  · exact Nat.lt_of_lt_of_le (h.focus.lt_size slot j hj) hle
  · rw [hsignal slot j hj]
    exact h.focus.undisposed slot j hj
  · rw [hsignal slot j hj]
    exact h.focus.equality_eq slot j hj
  · rw [World.Unheard, hsignal slot j hj]
    exact h.apart slot j hj

/-- A change of the store that has to do neither with the session nor with debug states. -/
theorem changed_store (heditable : Editable (· = sourceIndex) sourceDefinitions w.background w')
    (hsession : w'.session = w.session) (hstates : w'.states = w.states) (hle : w.signals.size ≤ w'.signals.size)
    (hsignal : ∀ slot j, (w.state 0).slot? slot = some j → w'.signal j = w.signal j)
    (hlisteners : (w'.store 0).listeners = (w.store 0).listeners) : Secluded w' := by
  have hstate : w'.state 0 = w.state 0 := by rw [World.state, hstates, World.state]
  exact h.changed ((background_congr hsession hstates).symm ▸ heditable) (hstates ▸ rfl) (hstate ▸ rfl) (hstate ▸ rfl)
    hle hsignal hlisteners

/-- What a debug state has besides its store and its focus is changed. -/
theorem restated {F : State → State} (hstore : ∀ s, (F s).store = s.store)
    (hroles : ∀ s, (F s).allRoles = s.allRoles) (hslot : ∀ s, (F s).slot? = s.slot?) :
    Secluded (w.modifyState 0 F) := by
  have hpart {α : Type} (part : State → α) (hF : ∀ s, part (F s) = part s) (id : StateId) :
      part ((w.modifyState 0 F).state id) = part (w.state id) := w.part_modifyState part hF 0 id
  have hsize : (w.modifyState 0 F).states.size = w.states.size := w.size_modifyState 0 F
  have hindexed := h.editable.indexed.aside w.session (w.modifyState 0 F).states w.pins
    ⟨Nat.lt_of_lt_of_eq h.ground.current.1 hsize.symm,
      (hpart (·.store) hstore w.session.current).trans h.ground.current.2⟩ (hpart State.allRoles hroles)
  exact h.changed (h.editable.unmoved hindexed (Nat.le_refl _) fun _ _ hcurrent ↦
    ⟨hcurrent, rfl, fun _ _ ↦ ⟨rfl, rfl, rfl⟩⟩) hsize (hpart State.slot? hslot 0) (hpart (·.store) hstore 0)
    (Nat.le_refl _) (fun _ _ _ ↦ rfl) rfl

/-- What acts under way hold, and how deep they are, is not of the debug state. -/
theorem context (d : Nat) (f : Bool) (frames : List Frame) (pins : List Pin) :
    Secluded { w with depth := d, flushing := f, frames := frames, pins := pins } :=
  h.changed_store (h.editable.context d f frames pins) rfl rfl (Nat.le_refl _) (fun _ _ _ ↦ rfl) rfl

theorem setDepth (d : Nat) : Secluded (w.setDepth d) :=
  h.context d w.flushing w.frames w.pins

/-- A change that has to do with nothing but entities. -/
theorem confined (hconfined : Confined w w')
    (heditable : Editable (· = sourceIndex) sourceDefinitions w.background w') : Secluded w' := by
  refine h.changed_store heditable hconfined.session_eq hconfined.states_eq hconfined.signals_le
    (fun slot j hj ↦ hconfined.signal_eq j (h.focus.lt_size slot j hj) fun e howner ↦ ?_) hconfined.listeners_eq
  rw [(h.apart slot j hj).2] at howner
  exact Owner.noConfusion howner

theorem grown (hgrown : Grown 0 w w') (howing : Owing w) : Worked w w' where
  secluded := h.confined hgrown.confined (hgrown.editable rfl _ _ _ h.editable)
  owing := by
    rw [Owing, hgrown.effects_eq]
    exact howing.imp_right fun ⟨id, heffects, hentries⟩ ↦ ⟨id, heffects, hgrown.confined.watched hentries⟩
  background_eq := background_congr hgrown.session_eq hgrown.states_eq
  depth_eq := hgrown.depth_eq
  flushing_eq := hgrown.flushing_eq

theorem property_ne_slot {e : EntityRef} {prop : String} {id : SignalId} (hid : w.HasProperty e prop id) :
    ¬IsSlot w 0 id := fun ⟨slot, hslot⟩ ↦ by
  have howner := (h.editable.indexed.tied.property e prop id hid).owner_eq
  rw [(h.apart slot id hslot).2] at howner
  exact Owner.noConfusion howner

/-- What some signals hold is changed, and the indices are right still. -/
theorem rewritten {P : SignalId → Prop} (ht : Touched P w w')
    (hindexed : Indexed (· = sourceIndex) sourceDefinitions w.background (.whole ∅) w') :
    Secluded w' ∧ w'.background = w.background := by
  have hpart : ∀ {α : Type} (part : Signal → α), (∀ s, part { s with value := .nil, notifying := false } = part s) →
      ∀ j, part (w'.signal j) = part (w.signal j) := fun part hpart j ↦ by
    rw [← hpart, ht.signal_eq, hpart]
  have hstores : ∀ s, w'.store s = w.store s := fun s ↦ by rw [World.store, ht.rewritten.stores_eq, World.store]
  have hentity := ht.rewritten.entity_eq
  have hbackground : w'.background = w.background := background_congr ht.rewritten.session_eq ht.rewritten.states_eq
  refine ⟨⟨h.editable.unmoved (hbackground ▸ hindexed) (Nat.le_of_eq ht.size_eq.symm) fun e he hcurrent ↦ ?_,
    h.focus.touched ht, fun slot j hj ↦ ?_, ht.state_eq 0 ▸ h.store_eq, hstores 0 ▸ h.listeners_eq⟩, hbackground⟩
  · rw [World.isCurrent, hstores, World.uriOf, hentity] at hcurrent
    exact ⟨hcurrent, hentity e, fun j _ ↦ ⟨hpart (·.disposed) (fun _ ↦ rfl) j, hpart (·.equality) (fun _ ↦ rfl) j,
      hpart (·.owner) (fun _ ↦ rfl) j⟩⟩
  · rw [ht.state_eq] at hj
    exact ⟨ht.unheard (h.apart slot j hj).1, (hpart (·.owner) (fun _ ↦ rfl) j).trans (h.apart slot j hj).2⟩

/-- What is done to the focus leaves all else. -/
theorem touched {P : SignalId → Prop} (hP : ∀ j, P j → IsSlot w 0 j) (ht : Touched P w w') :
    Secluded w' ∧ w'.background = w.background ∧ roster w' = roster w ∧ w.Quiet w' := by
  have hunheard : ∀ j, P j → w.Unheard j := fun j hj ↦ (hP j hj).elim fun slot hslot ↦ (h.apart slot j hslot).1
  obtain ⟨⟨signals, rfl⟩, hnotifying⟩ := ht.still hunheard
  let w' : World := { w with signals := signals }
  have hsize : w'.signals.size = w.signals.size := ht.size_eq
  have hpart : ∀ {α : Type} (part : Signal → α), (∀ s, part { s with value := .nil, notifying := false } = part s) →
      ∀ j, part (w'.signal j) = part (w.signal j) := fun part hpart j ↦ by
    rw [← hpart, ht.signal_eq, hpart]
  have hsteady : Steady w w' := by
    refine ⟨fun _ ↦ rfl, fun _ ↦ rfl, fun _ ↦ id, Nat.le_of_eq hsize.symm, fun j _ ↦ hpart (·.owner) (fun _ ↦ rfl) j,
      fun j _ ↦ hpart (·.disposed) (fun _ ↦ rfl) j, fun j _ ↦ hpart (·.watchers) (fun _ ↦ rfl) j,
      fun j _ hj ↦ .inl (hnotifying j ▸ hj), fun j _ hentries ↦ .inl (ht.value_eq j fun hj ↦ ?_), fun j hj ↦ ?_⟩
    · exact hentries (hunheard j hj).1
    · rw [World.signal_of_size_le _ (hsize.symm ▸ hj)]
      rfl
  have haloof : Aloof w w' :=
    ⟨rfl, rfl, Nat.le_of_eq hsize.symm, fun j _ ↦ hpart (·.owner) (fun _ ↦ rfl) j, id⟩
  have hindexed : Indexed (· = sourceIndex) sourceDefinitions w.background (.whole ∅) w' :=
    h.editable.indexed.steady ⟨.refl _, rfl, fun h ↦ ⟨h, rfl⟩, rfl, rfl, rfl, rfl⟩ hsteady haloof rfl (fun _ ↦ rfl) rfl
  refine ⟨(h.rewritten ht hindexed).1, (h.rewritten ht hindexed).2, ?_, ⟨rfl, rfl, rfl, rfl⟩⟩
  refine Alike.roster_eq (.signals rfl fun e prop id he hcurrent hid ↦ ht.value_eq id fun hj ↦ ?_) h.ground
    h.ground.coherent
  exact h.property_ne_slot ⟨h.editable.indexed.isLive he hcurrent, hid⟩ (hP id hj)

end Secluded

end Breakpoint

end LiveGraph

/-!
## Giving a source a path

A source without a path is given one within the batch that adds a breakpoint. Where it had a property for the path,
the store is told when the batch ends, and where it had none, at once. Either way the roster has the path at that
source.
-/

namespace LiveGraph.Breakpoint

open Act World

variable {w w' : World} {e : EntityRef} {v : Value}

/-- To write the path of an entity is to tag it. -/
theorem roster_retold {path : String} (h : Retold w w' e "path" (.str path)) (hcoherent : (w.store 0).Coherent)
    (hcoherent' : (w'.store 0).Coherent) (he : e.store = 0) (hcurrent : w.isCurrent e) :
    roster w' = (roster w).tagged (w.uriOf e) path := by
  have hbyAge := World.byAge_congr hcoherent hcoherent' fun e' he' ↦ by rw [h.isCurrent_eq e' he']
  have hproperty : ∀ e' : EntityRef, e'.store = 0 → w.isCurrent e' → ∀ prop',
      w'.property e' prop' = if e = e' ∧ "path" = prop' then .str path else w.property e' prop' :=
    fun e' he' hcurrent' prop' ↦ by
      rw [← World.getD_property?, h.property?_eq e' he' hcurrent']
      split
      · rfl
      · exact World.getD_property? ..
  have hitems : (w'.byAge 0).map (item w') =
      (w.byAge 0).map ((fun x : Item ↦ if x.uri = w.uriOf e then x.withPath path else x) ∘ item w) := by
    rw [hbyAge]
    refine List.map_congr_left fun e' he' ↦ ?_
    obtain ⟨hstore', hcurrent'⟩ := (World.mem_byAge hcoherent).mp he'
    have hsame := hproperty e' hstore' hcurrent'
    rw [item, h.uri_eq e' hstore' hcurrent', h.kind_eq e' hstore' hcurrent', hsame, hsame, hsame]
    by_cases heq : e = e'
    · subst heq
      simp [item, Item.withPath]
    · have huri : w.uriOf e' ≠ w.uriOf e := fun huri ↦
        heq (World.eq_of_isCurrent (he.trans hstore'.symm) hcurrent hcurrent' huri.symm)
      simp [item, heq, huri]
  refine Roster.ext ?_ (funext fun uri ↦ ?_)
  · rw [Roster.tagged, roster, roster, List.map_map]
    exact hitems
  · rw [Roster.tagged, roster, h.edges_eq, roster]

/-- Within a batch a property is written, or added and told to the store. -/
theorem Secluded.ends_set [Dispatch] (h : Secluded w) (heffects : w.effects = []) (hdepth : 0 < w.depth)
    (he : e.store = 0) (hcurrent : w.isCurrent e) (prop : String) (v : Value) :
    (Entity.set e prop v).Ends w fun r w' ↦ r = .ok () ∧ Worked w w' ∧ Retold w w' e prop v := by
  have hset := h.editable.ends_set h.unheeded.updated_eq hdepth he hcurrent prop v
  refine hset.mono fun r w' hw' ↦ ?_
  obtain ⟨hr, heditable, hwrote⟩ := hw'
  refine ⟨hr, ⟨h.confined hwrote.toConfined heditable, ?_, background_congr hwrote.session_eq hwrote.states_eq,
    hwrote.depth_eq, hwrote.flushing_eq⟩, hwrote.toRetold⟩
  have howing := hwrote.effects
  rwa [heffects] at howing

/-! ## What is told when the batch ends -/

theorem Owing.owes (h : Owing w) : w.Owes 1 := by
  rcases h with heffects | ⟨id, heffects, hentries⟩
  · exact ⟨heffects ▸ Nat.zero_le 1, fun effect heffect ↦ absurd (heffects ▸ heffect) List.not_mem_nil⟩
  · refine ⟨heffects ▸ Nat.le_refl 1, fun effect heffect ↦ ⟨id, ?_, hentries⟩⟩
    exact List.mem_singleton.mp (heffects ▸ heffect)

section Flush

variable [D : Dispatch] (hD : Deep D) (h : Secluded w) (hdepth : w.depth = 0) (hflushing : w.flushing = false)
include hD h hdepth hflushing

/-- A flush tells of what is still to be told of. -/
theorem Secluded.ends_flush (howing : Owing w) :
    flushOutside.Ends w fun _ w' ↦
      Worked w w' ∧ w'.effects = [] ∧ roster w' = roster w ∧ w'.find? 0 = w.find? 0 := by
  have hflush := h.editable.ends_flush hD h.unheeded.updated_eq hdepth hflushing howing.owes
    hD.rounds_pos
  refine hflush.mono fun _ w' hw' ↦ ?_
  obtain ⟨heditable, heffects, htaken⟩ := hw'
  refine ⟨⟨h.confined htaken.toConfined heditable, .inl heffects, background_congr htaken.session_eq htaken.states_eq,
    htaken.depth_eq, htaken.flushing_eq⟩, heffects, ?_, funext fun uri ↦ ?_⟩
  · rw [← rosterOf_contents, htaken.contents_eq, rosterOf_contents]
  · rw [World.find?, htaken.live_eq, World.find?]

omit h in
/-- A batch tells, at its end, of what is still to be told of. -/
theorem Secluded.ends_batch {α : Type} {a : Act α} {Q : α → Roster → (Uri → Option EntityRef) → Prop}
    (hbody : a.Ends (w.setDepth (w.depth + 1)) fun x w' ↦
      Worked (w.setDepth (w.depth + 1)) w' ∧ Q x (roster w') (w'.find? 0)) :
    (batch a).Ends w fun x w' ↦ Worked w w' ∧ w'.effects = [] ∧ Q x (roster w') (w'.find? 0) := by
  refine hbody.batch fun x w₁ hw₁ ↦ ?_
  obtain ⟨hworked, hQ⟩ := hw₁
  have hback : w₁.depth - 1 = w.depth := by
    rw [hworked.depth_eq, World.depth_setDepth, Nat.add_sub_cancel]
  rw [hback]
  have hsecluded : Secluded (w₁.setDepth w.depth) := hworked.secluded.setDepth _
  refine (hsecluded.ends_flush hD hdepth (hworked.flushing_eq.trans hflushing) hworked.owing).mono fun _ w' hw' ↦ ?_
  obtain ⟨hworked', heffects, hroster, hfind⟩ := hw'
  refine ⟨?_, heffects, ?_⟩
  · exact Worked.trans ⟨hsecluded, hworked.owing, hworked.background_eq, rfl, hworked.flushing_eq⟩ hworked'
  · rw [hroster, hfind]
    exact hQ

end Flush

end LiveGraph.Breakpoint
