import LiveGraph.Focus.Basic
import LiveGraph.Proofs.Reactive.Within

/-!
# The signals of a focus

A debug state keeps its focus in signals: one for each role, for all and in every scope that has roles of its
own, one for what such a scope owns, and one that counts the scopes. Where each of these is a signal of its own
that takes what is written to it, and a write is told to nobody at once, whatever is done to the focus comes to
an end, and no other signals are changed than those it is about.
-/

namespace LiveGraph

/-- What a signal of a focus is for: a role, for all or in a scope, what a scope owns, or the number of
scopes. -/
inductive Focus.Slot
  | role (scope : Option String) (name : String)
  | owned (scope : String)
  | scopes

namespace State

/-- The roles of a scope that has some, or those that hold for all. -/
def rolesOf? (s : State) : Option String → Option Roles
  | none => some s.roles
  | some scope => (s.overrides.get? scope).map (·.roles)

def slot? (s : State) : Focus.Slot → Option SignalId
  | .role scope name => (s.rolesOf? scope).bind (·.get? name)
  | .owned scope => (s.overrides.get? scope).map (·.ownedFrom)
  | .scopes => some s.scopes

variable {s : State} {scope : String} {own : Override}

theorem slot?_role (h : s.overrides.get? scope = some own) (name : String) :
    s.slot? (.role (some scope) name) = own.roles.get? name := by
  simp only [slot?, rolesOf?, h, Option.map_some, Option.bind_some]

theorem slot?_owned (h : s.overrides.get? scope = some own) : s.slot? (.owned scope) = some own.ownedFrom := by
  simp only [slot?, h, Option.map_some]

end State

namespace World

/-- Two worlds that differ in what some signals hold, and in what follows from that. -/
structure Touched (P : SignalId → Prop) (w w' : World) : Prop where
  rewritten : w.Rewritten w'
  size_eq : w'.signals.size = w.signals.size
  signal_eq : ∀ j, { w'.signal j with value := .nil, notifying := false } =
    { w.signal j with value := .nil, notifying := false }
  value_eq : ∀ j, ¬P j → w'.valueOf j = w.valueOf j
  waits_eq : (∀ j, P j → w.Unheard j) → w'.queue = w.queue ∧ w'.effects = w.effects
  still : (∀ j, P j → w.Unheard j) →
    (∃ signals, w' = { w with signals := signals }) ∧ ∀ j, (w'.signal j).notifying = (w.signal j).notifying

namespace Touched

variable {P P' : SignalId → Prop} {w w' w'' : World}

theorem refl (P : SignalId → Prop) (w : World) : Touched P w w :=
  ⟨.refl w, rfl, fun _ ↦ rfl, fun _ _ ↦ rfl, fun _ ↦ ⟨rfl, rfl⟩, fun _ ↦ ⟨⟨w.signals, rfl⟩, fun _ ↦ rfl⟩⟩

theorem mono (h : Touched P w w') (hP : ∀ j, P j → P' j) : Touched P' w w' :=
  ⟨h.rewritten, h.size_eq, h.signal_eq, fun j hj ↦ h.value_eq j fun hp ↦ hj (hP j hp),
    fun hunheard ↦ h.waits_eq fun j hj ↦ hunheard j (hP j hj),
    fun hunheard ↦ h.still fun j hj ↦ hunheard j (hP j hj)⟩

/-- Who is told of a signal stays the same. -/
theorem unheard (h : Touched P w w') {j : SignalId} (hj : w.Unheard j) : w'.Unheard j :=
  ⟨(congrArg (·.watchers.entries) (h.signal_eq j)).trans hj.1,
    (congrArg Signal.observers (h.signal_eq j)).trans hj.2⟩

theorem trans (h : Touched P w w') (h' : Touched P w' w'') : Touched P w w'' where
  rewritten := h.rewritten.trans h'.rewritten
  size_eq := h'.size_eq.trans h.size_eq
  signal_eq j := (h'.signal_eq j).trans (h.signal_eq j)
  value_eq j hj := (h'.value_eq j hj).trans (h.value_eq j hj)
  waits_eq hunheard := by
    obtain ⟨hqueue, heffects⟩ := h.waits_eq hunheard
    obtain ⟨hqueue', heffects'⟩ := h'.waits_eq fun j hj ↦ h.unheard (hunheard j hj)
    exact ⟨hqueue'.trans hqueue, heffects'.trans heffects⟩
  still hunheard := by
    obtain ⟨⟨_, rfl⟩, hnotifying⟩ := h.still hunheard
    obtain ⟨⟨signals, rfl⟩, hnotifying'⟩ := h'.still fun j hj ↦ h.unheard (hunheard j hj)
    exact ⟨⟨signals, rfl⟩, fun j ↦ (hnotifying' j).trans (hnotifying j)⟩

theorem assigned (w : World) (id : SignalId) (v : Value) : Touched (· = id) w (w.assigned id v) := by
  rcases w.assigned_cases id v with heq | ⟨-, heq⟩
  · rw [heq]
    exact refl _ w
  · rw [heq]
    refine ⟨w.write_eq id v, w.size_write id v, fun j ↦ ?_, fun j hj ↦ ?_, fun h ↦ ?_, fun h ↦ ?_⟩
    · exact w.part_write id v (fun s ↦ { s with value := .nil, notifying := false }) (fun _ _ _ ↦ rfl) j
    · rw [w.valueOf_write, if_neg fun hand ↦ hj hand.1.symm]
    · rw [w.write_of_unheard (h id rfl)]
      exact ⟨rfl, rfl⟩
    · rw [w.write_of_unheard (h id rfl)]
      exact ⟨⟨_, rfl⟩, w.part_modifySignal (·.notifying) (by intro; rfl) id⟩

/-- What is changed within a batch is what is changed by it. -/
theorem setDepth {d : Nat} (h : Touched P (w.setDepth d) w') : Touched P w (w'.setDepth w.depth) :=
  ⟨h.rewritten.setDepth w.depth, h.size_eq, h.signal_eq, h.value_eq, h.waits_eq, fun hunheard ↦ by
    obtain ⟨⟨signals, rfl⟩, hnotifying⟩ := h.still hunheard
    exact ⟨⟨signals, rfl⟩, hnotifying⟩⟩

theorem state_eq (h : Touched P w w') (id : StateId) : w'.state id = w.state id := by
  rw [World.state, h.rewritten.states_eq, World.state]

end Touched

end World

namespace Focus

/-- The signals of a focus can be written independently of each other. -/
structure Sound (w : World) (id : StateId) : Prop where
  state_lt : id < w.states.size
  lt_size : ∀ slot j, (w.state id).slot? slot = some j → j < w.signals.size
  undisposed : ∀ slot j, (w.state id).slot? slot = some j → (w.signal j).disposed = false
  equality_eq : ∀ slot j, (w.state id).slot? slot = some j → (w.signal j).equality = .same
  injective : ∀ slot slot' j, (w.state id).slot? slot = some j → (w.state id).slot? slot' = some j → slot = slot'

/-- Besides, a write to them is not told at once: because a batch or a flush is under way, or because there is
nobody to be told. -/
structure Ready (w : World) (id : StateId) : Prop extends Sound w id where
  calm : w.Busy ∨ w.Idle ∧ ∀ slot j, (w.state id).slot? slot = some j → w.Unheard j

/-- A signal of a focus. -/
def IsSlot (w : World) (id : StateId) (j : SignalId) : Prop :=
  ∃ slot, (w.state id).slot? slot = some j

/-- Whether a signal is for a scope, or for all. -/
def Slot.IsOf (target : Option String) : Slot → Prop
  | role scope _ => scope = target
  | owned scope => some scope = target
  | scopes => False

/-- A signal of a focus that is for a scope, or for all. -/
def Of (w : World) (id : StateId) (target : Option String) (j : SignalId) : Prop :=
  ∃ slot : Slot, slot.IsOf target ∧ (w.state id).slot? slot = some j

theorem Of.isSlot {w : World} {id : StateId} {target : Option String} {j : SignalId} (h : Of w id target j) :
    IsSlot w id j := by
  obtain ⟨slot, -, hslot⟩ := h
  exact ⟨slot, hslot⟩

open World Act

variable {w w' : World} {id : StateId} {P : SignalId → Prop}

/-- It depends on nothing but where the signals of the focus are and of what kind they are. -/
theorem Sound.congr (h : Sound w id) (hstates : w'.states = w.states) (hsize : w'.signals.size = w.signals.size)
    (hdisposed : ∀ j, (w'.signal j).disposed = (w.signal j).disposed)
    (hequality : ∀ j, (w'.signal j).equality = (w.signal j).equality) : Sound w' id := by
  have hstate : w'.state id = w.state id := by rw [World.state, hstates, World.state]
  refine ⟨hstates ▸ h.state_lt, fun slot j hj ↦ ?_, fun slot j hj ↦ ?_, fun slot j hj ↦ ?_,
    fun slot slot' j hj hj' ↦ h.injective slot slot' j (hstate ▸ hj) (hstate ▸ hj')⟩
  · exact hsize ▸ h.lt_size slot j (hstate ▸ hj)
  · exact (hdisposed j).trans (h.undisposed slot j (hstate ▸ hj))
  · exact (hequality j).trans (h.equality_eq slot j (hstate ▸ hj))

theorem Sound.touched (h : Sound w id) (ht : Touched P w w') : Sound w' id :=
  h.congr ht.rewritten.states_eq ht.size_eq (fun j ↦ (congrArg Signal.disposed (ht.signal_eq j) :))
    fun j ↦ (congrArg Signal.equality (ht.signal_eq j) :)

namespace Ready

theorem touched (h : Ready w id) (ht : Touched P w w') (hP : ∀ j, P j → IsSlot w id j) : Ready w' id := by
  refine ⟨h.toSound.touched ht, ?_⟩
  rcases h.calm with hbusy | ⟨hidle, hunheard⟩
  · exact .inl (hbusy.imp (fun hdepth ↦ ht.rewritten.depth_eq ▸ hdepth) fun hf ↦ ht.rewritten.flushing_eq.trans hf)
  · obtain ⟨hqueue, heffects⟩ := ht.waits_eq fun j hj ↦ (hP j hj).elim fun slot hslot ↦ hunheard slot j hslot
    refine .inr ⟨fun hdepth hflushing ↦ ?_, fun slot j hj ↦ ?_⟩
    · rw [hqueue, heffects]
      exact hidle (ht.rewritten.depth_eq ▸ hdepth) (ht.rewritten.flushing_eq ▸ hflushing)
    · rw [ht.state_eq] at hj
      exact ht.unheard (hunheard slot j hj)

/-- Within a batch everything stays ready for more. -/
theorem within (h : Ready w id) (d : Nat) : Ready (w.setDepth (d + 1)) id :=
  ⟨⟨h.state_lt, h.lt_size, h.undisposed, h.equality_eq, h.injective⟩, .inl (.inl (Nat.succ_pos d))⟩

section Run

variable [Dispatch] (hrounds : 0 < Dispatch.rounds)
include hrounds

/-- Nothing is left to a flush. -/
theorem flush (h : Ready w id) : flushOutside w = .ok () w := by
  rcases h.calm with hbusy | ⟨hidle, -⟩
  · exact flushOutside_busy hbusy
  · exact flushOutside_idle hidle hrounds

/-- A batch of changes to signals of the focus is these changes. -/
theorem ends_batch (h : Ready w id) {α : Type} {a : Act α} {Q : α → World → Prop} (hP : ∀ j, P j → IsSlot w id j)
    (hbody : a.Ends (w.setDepth (w.depth + 1)) fun x w' ↦ Touched P (w.setDepth (w.depth + 1)) w' ∧ Q x w')
    (hQ : ∀ x w' d, Q x w' → Q x (w'.setDepth d)) : (batch a).Ends w fun x w' ↦ Touched P w w' ∧ Q x w' := by
  refine hbody.batch fun x w' hx ↦ ?_
  have hback : w'.setDepth (w'.depth - 1) = w'.setDepth w.depth := by
    rw [hx.1.rewritten.depth_eq, depth_setDepth, Nat.add_sub_cancel]
  have htouched : Touched P w (w'.setDepth w.depth) := hx.1.setDepth
  rw [hback]
  exact ⟨(), _, (h.touched htouched hP).flush hrounds, htouched, hQ x w' w.depth hx.2⟩

/-- A signal of the focus holds what is written to it. -/
theorem ends_set (h : Ready w id) {j : SignalId} (hj : IsSlot w id j) (v : Value) :
    (Signal.set j v).Ends w fun r w' ↦ r = .ok () ∧ Touched (· = j) w w' ∧ w'.valueOf j = v := by
  obtain ⟨slot, hslot⟩ := hj
  have hundisposed := h.undisposed slot j hslot
  have hvalue := w.valueOf_assigned (h.lt_size slot j hslot) hundisposed (h.equality_eq slot j hslot) v j
  rw [if_pos rfl] at hvalue
  by_cases hsame : (w.signal j).equality.holds (.value (w.signal j).value) (.value v) = true
  · refine ⟨.ok (), w.assigned j v, ?_, rfl, .assigned w j v, hvalue⟩
    simp only [Signal.set, World.assigned, bind_run, get_run, hundisposed, hsame, Bool.false_eq_true, if_false,
      if_true, Bool.or_true, pure_run]
  · have hwritten : ¬((w.signal j).disposed ||
        (w.signal j).equality.holds (.value (w.signal j).value) (.value v)) = true := by
      simp [hundisposed, hsame]
    have hassigned : ∀ d, (w.setDepth d).assigned j v = (w.setDepth d).write j v := fun d ↦ if_neg hwritten
    have hbatch : (batch (modify (·.write j v))).Ends w fun _ w' ↦
        Touched (· = j) w w' ∧ w'.valueOf j = v := by
      refine h.ends_batch hrounds (fun i hi ↦ hi ▸ ⟨slot, hslot⟩) (ends_modify ?_) fun _ _ _ hv ↦ hv
      rw [← hassigned]
      refine ⟨.assigned _ j v, ?_⟩
      rw [World.assigned_setDepth]
      exact hvalue
    refine ends_get ?_
    simp only [hundisposed, hsame, Bool.false_eq_true, if_false]
    exact hbatch.bind fun _ _ hw' ↦ ends_pure ⟨rfl, hw'⟩

end Run

end Ready

end Focus

end LiveGraph
