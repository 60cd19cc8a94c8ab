import LiveGraph.Proofs.Act.Agreement
import LiveGraph.Proofs.Reactive.Marking
import LiveGraph.Proofs.Reactive.Write

/-!
# Writing within a batch

Within a batch a write is carried out at once, as far as that goes: nothing is computed and nobody is told
before the batch ends. Signals of a table that are written independently of each other hold afterwards what
was written to them last.
-/

namespace LiveGraph

namespace World

/-- A batch or a flush is under way. -/
def Busy (w : World) : Prop :=
  0 < w.depth ∨ w.flushing = true

end World

namespace Act

variable {w : World}

/-- A flush has nothing to do within a batch, and is done by those who are about it within a flush. -/
theorem flushOutside_busy [Dispatch] (h : w.Busy) : flushOutside w = .ok () w := by
  by_cases hdepth : w.depth = 0
  · have hflushing : w.flushing = true := h.resolve_left (Nat.not_lt.mpr (Nat.le_of_eq hdepth))
    simp [flushOutside, flush, hdepth, hflushing]
  · simp [flushOutside, hdepth]

/-- A batch whose act comes to an end is that act, and a flush where one is due. -/
theorem batch_run [Dispatch] {α : Type} {a : Act α} {x : α} {w' : World}
    (h : a (w.setDepth (w.depth + 1)) = .ok x w') :
    batch a w = (do flushOutside; return x) (w'.setDepth (w'.depth - 1)) := by
  have hbody : a.followedBy (fun w ↦ { w with depth := w.depth - 1 }) (w.setDepth (w.depth + 1)) =
      .ok x (w'.setDepth (w'.depth - 1)) := by
    simp only [followedBy, h]
    rfl
  have hmodify : { w with depth := w.depth + 1 } = w.setDepth (w.depth + 1) := rfl
  simp only [batch, bind_run, modify_run, hmodify, hbody]

/-- A batch comes to an end where its act does, and the flush where one is due. -/
theorem Ends.batch [Dispatch] {α : Type} {a : Act α} {P Q : α → World → Prop}
    (h : a.Ends (w.setDepth (w.depth + 1)) P)
    (hflush : ∀ x w', P x w' → flushOutside.Ends (w'.setDepth (w'.depth - 1)) fun _ ↦ Q x) :
    (batch a).Ends w Q := by
  obtain ⟨x, w', hrun, hx⟩ := h
  rw [Ends, batch_run hrun]
  exact (hflush x w' hx).bind fun _ _ hQ ↦ ends_pure hQ

/-- A write within a batch is carried out at once, as far as that goes. -/
theorem set_in_batch [Dispatch] {id : SignalId} (hundisposed : (w.signal id).disposed = false)
    (hdepth : 0 < w.depth) (v : Value) : Signal.set id v w = .ok (.ok ()) (w.assigned id v) := by
  by_cases hsame : (w.signal id).equality.holds (.value (w.signal id).value) (.value v) = true
  · simp only [Signal.set, World.assigned, bind_run, get_run, hundisposed, hsame, Bool.false_eq_true, if_false,
      if_true, Bool.or_true, pure_run]
  · have hbody : (modify (·.write id v) : Act PUnit) (w.setDepth (w.depth + 1)) =
        .ok ⟨⟩ ((w.write id v).setDepth (w.depth + 1)) := by
      rw [modify_run, World.write_setDepth]
    have hdone : ((w.write id v).setDepth (w.depth + 1)).setDepth w.depth = w.write id v := by
      rw [World.setDepth_setDepth, ← World.depth_write w id v, World.setDepth_depth]
    have hflush : flushOutside (w.write id v) = .ok () (w.write id v) :=
      flushOutside_busy (.inl (by rw [World.depth_write]; exact hdepth))
    have hbatch : batch (modify (·.write id v)) w = .ok ⟨⟩ (w.write id v) := by
      rw [batch_run hbody, World.depth_setDepth, Nat.add_sub_cancel, hdone]
      simp only [bind_run, hflush, pure_run]
    simp only [Signal.set, World.assigned, bind_run, get_run, hundisposed, hsame, Bool.false_eq_true, if_false,
      Bool.or_self, hbatch, pure_run]

end Act

namespace World

variable (w : World)

@[simp] theorem size_write (id : SignalId) (v : Value) :
    (w.write id v).signals.size = w.signals.size := by
  obtain ⟨_, _, hmark⟩ := foldl_markStale_eq (w.modifySignal id fun s ↦ { s with value := v })
    ((w.modifySignal id fun s ↦ { s with value := v }).observersOf (.signal id))
  have hsize : ((w.modifySignal id fun s ↦ { s with value := v }).markObservers (.signal id)).signals.size =
      w.signals.size := by
    rw [markObservers, hmark]
    exact w.size_modifySignal id _
  rw [write, ← hsize]
  generalize (w.modifySignal id fun s ↦ { s with value := v }).markObservers (.signal id) = w₁
  by_cases h : ((w₁.signal id).watchers.isEmpty || (w₁.signal id).notifying) = true
  · rw [deferSignal_of_told w₁ h]
  · rw [deferSignal_of_untold w₁ h]
    exact w₁.size_modifySignal id _

@[simp] theorem size_assigned (id : SignalId) (v : Value) :
    (w.assigned id v).signals.size = w.signals.size := by
  rcases w.assigned_cases id v with h | ⟨-, h⟩
  · rw [h]
  · rw [h, size_write]

/-- A write is to one signal. -/
theorem valueOf_write (id : SignalId) (v : Value) (j : SignalId) :
    (w.write id v).valueOf j = if id = j ∧ j < w.signals.size then v else w.valueOf j := by
  obtain ⟨_, _, hmark⟩ := foldl_markStale_eq (w.modifySignal id fun s ↦ { s with value := v })
    ((w.modifySignal id fun s ↦ { s with value := v }).observersOf (.signal id))
  have hmarked : ((w.modifySignal id fun s ↦ { s with value := v }).markObservers (.signal id)).signal j =
      (w.modifySignal id fun s ↦ { s with value := v }).signal j := by
    rw [markObservers, hmark]
    rfl
  calc
    (w.write id v).valueOf j
      = (((w.modifySignal id fun s ↦ { s with value := v }).markObservers (.signal id)).signal j).value :=
        part_deferSignal _ id Signal.value (fun _ ↦ rfl) j
    _ = ((w.modifySignal id fun s ↦ { s with value := v }).signal j).value := congrArg Signal.value hmarked
    _ = if id = j ∧ j < w.signals.size then v else w.valueOf j := by
        rw [signal_modifySignal]
        split <;> rfl

/-- What is written to a signal that takes it is what it holds afterwards. -/
theorem valueOf_assigned {id : SignalId} (hlt : id < w.signals.size) (hundisposed : (w.signal id).disposed = false)
    (hequality : (w.signal id).equality = .same) (v : Value) (j : SignalId) :
    (w.assigned id v).valueOf j = if id = j then v else w.valueOf j := by
  unfold assigned
  simp only [hundisposed, hequality, Equality.holds, Bool.false_or, decide_eq_true_eq, Datum.value.injEq]
  by_cases hsame : (w.signal id).value = v
  · rw [if_pos hsame]
    by_cases hj : id = j
    · rw [if_pos hj, ← hj]
      exact hsame
    · rw [if_neg hj]
  · rw [if_neg hsame, valueOf_write]
    by_cases hj : id = j
    · rw [if_pos ⟨hj, hj ▸ hlt⟩, if_pos hj]
    · rw [if_neg fun hand ↦ hj hand.1, if_neg hj]

/-- Nobody is told of a write to the signal, and nothing is computed after it. -/
def Unheard (w : World) (signal : SignalId) : Prop :=
  (w.signal signal).watchers.entries = [] ∧ (w.signal signal).observers = []

/-- A write to an unheard signal is nothing more. -/
theorem write_of_unheard {id : SignalId} (h : w.Unheard id) (v : Value) :
    w.write id v = w.modifySignal id fun s ↦ { s with value := v } := by
  let w₁ := w.modifySignal id fun s ↦ { s with value := v }
  have hobservers : w₁.observersOf (.signal id) = [] := by
    rw [observersOf_modifySignal]
    · exact h.2
    · exact fun _ ↦ rfl
  have hmarked : w₁.markObservers (.signal id) = w₁ := by
    rw [markObservers, hobservers]
    rfl
  have hwatchers : ((w₁.signal id).watchers.isEmpty || (w₁.signal id).notifying) = true := by
    have hnone : (w₁.signal id).watchers = (w.signal id).watchers :=
      w.part_modifySignal (f := fun s ↦ { s with value := v }) Signal.watchers (fun _ ↦ rfl) id id
    rw [hnone, Watchers.isEmpty, h.1]
    rfl
  change (w₁.markObservers (.signal id)).deferSignal id = w₁
  rw [hmarked, deferSignal_of_told w₁ hwatchers]

/-- Two worlds that differ at most in what signals and derived values are, and in what waits. -/
def Rewritten (w w' : World) : Prop :=
  ∃ signals deriveds queue effects, w' =
    { w with signals := signals, deriveds := deriveds, queue := queue, effects := effects }

namespace Rewritten

theorem refl : w.Rewritten w :=
  ⟨w.signals, w.deriveds, w.queue, w.effects, rfl⟩

variable {w} {w' w'' : World}

theorem trans (h : w.Rewritten w') (h' : w'.Rewritten w'') : w.Rewritten w'' := by
  obtain ⟨_, _, _, _, rfl⟩ := h
  obtain ⟨signals, deriveds, queue, effects, rfl⟩ := h'
  exact ⟨signals, deriveds, queue, effects, rfl⟩

theorem assigned (w : World) (id : SignalId) (v : Value) : w.Rewritten (w.assigned id v) := by
  rcases w.assigned_cases id v with h | ⟨-, h⟩
  · rw [h]
    exact refl w
  · rw [h]
    exact w.write_eq id v

theorem setDepth (h : w.Rewritten w') (d : Nat) : (w.setDepth d).Rewritten (w'.setDepth d) := by
  obtain ⟨signals, deriveds, queue, effects, rfl⟩ := h
  exact ⟨signals, deriveds, queue, effects, rfl⟩

variable (h : w.Rewritten w')
include h

theorem depth_eq : w'.depth = w.depth := by
  obtain ⟨_, _, _, _, rfl⟩ := h
  rfl

theorem flushing_eq : w'.flushing = w.flushing := by
  obtain ⟨_, _, _, _, rfl⟩ := h
  rfl

theorem stores_eq : w'.stores = w.stores := by
  obtain ⟨_, _, _, _, rfl⟩ := h
  rfl

theorem states_eq : w'.states = w.states := by
  obtain ⟨_, _, _, _, rfl⟩ := h
  rfl

theorem session_eq : w'.session = w.session := by
  obtain ⟨_, _, _, _, rfl⟩ := h
  rfl

theorem entity_eq (e : EntityRef) : w'.entity e = w.entity e := by
  obtain ⟨_, _, _, _, rfl⟩ := h
  rfl

end Rewritten

/-- The signals of a table take every value that is written to them, and no two names share one. -/
structure Separate (w : World) (table : Std.TreeMap String SignalId) : Prop where
  lt_size : ∀ name id, table.get? name = some id → id < w.signals.size
  undisposed : ∀ name id, table.get? name = some id → (w.signal id).disposed = false
  equality_eq : ∀ name id, table.get? name = some id → (w.signal id).equality = .same
  injective : ∀ name name' id, table.get? name = some id → table.get? name' = some id → name = name'

/-- What the signal under a name holds, if there is one. -/
def held (w : World) (table : Std.TreeMap String SignalId) (name : String) : Option Value :=
  (table.get? name).map w.valueOf

namespace Separate

variable {w} {table : Std.TreeMap String SignalId} {name : String} {id : SignalId} (h : w.Separate table)
include h

theorem assigned (id : SignalId) (v : Value) : (w.assigned id v).Separate table := by
  rcases w.assigned_cases id v with heq | ⟨-, heq⟩
  · rwa [heq]
  · rw [heq]
    refine ⟨fun name j hj ↦ ?_, fun name j hj ↦ ?_, fun name j hj ↦ ?_, h.injective⟩
    · rw [size_write]
      exact h.lt_size name j hj
    · rw [← h.undisposed name j hj]
      exact w.part_write id v Signal.disposed (fun _ _ _ ↦ rfl) j
    · rw [← h.equality_eq name j hj]
      exact w.part_write id v Signal.equality (fun _ _ _ ↦ rfl) j

theorem setDepth (d : Nat) : (w.setDepth d).Separate table :=
  ⟨h.lt_size, h.undisposed, h.equality_eq, h.injective⟩

/-- A signal holds what was written to it, all others what they held. -/
theorem held_assigned (hid : table.get? name = some id) (v : Value) (name' : String) :
    (w.assigned id v).held table name' = if name' = name then some v else w.held table name' := by
  have hvalue := w.valueOf_assigned (h.lt_size name id hid) (h.undisposed name id hid)
    (h.equality_eq name id hid) v
  by_cases hname : name' = name
  · rw [if_pos hname, held, hname, hid, Option.map_some, hvalue, if_pos rfl]
  · rw [if_neg hname, held, held]
    cases hj : table.get? name' with
    | none => rfl
    | some j =>
      have hne : id ≠ j := fun heq ↦ hname (h.injective name' name j hj (heq ▸ hid))
      rw [Option.map_some, Option.map_some, hvalue, if_neg hne]

end Separate

end World

end LiveGraph
