import LiveGraph.Proofs.Network.History
import LiveGraph.Proofs.Network.Glancing
import LiveGraph.Proofs.Network.Settling
import LiveGraph.Proofs.Network.Telling
import LiveGraph.Proofs.Reactive.Write

/-!
# Batches without glitches

An outermost batch of writes, after any history. When it is finished the queue is worked off, and then the
callbacks are told. A derived value is computed once at most, from values that are there in the end, and its
callbacks are told once if it has another value than before.

## Writing in a batch

Code that only reads and writes signals, within a batch, comes to the same end whatever callbacks and derived
values are. Until the batch is finished nothing is computed and nobody is told: derived values are marked, and
those who watch signals wait.
-/

namespace LiveGraph.Network

open Act

/-- What is left alone by writes within a batch. -/
structure Marked (w w' : World) : Prop extends w.Level w' where
  derived_eq : ∀ d, { w'.derived d with stale := false } = { w.derived d with stale := false }
  watchers_eq : ∀ id, (w'.signal id).watchers = (w.signal id).watchers
  effects : ∀ id, .derived id ∈ w'.effects → .derived id ∈ w.effects
  session_eq : w'.session = w.session

variable {net : Network} {w w' w'' : World}

namespace Marked

theorem refl (w : World) : Marked w w :=
  ⟨.refl w, fun _ ↦ rfl, fun _ ↦ rfl, fun _ h ↦ h, rfl⟩

theorem trans (h : Marked w w') (h' : Marked w' w'') : Marked w w'' :=
  ⟨h.toLevel.trans h'.toLevel, fun d ↦ (h'.derived_eq d).trans (h.derived_eq d),
    fun id ↦ (h'.watchers_eq id).trans (h.watchers_eq id), fun id hid ↦ h.effects id (h'.effects id hid),
    h'.session_eq.trans h.session_eq⟩

theorem write (w : World) (id : SignalId) (v : Value) : Marked w (w.write id v) := by
  obtain ⟨_, _, _, _, heq⟩ := w.write_eq id v
  refine ⟨?_, fun d ↦ ?_, fun j ↦ ?_, fun j hj ↦ ?_, ?_⟩
  · rw [heq]
    exact ⟨rfl, rfl, rfl, rfl⟩
  · rw [w.derived_write id v]
  · apply w.part_write id v Signal.watchers
    exact fun _ _ _ ↦ rfl
  · exact (w.mem_effects_write id v hj).resolve_right Effect.noConfusion
  · rw [heq]

/-- The same at other depths. -/
theorem setDepth {d : Nat} (h : Marked (w.setDepth d) w') : Marked w (w'.setDepth w.depth) :=
  ⟨⟨rfl, h.flushing_eq, h.frames_eq, h.pins_eq⟩, h.derived_eq, h.watchers_eq, h.effects, h.session_eq⟩

end Marked

theorem Sound.assigned (h : net.Sound none w) (id : SignalId) (v : Value) : net.Sound none (w.assigned id v) := by
  unfold World.assigned
  dsimp only
  split
  · exact h
  · exact h.write id v

theorem Marked.assigned (w : World) (id : SignalId) (v : Value) : Marked w (w.assigned id v) := by
  unfold World.assigned
  dsimp only
  split
  · exact .refl w
  · exact .write w id v

end LiveGraph.Network

/-! ## Outermost batches -/

namespace LiveGraph.Network

open Act

variable {net : Network} {react : String → Event → Client Use} {w w' w₁ w₂ w₃ : World} {n : Nat}

namespace Marked

variable (h : Marked w w')
include h

theorem value_eq (d : DerivedId) : (w'.derived d).value = (w.derived d).value :=
  (congrArg Derived.value (h.derived_eq d) :)

end Marked

end LiveGraph.Network
