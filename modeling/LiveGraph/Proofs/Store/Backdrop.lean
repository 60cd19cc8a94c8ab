import LiveGraph.Proofs.Reactive.Write
import LiveGraph.Proofs.Store.Callbacks

/-!
# Beside the store

Operations on a store change neither the session nor the debug states, a signal stays with its owner,
and no clock starts where nothing is evaluated. So what is known of a session by itself, and of the
signals that hold its roles, is known for as long as there are only such operations.
-/

namespace LiveGraph

/-- Two worlds with the same session and the same debug states, where every signal has the owner it
had and no clock was started. -/
structure Aloof (w w' : World) : Prop where
  session_eq : w'.session = w.session
  states_eq : w'.states = w.states
  signals_le : w.signals.size ≤ w'.signals.size
  owner_eq : ∀ id < w.signals.size, (w'.signal id).owner = (w.signal id).owner
  noClocks : (w.store 0).clocks = ∅ → (w'.store 0).clocks = ∅

namespace Aloof

theorem refl (w : World) : Aloof w w :=
  ⟨rfl, rfl, Nat.le_refl _, fun _ _ ↦ rfl, fun h ↦ h⟩

theorem trans {w w' w'' : World} (h : Aloof w w') (h' : Aloof w' w'') : Aloof w w'' where
  session_eq := h'.session_eq.trans h.session_eq
  states_eq := h'.states_eq.trans h.states_eq
  signals_le := Nat.le_trans h.signals_le h'.signals_le
  owner_eq id hid :=
    (h'.owner_eq id (Nat.lt_of_lt_of_le hid h.signals_le)).trans (h.owner_eq id hid)
  noClocks hnone := h'.noClocks (h.noClocks hnone)

theorem foldl {α : Type} {F : World → α → World} (h : ∀ (w : World) x, Aloof w (F w x))
    (w : World) (xs : List α) : Aloof w (xs.foldl F w) := by
  induction xs generalizing w with
  | nil => exact refl w
  | cons x xs ih => exact (h w x).trans (ih (F w x))

variable (w : World)

theorem modifySignal (id : SignalId) (F : Signal → Signal) (hF : ∀ s, (F s).owner = s.owner) :
    Aloof w (w.modifySignal id F) where
  session_eq := rfl
  states_eq := rfl
  signals_le := Nat.le_of_eq (w.size_modifySignal id F).symm
  owner_eq j _ := by
    rw [World.signal_modifySignal]
    split
    · exact hF _
    · rfl
  noClocks h := h

theorem addSignal (v : Value) (equality : Equality) (owner : Owner) :
    Aloof w (w.addSignal v equality owner).2 where
  session_eq := rfl
  states_eq := rfl
  signals_le := Nat.le_trans (Nat.le_succ _) (Nat.le_of_eq (w.size_addSignal v equality owner).symm)
  owner_eq j hj := by rw [World.signal_addSignal, if_neg (Nat.ne_of_lt hj)]
  noClocks h := h

theorem modifyStore (s : StoreId) (F : Store → Store)
    (hF : (w.store s).clocks = ∅ → (F (w.store s)).clocks = ∅) :
    Aloof w (w.modifyStore s F) where
  session_eq := rfl
  states_eq := rfl
  signals_le := Nat.le_refl _
  owner_eq _ _ := rfl
  noClocks h := by
    rw [World.store_modifyStore]
    split
    · rename_i hs
      obtain rfl := hs.1
      exact hF h
    · exact h

theorem deferSignal (id : SignalId) : Aloof w (w.deferSignal id) := by
  by_cases htold : ((w.signal id).watchers.isEmpty || (w.signal id).notifying) = true
  · rw [w.deferSignal_of_told htold]
    exact refl w
  · rw [w.deferSignal_of_untold htold]
    obtain ⟨hsession, hstates, hsize, howner, hnone⟩ :=
      modifySignal w id (fun s ↦ { s with notifying := true }) fun _ ↦ rfl
    exact ⟨hsession, hstates, hsize, howner, hnone⟩

theorem write (h : w.deriveds = #[]) (id : SignalId) (v : Value) : Aloof w (w.write id v) := by
  have hvalue := modifySignal w id (fun s ↦ { s with value := v }) fun _ ↦ rfl
  rw [w.write_of_noDeriveds h]
  exact hvalue.trans (deferSignal _ id)

theorem disposeSignal (id : SignalId) : Aloof w (w.disposeSignal id) := by
  unfold World.disposeSignal
  split
  · exact refl w
  · exact modifySignal w id _ fun _ ↦ rfl

theorem retire (e : EntityRef) : Aloof w (w.retire e) := by
  let w₁ := w.modifyEntity e fun x ↦ { x with live := false }
  have hflag : Aloof w w₁ := modifyStore w e.store _ fun h ↦ h
  have hprops := foldl disposeSignal w₁ (w.entity e).props.values
  exact (hflag.trans hprops).trans (disposeSignal _ (w.entity e).shape)

theorem addProperty (e : EntityRef) (prop : String) (v : Value) :
    Aloof w (w.addProperty e prop v).2 := by
  let w₁ := (w.addSignal v .same (.entity e)).2
  have hwatched := modifySignal w₁ w.signals.size
    (fun s ↦ { s with watchers := s.watchers.add (.property e prop) }) fun _ ↦ rfl
  exact ((addSignal w v .same (.entity e)).trans hwatched).trans
    (modifyStore _ e.store _ fun h ↦ h)

theorem addIncarnation (s : StoreId) (uri : Uri) (kind : String) :
    Aloof w (w.addIncarnation s uri kind).2 :=
  (addSignal w (.int 0) .same (.entity ⟨s, (w.store s).incarnations.size + 1⟩)).trans
    (modifyStore _ s _ fun h ↦ h)

theorem retireClocks (s : StoreId) (uri : Uri) : Aloof w (w.retireClocks s uri) := by
  unfold World.retireClocks
  dsimp only
  split
  all_goals
    refine modifyStore w s _ fun hnone ↦ ?_
    simp only [hnone]
    rfl

end Aloof

/-- A session and its debug states, but for the numbers that were given to breakpoints. -/
@[ext]
structure Background where
  session : Session
  states : StateId → State

def World.background (w : World) : Background :=
  ⟨w.session, fun id ↦ { w.state id with issued := 0 }⟩

/-- The signals that a debug state holds its roles in, and the one that would tell of a view if there
were none. -/
def World.Reserved (w : World) (signal : SignalId) : Prop :=
  signal = (default : View).version ∨
    ∃ id, ∃ roles ∈ (w.state id).allRoles, ∃ role, roles.get? role = some signal

/-- The background of a world without clocks, where no signal that is reserved is a property. -/
structure World.Behind (w : World) (β : Background) : Prop where
  background_eq : w.background = β
  owner_eq : ∀ signal, w.Reserved signal → ∃ id, (w.signal signal).owner = .state id
  noClocks : (w.store 0).clocks = ∅

theorem World.Behind.allRoles_eq {w : World} {β : Background} (h : w.Behind β) (id : StateId) :
    (w.state id).allRoles = (β.states id).allRoles := by
  rw [← h.background_eq]
  rfl

theorem World.Behind.aloof {w w' : World} {β : Background} (h : w.Behind β) (hw : Aloof w w') :
    w'.Behind β := by
  have hstate : ∀ id, w'.state id = w.state id := fun id ↦ by
    rw [World.state, hw.states_eq, World.state]
  refine ⟨?_, fun signal hreserved ↦ ?_, hw.noClocks h.noClocks⟩
  · rw [← h.background_eq, background, hw.session_eq, funext hstate, background]
  · rw [Reserved, funext hstate, ← Reserved] at hreserved
    obtain ⟨id, howner⟩ := h.owner_eq signal hreserved
    by_cases hlt : signal < w.signals.size
    · exact ⟨id, (hw.owner_eq signal hlt).trans howner⟩
    · rw [World.signal, Array.getD_eq_getD_getElem?,
        Array.getElem?_eq_none (Nat.le_of_not_lt hlt)] at howner
      exact Owner.noConfusion howner

end LiveGraph
