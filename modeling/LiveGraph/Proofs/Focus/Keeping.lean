import LiveGraph.Proofs.Focus.Isolation

/-!
# What calls on a focus keep

The calls on a focus consist of a few steps: a write to one of its signals, to ask for the roles of a scope, and
to open and close a batch. What each of these keeps is kept by every call, by all that is called one after the
other, and in the middle of a call.
-/

namespace LiveGraph

namespace Act

variable {α : Type} {a : Act α} {w : World} {P Q : α → World → Prop}

/-- What is known twice of an act holds of its one end. -/
theorem Ends.and (hP : a.Ends w P) (hQ : a.Ends w Q) : a.Ends w fun x w' ↦ P x w' ∧ Q x w' := by
  obtain ⟨x, w', hrun, hP⟩ := hP
  obtain ⟨x', w'', hrun', hQ⟩ := hQ
  obtain ⟨rfl, rfl⟩ : x = x' ∧ w' = w'' := by
    rw [hrun] at hrun'
    cases hrun'
    exact ⟨rfl, rfl⟩
  exact ⟨x, w', hrun, hP, hQ⟩

end Act

namespace Focus

open World Act

/-- A condition still holds, the debug state is the same, and so is the number of open batches. -/
structure Kept (id : StateId) (I : World → Prop) (w w' : World) : Prop where
  holds : I w'
  state_eq : w'.state id = w.state id
  depth_eq : w'.depth = w.depth

/-- A condition that is kept by the steps which the calls on a focus consist of, as long as so many batches stay
open. -/
structure Keeps [Dispatch] (id : StateId) (d : Nat) (I : World → Prop) : Prop where
  le_depth : ∀ {w}, I w → d ≤ w.depth
  set : ∀ {w j} v, I w → IsSlot w id j → (Signal.set j v).Ends w fun _ w' ↦ Kept id I w w'
  override : ∀ {w} scope, I w → (override id scope).Ends w fun own w' ↦
    I w' ∧ (w'.state id).overrides.get? scope = some own ∧ w'.depth = w.depth
  enter : ∀ {w}, I w → I (w.setDepth (w.depth + 1))
  leave : ∀ {w}, I w → d < w.depth → flushOutside.Ends (w.setDepth (w.depth - 1)) fun _ w' ↦
    Kept id I (w.setDepth (w.depth - 1)) w'

variable {id : StateId} {d : Nat} {I : World → Prop} {w w' w'' : World} {roles : Roles}

namespace Kept

theorem refl (h : I w) : Kept id I w w :=
  ⟨h, rfl, rfl⟩

theorem trans (h : Kept id I w w') (h' : Kept id I w' w'') : Kept id I w w'' :=
  ⟨h'.holds, h'.state_eq.trans h.state_eq, h'.depth_eq.trans h.depth_eq⟩

theorem isSlot (h : Kept id I w w') {j : SignalId} (hj : IsSlot w id j) : IsSlot w' id j := by
  rw [IsSlot, h.state_eq]
  exact hj

end Kept

/-- The roles of a scope are there, or they are made, which is counted. -/
theorem ends_override_of [Dispatch] (hid : id < w.states.size) (hw : I w) (scope : String)
    (hadvance : (Signal.advance ((w.scopeRoles id scope).2.state id).scopes).Ends (w.scopeRoles id scope).2 fun _ w' ↦
      Kept id I (w.scopeRoles id scope).2 w') :
    (override id scope).Ends w fun own w' ↦
      I w' ∧ (w'.state id).overrides.get? scope = some own ∧ w'.depth = w.depth := by
  refine ends_get ?_
  cases hown : (w.state id).overrides.get? scope with
  | some own => exact ends_pure ⟨hw, hown, rfl⟩
  | none =>
    have hwidened := widened_scopeRoles hid scope
    refine Ends.bind (P := fun own w₁ ↦ own = (w.scopeRoles id scope).1 ∧ w₁ = (w.scopeRoles id scope).2)
      (ends_modifyGet ⟨rfl, rfl⟩) fun own w₁ ⟨hown, hw₁⟩ ↦ ?_
    subst hw₁ hown
    refine ends_get (hadvance.bind fun _ w₂ h₂ ↦ ends_pure ⟨h₂.holds, ?_, ?_⟩)
    · rw [h₂.state_eq, hwidened.get?_overrides, if_pos rfl]
    · exact h₂.depth_eq.trans (hwidened.part_eq World.depth fun _ _ _ ↦ rfl)

namespace Keeps

variable [Dispatch] (h : Keeps id d I)
include h

/-- A batch keeps what its act keeps. -/
theorem ends_batch {α : Type} {a : Act α} (hw : I w)
    (hbody : a.Ends (w.setDepth (w.depth + 1)) fun _ w' ↦ Kept id I (w.setDepth (w.depth + 1)) w') :
    (batch a).Ends w fun _ w' ↦ Kept id I w w' := by
  refine hbody.batch fun x w₁ h₁ ↦ ?_
  have hdepth : w₁.depth = w.depth + 1 := h₁.depth_eq
  have hopen : d < w₁.depth := hdepth ▸ Nat.lt_succ_of_le (h.le_depth hw)
  refine (h.leave h₁.holds hopen).mono fun _ w₂ h₂ ↦ ⟨h₂.holds, ?_, ?_⟩
  · exact h₂.state_eq.trans h₁.state_eq
  · rw [h₂.depth_eq, depth_setDepth, hdepth, Nat.add_sub_cancel]

section Roles

variable (hw : I w) (hroles : ∀ name j, roles.get? name = some j → IsSlot w id j)
include hw hroles

theorem ends_write (role : String) (uri : Option Uri) :
    (write roles role uri).Ends w fun _ w' ↦ Kept id I w w' := by
  unfold write
  split
  · exact ends_pure (.refl hw)
  · rename_i j hj
    exact (h.set _ hw (hroles role j hj)).bind fun _ _ h₁ ↦ ends_pure h₁

theorem ends_writeAbove (schema : Schema) (depth : Nat) (parents : List EntityRef) :
    (writeAbove schema roles depth parents).Ends w fun _ w' ↦ Kept id I w w' := by
  induction parents generalizing w with
  | nil => exact ends_pure (.refl hw)
  | cons e rest ih =>
    have hrest : ∀ w₁, Kept id I w w₁ → (writeAbove schema roles depth rest).Ends w₁ fun _ w' ↦ Kept id I w w' :=
      fun w₁ h₁ ↦ (ih h₁.holds fun name j hj ↦ h₁.isSlot (hroles name j hj)).mono fun _ _ h₂ ↦ h₁.trans h₂
    refine ends_get ?_
    dsimp only
    split
    · exact (h.ends_write hw hroles _ _).bind fun _ w₁ h₁ ↦ hrest w₁ h₁
    · exact hrest w (.refl hw)

theorem ends_clearBelow (schema : Schema) (e : EntityRef) (names : List String) :
    (clearBelow schema roles e names).Ends w fun _ w' ↦ Kept id I w w' := by
  induction names generalizing w with
  | nil => exact ends_pure (.refl hw)
  | cons name rest ih =>
    have hrest : ∀ w₁, Kept id I w w₁ → (clearBelow schema roles e rest).Ends w₁ fun _ w' ↦ Kept id I w w' :=
      fun w₁ h₁ ↦ (ih h₁.holds fun name j hj ↦ h₁.isSlot (hroles name j hj)).mono fun _ _ h₂ ↦ h₁.trans h₂
    refine ends_get ?_
    cases w.focusedIn roles name with
    | none => exact hrest w (.refl hw)
    | some uri =>
      dsimp only
      split
      · exact (h.ends_write hw hroles _ _).bind fun _ w₁ h₁ ↦ hrest w₁ h₁
      · exact hrest w (.refl hw)

theorem ends_clearAll (names : List String) : (clearAll roles names).Ends w fun _ w' ↦ Kept id I w w' := by
  induction names generalizing w with
  | nil => exact ends_pure (.refl hw)
  | cons name rest ih =>
    refine (h.ends_write hw hroles name none).bind fun _ w₁ h₁ ↦ ?_
    exact (ih h₁.holds fun name j hj ↦ h₁.isSlot (hroles name j hj)).mono fun _ _ h₂ ↦ h₁.trans h₂

/-- The writes of a focus, within its batch. -/
theorem ends_move (schema : Schema) (e : EntityRef) (kind : String) (uri : Uri) (depth : Nat)
    (parents : List EntityRef) (names : List String) :
    (do
      write roles kind (some uri)
      writeAbove schema roles depth parents
      clearBelow schema roles e names : Act Unit).Ends w fun _ w' ↦ Kept id I w w' := by
  refine (h.ends_write hw hroles kind (some uri)).bind fun _ w₁ h₁ ↦ ?_
  have hroles₁ : ∀ name j, roles.get? name = some j → IsSlot w₁ id j := fun name j hj ↦
    h₁.isSlot (hroles name j hj)
  refine (h.ends_writeAbove h₁.holds hroles₁ schema depth parents).bind fun _ w₂ h₂ ↦ ?_
  have hroles₂ : ∀ name j, roles.get? name = some j → IsSlot w₂ id j := fun name j hj ↦
    h₂.isSlot (hroles₁ name j hj)
  exact (h.ends_clearBelow h₂.holds hroles₂ schema e names).mono fun _ _ h₃ ↦ h₁.trans (h₂.trans h₃)

theorem ends_apply (uri : Uri) : (apply id roles uri).Ends w fun _ w' ↦ Kept id I w w' := by
  refine ends_get ?_
  cases hfind : w.find? (w.state id).store uri with
  | none =>
    simp only [hfind]
    exact ends_pure (.refl hw)
  | some e =>
    simp only [hfind]
    cases hdepth : (w.state id).schema.roleDepth (w.kindOf e) with
    | none => exact ends_pure (.refl hw)
    | some depth =>
      refine (h.ends_batch hw ?_).bind fun _ w' hw' ↦ ends_pure hw'
      exact h.ends_move (h.enter hw) hroles _ e _ uri depth _ _

end Roles

/-- Every call keeps it, with as many open batches as there were. -/
theorem ends_perform (hw : I w) (call : Call) :
    (call.perform id).Ends w fun _ w' ↦ I w' ∧ w'.depth = w.depth := by
  have hglobal : ∀ name j, (w.state id).roles.get? name = some j → IsSlot w id j := fun name j hj ↦
    ⟨.role none name, hj⟩
  cases call with
  | focus uri =>
    exact ends_get ((h.ends_apply hw hglobal uri).bind fun _ _ h₁ ↦ ends_pure ⟨h₁.holds, h₁.depth_eq⟩)
  | unfocus role =>
    refine Ends.bind (ends_get (h.ends_write hw hglobal role none)) fun _ _ h₁ ↦ ?_
    exact ends_pure ⟨h₁.holds, h₁.depth_eq⟩
  | focusIn scope uri =>
    refine (h.override scope hw).bind fun own w₁ ⟨hw₁, hown, hdepth₁⟩ ↦ ?_
    have hroles : ∀ name j, own.roles.get? name = some j → IsSlot w₁ id j := fun name j hj ↦
      ⟨.role (some scope) name, (State.slot?_role hown name).trans hj⟩
    have howned : IsSlot w₁ id own.ownedFrom := ⟨.owned scope, State.slot?_owned hown⟩
    refine (h.ends_batch hw₁ ?_).mono fun _ _ h₂ ↦ ⟨h₂.holds, h₂.depth_eq.trans hdepth₁⟩
    refine (h.ends_apply (h.enter hw₁) hroles uri).bind fun depth? w₂ h₂ ↦ ?_
    cases depth? with
    | none => exact ends_pure h₂
    | some depth =>
      refine Ends.bind (ends_get ?_) fun _ _ h₃ ↦ ends_pure (h₂.trans h₃)
      exact (h.set _ h₂.holds (h₂.isSlot howned)).bind fun _ _ h₃ ↦ ends_pure h₃
  | clearScope scope =>
    refine Ends.bind (P := fun _ w' ↦ Kept id I w w') (ends_get ?_) fun _ _ h₁ ↦ ends_pure ⟨h₁.holds, h₁.depth_eq⟩
    cases hown : (w.state id).overrides.get? scope with
    | none => exact ends_pure (.refl hw)
    | some own =>
      have hroles : ∀ name j, own.roles.get? name = some j → IsSlot w id j := fun name j hj ↦
        ⟨.role (some scope) name, (State.slot?_role hown name).trans hj⟩
      refine h.ends_batch hw ((h.ends_clearAll (h.enter hw) hroles _).bind fun _ w₁ h₁ ↦ ?_)
      have howned : IsSlot w₁ id own.ownedFrom := h₁.isSlot ⟨.owned scope, State.slot?_owned hown⟩
      exact (h.set _ h₁.holds howned).bind fun _ _ h₂ ↦ ends_pure (h₁.trans h₂)

/-- And so does whatever is called one after the other. -/
theorem ends_course (hw : I w) (calls : List Call) :
    (course id calls).Ends w fun _ w' ↦ I w' ∧ w'.depth = w.depth := by
  induction calls generalizing w with
  | nil => exact ends_pure ⟨hw, rfl⟩
  | cons call rest ih =>
    refine ends_get ((h.ends_perform hw call).bind fun answer w₁ ⟨hw₁, hdepth₁⟩ ↦ ?_)
    exact (ih hw₁).bind fun _ w₂ ⟨hw₂, hdepth₂⟩ ↦ ends_pure ⟨hw₂, hdepth₂.trans hdepth₁⟩

end Keeps

end Focus

end LiveGraph
