import LiveGraph.Reactive.Flush

/-!
# What acts do

A condition on worlds is carried through an act: started where it holds, the act ends with a
condition on its result and the world, or with another one on the world of a crash. Nothing is said
of an act that takes more rounds than it was given. All rules are about two acts at once, which do
the same wherever the condition holds; one act is compared with itself.
-/

namespace LiveGraph.Act

variable {α β : Type}

section Run

variable (w : World)

@[simp] theorem pure_run (x : α) : (pure x : Act α) w = .ok x w := rfl

@[simp] theorem throw_run (halt : Halt) : (throw halt : Act α) w = .error halt w := rfl

@[simp] theorem bind_run (a : Act α) (f : α → Act β) :
    (a >>= f) w = match a w with
      | .ok x w => f x w
      | .error halt w => .error halt w := by
  simp only [bind, EStateM.bind]
  cases a w <;> rfl

@[simp] theorem get_run : (get : Act World) w = .ok w w := rfl

@[simp] theorem set_run (w' : World) : (set w' : Act PUnit) w = .ok ⟨⟩ w' := rfl

@[simp] theorem modify_run (f : World → World) : (modify f : Act PUnit) w = .ok ⟨⟩ (f w) := rfl

@[simp] theorem modifyGet_run (f : World → α × World) :
    (modifyGet f : Act α) w = .ok (f w).1 (f w).2 := rfl

theorem contained_run (act : Act Unit) :
    act.contained w =
      match act w with
      | .ok _ w₁ => .ok () w₁
      | .error .crash w₁ => .ok () w₁
      | .error .rounds w₁ => .error .rounds w₁ := by
  simp only [contained, bind_run, caught]
  match act w with
  | .ok _ w₁ => rfl
  | .error .crash w₁ => rfl
  | .error .rounds w₁ => rfl

end Run

section Parts

variable {act : Act α} {f : α → Act β} {w w' : World} {halt : Halt}

/-- Two acts one after the other came to their ends if both did. -/
theorem of_bind_eq_ok {y : β} (hrun : (act >>= f) w = .ok y w') : ∃ x w₁, act w = .ok x w₁ ∧ f x w₁ = .ok y w' := by
  rw [bind_run] at hrun
  cases hact : act w with
  | ok x w₁ => exact ⟨x, w₁, rfl, by rwa [hact] at hrun⟩
  | error halt w₁ =>
    rw [hact] at hrun
    cases hrun

theorem of_bind_eq_error (hrun : (act >>= f) w = .error halt w') :
    act w = .error halt w' ∨ ∃ x w₁, act w = .ok x w₁ ∧ f x w₁ = .error halt w' := by
  rw [bind_run] at hrun
  cases hact : act w with
  | ok x w₁ => exact .inr ⟨x, w₁, rfl, by rwa [hact] at hrun⟩
  | error halt' w₁ =>
    rw [hact] at hrun
    cases hrun
    exact .inl rfl

/-- An act whose crash is kept from the act around it ends early only for want of rounds. -/
theorem of_contained_eq_error {act : Act Unit} (hrun : act.contained w = .error halt w') :
    halt = .rounds ∧ act w = .error .rounds w' := by
  rw [contained_run] at hrun
  match hact : act w with
  | .ok _ w₁ =>
    rw [hact] at hrun
    cases hrun
  | .error .crash w₁ =>
    rw [hact] at hrun
    cases hrun
  | .error .rounds w₁ =>
    rw [hact] at hrun
    cases hrun
    exact ⟨rfl, rfl⟩

end Parts

/-- What holds of the way an act ended. -/
def Outcome (Q : α → World → Prop) (C : World → Prop) : EStateM.Result Halt World α → Prop
  | .ok a w => Q a w
  | .error .crash w => C w
  | .error .rounds _ => True

/-- Where `P` holds the two acts do the same, and end with `Q` or crash with `C`. -/
def Agree (P : World → Prop) (a b : Act α) (Q : α → World → Prop) (C : World → Prop) : Prop :=
  ∀ w, P w → a w = b w ∧ Outcome Q C (a w)

theorem Outcome.mono {Q Q' : α → World → Prop} {C C' : World → Prop}
    {r : EStateM.Result Halt World α} (h : Outcome Q C r) (hQ : ∀ a w, Q a w → Q' a w)
    (hC : ∀ w, C w → C' w) : Outcome Q' C' r := by
  match r with
  | .ok a w => exact hQ a w h
  | .error .crash w => exact hC w h
  | .error .rounds _ => exact trivial

variable {P P' : World → Prop} {a b : Act α} {Q Q' : α → World → Prop} {C C' : World → Prop}

theorem Agree.mono (h : Agree P a b Q C) (hP : ∀ w, P' w → P w) (hQ : ∀ a w, Q a w → Q' a w)
    (hC : ∀ w, C w → C' w) : Agree P' a b Q' C' := fun w hw ↦
  ⟨(h w (hP w hw)).1, (h w (hP w hw)).2.mono hQ hC⟩

theorem Agree.pre (h : Agree P a b Q C) (hP : ∀ w, P' w → P w) : Agree P' a b Q C :=
  h.mono hP (fun _ _ h ↦ h) fun _ h ↦ h

theorem Agree.post (h : Agree P a b Q C) (hQ : ∀ a w, Q a w → Q' a w) : Agree P a b Q' C :=
  h.mono (fun _ h ↦ h) hQ fun _ h ↦ h

theorem Agree.left (h : Agree P a b Q C) : Agree P a a Q C := fun w hw ↦ ⟨rfl, (h w hw).2⟩

/-- What two rules say of an act holds of it at once. -/
theorem Agree.and (h : Agree P a b Q C) (h' : Agree P' a b Q' C') :
    Agree (fun w ↦ P w ∧ P' w) a b (fun x w ↦ Q x w ∧ Q' x w) fun w ↦ C w ∧ C' w := fun w hw ↦ by
  refine ⟨(h w hw.1).1, ?_⟩
  have hout := (h w hw.1).2
  have hout' := (h' w hw.2).2
  match hr : a w with
  | .ok x w' =>
    rw [hr] at hout hout'
    exact ⟨hout, hout'⟩
  | .error .crash w' =>
    rw [hr] at hout hout'
    exact ⟨hout, hout'⟩
  | .error .rounds _ => exact trivial

theorem agree_pure {x : α} (h : ∀ w, P w → Q x w) : Agree P (pure x) (pure x) Q C := fun w hw ↦
  ⟨rfl, h w hw⟩

theorem agree_throw {halt : Halt} (h : ∀ w, P w → C w) :
    Agree P (throw halt : Act α) (throw halt) Q C := fun w hw ↦ by
  cases halt
  · exact ⟨rfl, h w hw⟩
  · exact ⟨rfl, trivial⟩

theorem agree_bind {R : β → World → Prop} {f g : α → Act β} (h : Agree P a b Q C)
    (hf : ∀ x, Agree (Q x) (f x) (g x) R C) : Agree P (a >>= f) (b >>= g) R C := by
  intro w hw
  obtain ⟨heq, hout⟩ := h w hw
  simp only [bind, EStateM.bind, ← heq]
  match hr : a w with
  | .ok x w' =>
    rw [hr] at hout
    exact hf x w' hout
  | .error .crash w' =>
    rw [hr] at hout
    exact ⟨rfl, hout⟩
  | .error .rounds w' => exact ⟨rfl, trivial⟩

/-- After looking at the world, it is known. -/
theorem agree_get {f g : World → Act β} {R : β → World → Prop}
    (h : ∀ w, P w → Agree (· = w) (f w) (g w) R C) : Agree P (get >>= f) (get >>= g) R C :=
  fun w hw ↦ h w hw w rfl

theorem agree_modify {f : World → World} {Q : PUnit → World → Prop} (h : ∀ w, P w → Q ⟨⟩ (f w)) :
    Agree P (modify f) (modify f) Q C := fun w hw ↦ ⟨rfl, h w hw⟩

theorem agree_modifyGet {f : World → α × World} (h : ∀ w, P w → Q (f w).1 (f w).2) :
    Agree P (modifyGet f) (modifyGet f) Q C := fun w hw ↦ ⟨rfl, h w hw⟩

theorem agree_set {w' : World} {Q : PUnit → World → Prop} (h : ∀ w, P w → Q ⟨⟩ w') :
    Agree P (set w') (set w') Q C := fun w hw ↦ ⟨rfl, h w hw⟩

theorem agree_ite {c : Prop} [Decidable c] {a' b' : Act α} (h : c → Agree P a b Q C)
    (h' : ¬c → Agree P a' b' Q C) : Agree P (if c then a else a') (if c then b else b') Q C := by
  split
  · exact h ‹_›
  · exact h' ‹_›

theorem agree_followedBy {after : World → World} (h : Agree P a b Q C)
    (hQ : ∀ x w, Q x w → Q' x (after w)) (hC : ∀ w, C w → C' (after w)) :
    Agree P (a.followedBy after) (b.followedBy after) Q' C' := by
  intro w hw
  obtain ⟨heq, hout⟩ := h w hw
  refine ⟨by simp only [followedBy, heq], ?_⟩
  simp only [followedBy]
  match hr : a w with
  | .ok x w' =>
    rw [hr] at hout
    exact hQ x w' hout
  | .error .crash w' =>
    rw [hr] at hout
    exact hC w' hout
  | .error .rounds w' => exact trivial

theorem agree_orElse {after : World → World} (h : Agree P a b Q C)
    (hC : ∀ w, C w → C' (after w)) : Agree P (a.orElse after) (b.orElse after) Q C' := by
  intro w hw
  obtain ⟨heq, hout⟩ := h w hw
  refine ⟨by simp only [orElse, heq], ?_⟩
  simp only [orElse]
  match hr : a w with
  | .ok x w' =>
    rw [hr] at hout
    exact hout
  | .error .crash w' =>
    rw [hr] at hout
    exact hC w' hout
  | .error .rounds w' => exact trivial

/-- A crash that is kept from the act around it is an end like any other. -/
theorem agree_caught {R : Option α → World → Prop} (h : Agree P a b Q C) (hQ : ∀ x w, Q x w → R (some x) w)
    (hC : ∀ w, C w → R none w) : Agree P a.caught b.caught R C' := by
  intro w hw
  obtain ⟨heq, hout⟩ := h w hw
  refine ⟨by simp only [caught, heq], ?_⟩
  simp only [caught]
  match hr : a w with
  | .ok x w' =>
    rw [hr] at hout
    exact hQ x w' hout
  | .error .crash w' =>
    rw [hr] at hout
    exact hC w' hout
  | .error .rounds w' => exact trivial

theorem agree_contained {a b : Act Unit} {Q : Unit → World → Prop} {C : World → Prop}
    (h : Agree P a b Q C) (hC : ∀ w, C w → Q () w) : Agree P a.contained b.contained Q C' :=
  agree_bind (agree_caught (R := fun _ ↦ Q ()) h (fun _ _ hw ↦ hw) hC) fun _ ↦ agree_pure fun _ hw ↦ hw

theorem agree_holding {p : Pin} (hpin : ∀ w, P w → P' (w.pin p)) (h : Agree P' a b Q C)
    (hQ : ∀ x w, Q x w → Q' x (w.unpin p)) (hC : ∀ w, C w → C' (w.unpin p)) :
    Agree P (a.holding p) (b.holding p) Q' C' :=
  agree_bind (agree_modify (Q := fun _ ↦ P') hpin) fun _ ↦ agree_followedBy h hQ hC

theorem agree_untracked (hpush : ∀ w, P w → P' (w.pushFrame none)) (h : Agree P' a b Q C)
    (hQ : ∀ x w, Q x w → Q' x w.popFrame.reap) (hC : ∀ w, C w → C' w.popFrame.reap) :
    Agree P a.untracked b.untracked Q' C' :=
  agree_bind (agree_modify (Q := fun _ ↦ P') hpush) fun _ ↦ agree_followedBy h hQ hC

section Known

variable {w : World}

/-- A change of a world that is known. -/
theorem agree_change (f : World → World) :
    Agree (· = w) (modify f : Act PUnit) (modify f) (fun _ ↦ (· = f w)) C :=
  agree_modify fun _ hw ↦ congrArg f hw

/-- Something is held in a world that is known. -/
theorem agree_holding_known {p : Pin} (h : Agree (· = w.pin p) a b Q C) (hQ : ∀ x w, Q x w → Q' x (w.unpin p))
    (hC : ∀ w, C w → C' (w.unpin p)) : Agree (· = w) (a.holding p) (b.holding p) Q' C' :=
  agree_holding (fun _ hw ↦ congrArg (·.pin p) hw) h hQ hC

theorem agree_changeGet (f : World → α × World) : Agree (· = w) (modifyGet f : Act α) (modifyGet f)
    (fun a w' ↦ a = (f w).1 ∧ w' = (f w).2) C :=
  agree_modifyGet fun w' (hw : w' = w) ↦ hw ▸ ⟨rfl, rfl⟩

/-- What an act comes to from one world, together with the run itself. -/
theorem agree_recorded (ha : Agree (· = w) a a Q C) : Agree (· = w) a a (fun x w' ↦ Q x w' ∧ a w = .ok x w') C := by
  intro w' hw'
  subst hw'
  refine ⟨rfl, ?_⟩
  have hout := (ha _ rfl).2
  cases hrun : a w' with
  | ok x w₁ =>
    rw [hrun] at hout
    exact ⟨hout, rfl⟩
  | error halt w₁ =>
    rw [hrun] at hout
    cases halt
    · exact hout
    · exact trivial

end Known

end LiveGraph.Act

/-!
## Acts that come to an end

An act started in a world comes to an end there, with a condition on its result and on the world in the end:
it neither crashes nor takes more rounds than it was given.
-/

namespace LiveGraph.Act

variable {α β : Type}

/-- The act comes to an end, and then a condition holds. -/
def Ends (a : Act α) (w : World) (Q : α → World → Prop) : Prop :=
  ∃ x w', a w = .ok x w' ∧ Q x w'

variable {a : Act α} {w : World} {P Q : α → World → Prop}

theorem Ends.mono (h : a.Ends w P) (hQ : ∀ x w', P x w' → Q x w') : a.Ends w Q := by
  obtain ⟨x, w', hrun, hx⟩ := h
  exact ⟨x, w', hrun, hQ x w' hx⟩

theorem ends_pure {x : α} (h : Q x w) : Ends (pure x) w Q :=
  ⟨x, w, rfl, h⟩

theorem Ends.bind {f : α → Act β} {Q : β → World → Prop} (h : a.Ends w P)
    (hf : ∀ x w', P x w' → (f x).Ends w' Q) : (a >>= f).Ends w Q := by
  obtain ⟨x, w', hrun, hx⟩ := h
  obtain ⟨y, w'', hrun', hy⟩ := hf x w' hx
  exact ⟨y, w'', by simp only [bind_run, hrun, hrun'], hy⟩

/-- What comes after an act whose run is known. -/
theorem ends_after {f : α → Act β} {Q : β → World → Prop} {x : α} {w' : World} (h : a w = .ok x w')
    (hf : (f x).Ends w' Q) : (a >>= f).Ends w Q :=
  Ends.bind (P := fun y w'' ↦ y = x ∧ w'' = w') ⟨x, w', h, rfl, rfl⟩ fun y w'' hy ↦ by
    obtain ⟨rfl, rfl⟩ := hy
    exact hf

theorem ends_get {f : World → Act α} (h : (f w).Ends w Q) : (get >>= f).Ends w Q :=
  ends_after rfl h

theorem ends_modify {f : World → World} {Q : PUnit → World → Prop} (h : Q ⟨⟩ (f w)) :
    Ends (modify f : Act PUnit) w Q :=
  ⟨⟨⟩, f w, rfl, h⟩

/-- What has to follow an act follows it. -/
theorem Ends.followedBy {after : World → World} (h : a.Ends w fun x w' ↦ Q x (after w')) :
    (a.followedBy after).Ends w Q := by
  obtain ⟨x, w', hrun, hx⟩ := h
  exact ⟨x, after w', by rw [Act.followedBy, hrun], hx⟩

/-- What would have to follow an act that ends early does not follow it. -/
theorem Ends.orElse {after : World → World} (h : a.Ends w Q) : (a.orElse after).Ends w Q := by
  obtain ⟨x, w', hrun, hx⟩ := h
  exact ⟨x, w', by rw [Act.orElse, hrun], hx⟩

theorem ends_modifyGet {f : World → α × World} (h : Q (f w).1 (f w).2) :
    Ends (modifyGet f : Act α) w Q :=
  ⟨(f w).1, (f w).2, rfl, h⟩

end LiveGraph.Act
