import LiveGraph.Proofs.Network.Steps

/-!
# What acts lead to

An act that depends on the depth of calls, and on what an evaluation accepts, leads to one end, whatever
these are, or runs out of rounds. It does come to that end if the depth is great enough and if at least what
is good is accepted.
-/

namespace LiveGraph

/-- How an act ended. -/
abbrev Ending (α : Type) : Type :=
  EStateM.Result Halt World α

/-- From one world an act comes to one end unless it runs out of rounds, which it does not do at great depths
where all that is good is accepted. -/
def Leads {α : Type} (act : Acceptance → Nat → Act α) (w : World) (r : Ending α)
    (good : Acceptance → Prop) : Prop :=
  ∃ bound, ∀ accept n, act accept n w = r ∨
    (∃ w', act accept n w = .error .rounds w') ∧ (good accept → n < bound)

namespace Leads

variable {α β : Type} {act : Acceptance → Nat → Act α} {w w' : World} {a : α}
variable {r : Ending α} {r' : Ending β}
variable {good good' good'' : Acceptance → Prop}

theorem of_eq (h : ∀ accept n, act accept n w = r) : Leads act w r good :=
  ⟨0, fun accept n ↦ .inl (h accept n)⟩

theorem congr {act' : Acceptance → Nat → Act α} (h : Leads act w r good)
    (hact : ∀ accept n, act' accept n w' = act accept n w) : Leads act' w' r good := by
  obtain ⟨bound, hbound⟩ := h
  refine ⟨bound, fun accept n ↦ ?_⟩
  rw [hact]
  exact hbound accept n

/-- One act after the other. -/
theorem bind {f : Acceptance → Nat → α → Act β} (h : Leads act w (.ok a w') good')
    (hnext : Leads (fun accept n ↦ f accept n a) w' r' good'')
    (hgood : ∀ accept, good accept → good' accept ∧ good'' accept) :
    Leads (fun accept n ↦ act accept n >>= f accept n) w r' good := by
  obtain ⟨bound, hbound⟩ := h
  obtain ⟨bound', hbound'⟩ := hnext
  refine ⟨max bound bound', fun accept n ↦ ?_⟩
  rcases hbound accept n with hrun | ⟨⟨w₁, hrun⟩, hlow⟩
  · have hbind : (act accept n >>= f accept n) w = f accept n a w' := by
      rw [Act.bind_run, hrun]
    rcases hbound' accept n with hrun' | ⟨⟨w₁, hrun'⟩, hlow⟩
    · exact .inl (hbind.trans hrun')
    · refine .inr ⟨⟨w₁, hbind.trans hrun'⟩, fun hg ↦ ?_⟩
      exact Nat.lt_of_lt_of_le (hlow (hgood accept hg).2) (Nat.le_max_right bound bound')
  · have hbind : (act accept n >>= f accept n) w = .error .rounds w₁ := by
      rw [Act.bind_run, hrun]
    refine .inr ⟨⟨w₁, hbind⟩, fun hg ↦ ?_⟩
    exact Nat.lt_of_lt_of_le (hlow (hgood accept hg).1) (Nat.le_max_left bound bound')

/-- An act that goes through the end of another one, whatever that is. -/
theorem through {act' : Acceptance → Nat → Act β} (h : Leads act w r good)
    (hend : ∀ accept n, act accept n w = r → act' accept n w' = r')
    (hrounds : ∀ accept n w₁, act accept n w = .error .rounds w₁ →
      ∃ w₂, act' accept n w' = .error .rounds w₂) : Leads act' w' r' good := by
  obtain ⟨bound, hbound⟩ := h
  refine ⟨bound, fun accept n ↦ ?_⟩
  rcases hbound accept n with hrun | ⟨⟨w₁, hrun⟩, hlow⟩
  · exact .inl (hend accept n hrun)
  · exact .inr ⟨hrounds accept n w₁ hrun, hlow⟩

/-- An act and then one that is known to come to an end. -/
theorem bind_eq {f : Acceptance → Nat → α → Act β} (h : Leads act w (.ok a w') good)
    (hnext : ∀ accept n, f accept n a w' = r') : Leads (fun accept n ↦ act accept n >>= f accept n) w r' good := by
  refine h.through (fun accept n hrun ↦ ?_) fun accept n w₁ hrun ↦ ⟨w₁, ?_⟩
  · rw [Act.bind_run, hrun]
    exact hnext accept n
  · rw [Act.bind_run, hrun]

/-- An act whose reads are not recorded. -/
theorem untracked (h : Leads act (w.pushFrame none) (.ok a w') good) (hreap : w'.popFrame.reap = w'.popFrame) :
    Leads (fun accept n ↦ (act accept n).untracked) w (.ok a w'.popFrame) good := by
  refine h.through (fun accept n hrun ↦ ?_) fun accept n w₁ hrun ↦ ⟨w₁.popFrame.reap, ?_⟩
  · simp only [Act.untracked, Act.followedBy, Act.bind_run, Act.modify_run, hrun, hreap]
  · simp only [Act.untracked, Act.followedBy, Act.bind_run, Act.modify_run, hrun]

/-- What is accepted if it is good, and else never comes back. -/
theorem accepted {s : Source} {answer : Except Fault Datum} (h : Leads act w r good)
    (hgood : ∀ accept, good accept → accept s answer = true) :
    Leads (fun accept n ↦ if accept s answer then act accept n else throw .rounds) w r good := by
  obtain ⟨bound, hbound⟩ := h
  refine ⟨bound, fun accept n ↦ ?_⟩
  by_cases haccept : accept s answer = true
  · simp only [haccept, if_true]
    exact hbound accept n
  · refine .inr ⟨⟨w, ?_⟩, fun hg ↦ absurd (hgood accept hg) haccept⟩
    simp only [haccept, if_false, Bool.false_eq_true]
    rfl

/-- An act that is carried out one call further down. -/
theorem deeper {act' : Acceptance → Nat → Act α} (h : Leads act w r good)
    (hzero : ∀ accept, ∃ w₁, act' accept 0 w' = .error .rounds w₁)
    (hsucc : ∀ accept n, act' accept (n + 1) w' = act accept n w) : Leads act' w' r good := by
  obtain ⟨bound, hbound⟩ := h
  refine ⟨bound + 1, fun accept n ↦ ?_⟩
  cases n with
  | zero => exact .inr ⟨hzero accept, fun _ ↦ Nat.succ_pos bound⟩
  | succ n =>
    rw [hsucc]
    exact (hbound accept n).imp_right fun ⟨hout, hlow⟩ ↦ ⟨hout, fun hg ↦ Nat.succ_lt_succ (hlow hg)⟩

theorem mono (h : Leads act w r good') (hgood : ∀ accept, good accept → good' accept) :
    Leads act w r good := by
  obtain ⟨bound, hbound⟩ := h
  exact ⟨bound, fun accept n ↦ (hbound accept n).imp_right fun ⟨hout, hlow⟩ ↦
    ⟨hout, fun hg ↦ hlow (hgood accept hg)⟩⟩

end Leads

end LiveGraph
