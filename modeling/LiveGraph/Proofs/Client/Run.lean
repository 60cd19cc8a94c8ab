import LiveGraph.Proofs.Client.Basic
import LiveGraph.Proofs.Reactive.Batch

/-!
# What code keeps

Code keeps what its operations and flushes keep. If that implies what is to be seen, then the code
does the same under observation: it never looks at a world that is not as it should be.
-/

namespace LiveGraph.Client

open Act

variable {Op : Type} {D D' : Dispatch} {I P : World → Prop}
variable {perform : [Dispatch] → Op → Act Unit}

/-- Code that is run within some batches keeps what its operations keep there, also where one crashes. -/
theorem agree_run_crashing {d₀ : Nat} {f : Bool} (hI : DepthFree I)
    (hperform : ∀ op d, d₀ ≤ d → Agree (At I d f) (@perform D op) (@perform D' op) (fun _ ↦ At I d f)
      (Held I d f))
    (hflush : d₀ = 0 → f = false →
      Agree (Held I 0 false) (@flush D) (@flush D') (fun _ ↦ At I 0 false) fun _ ↦ False)
    (hP : ∀ d w, d₀ ≤ d → At I d f w → P w) (c : Client Op) (d : Nat) (hd : d₀ ≤ d) :
    Agree (At I d f) (@run Op D (@perform D) c) (@run Op D' (@perform D') (c.checked P))
      (fun _ ↦ At I d f) (Held I d f) := by
  induction c generalizing d with
  | done => exact agree_pure fun _ hw ↦ hw
  | halt why => exact agree_throw fun _ hw ↦ hw.toHeld
  | look next ih =>
    refine agree_get fun w hw ↦ ?_
    simp only [if_pos (hP d w hd hw)]
    exact (ih w d hd).pre fun w' hw' ↦ hw' ▸ hw
  | act op next ih => exact agree_bind (hperform op d hd) fun _ ↦ ih d hd
  | batch body next ihbody ihnext =>
    have hbody := (ihbody (d + 1) (Nat.le_succ_of_le hd)).mono (fun w (hw : Held I (d + 1) f w) ↦
      hw.at_busy (.inl (Nat.succ_pos d))) (fun _ w hw ↦ hw.toHeld) fun w hw ↦ hw
    have hbatch := agree_batch (C := Held I d f) hI hI hbody (fun hzero hf ↦ by
      subst hzero hf
      exact (hflush (Nat.le_zero.mp hd) rfl).mono (fun _ hw ↦ hw) (fun _ _ hw ↦ hw) fun _ h ↦ h.elim) fun w hw ↦ by
      rw [hw.depth_eq, Nat.add_sub_cancel]
      exact hw.setDepth hI d
    exact agree_bind (hbatch.pre fun w hw ↦ hw.toHeld) fun _ ↦ ihnext d hd

theorem agree_run_checked_from {d₀ : Nat} {f : Bool} (hI : DepthFree I)
    (hperform : ∀ op d, d₀ ≤ d → Agree (At I d f) (@perform D op) (@perform D' op) (fun _ ↦ At I d f)
      fun _ ↦ False)
    (hflush : d₀ = 0 → f = false →
      Agree (Held I 0 false) (@flush D) (@flush D') (fun _ ↦ At I 0 false) fun _ ↦ False)
    (hP : ∀ d w, d₀ ≤ d → At I d f w → P w) (c : Client Op) (d : Nat) (hd : d₀ ≤ d) :
    Agree (At I d f) (@run Op D (@perform D) c) (@run Op D' (@perform D') (c.checked P))
      (fun _ ↦ At I d f) (Held I d f) :=
  agree_run_crashing hI (fun op d hd ↦ (hperform op d hd).mono (fun _ hw ↦ hw) (fun _ _ hw ↦ hw)
    fun _ h ↦ h.elim) hflush hP c d hd

theorem agree_run_checked (hI : DepthFree I)
    (hperform : ∀ op d f, Agree (At I d f) (@perform D op) (@perform D' op) (fun _ ↦ At I d f)
      fun _ ↦ False)
    (hflush : Agree (Held I 0 false) (@flush D) (@flush D') (fun _ ↦ At I 0 false) fun _ ↦ False)
    {f : Bool} (hP : ∀ d w, At I d f w → P w) (c : Client Op) (d : Nat) :
    Agree (At I d f) (@run Op D (@perform D) c) (@run Op D' (@perform D') (c.checked P))
      (fun _ ↦ At I d f) (Held I d f) :=
  agree_run_checked_from hI (fun op d _ ↦ hperform op d f) (fun _ _ ↦ hflush) (fun d w _ ↦ hP d w) c d
    (Nat.zero_le d)

/-- Within a batch or a flush code keeps what its operations keep there. -/
theorem agree_run_busy (hI : DepthFree I)
    (hperform : ∀ op d f, 0 < d ∨ f = true → Agree (Held I d f) (@perform D op) (@perform D op)
      (fun _ ↦ Held I d f) fun _ ↦ False) (c : Client Op) (d : Nat) (f : Bool)
    (hbusy : 0 < d ∨ f = true) :
    Agree (Held I d f) (@run Op D (@perform D) c) (@run Op D (@perform D) c) (fun _ ↦ Held I d f)
      (Held I d f) := by
  induction c generalizing d f with
  | done => exact agree_pure fun _ hw ↦ hw
  | halt why => exact agree_throw fun _ hw ↦ hw
  | look next ih => exact agree_get fun w hw ↦ (ih w d f hbusy).pre fun w' hw' ↦ hw' ▸ hw
  | act op next ih =>
    exact agree_bind ((hperform op d f hbusy).mono (fun _ hw ↦ hw) (fun _ _ hw ↦ hw)
      fun _ h ↦ h.elim) fun _ ↦ ih d f hbusy
  | batch body next ihbody ihnext =>
    have hbody := ihbody (d + 1) f (.inl (Nat.succ_pos d))
    refine agree_bind (Q := fun _ ↦ Held I d f) (Agree.post (agree_batch hI hI hbody
      (fun hd hf ↦ ?_) fun w hw ↦ ?_) fun _ _ hw ↦ hw.toHeld) fun _ ↦ ihnext d f hbusy
    · subst hd hf
      simp at hbusy
    · rw [hw.depth_eq, Nat.add_sub_cancel]
      exact hw.setDepth hI d

end LiveGraph.Client

/-!
## Code that leaves something alone

Code is sealed against changes of what others rely on: when it comes to an end, or crashes, the world is
looked at once more, and code that has changed too much never comes back. So what is proved of every
sealed piece of code holds of all code that leaves these things alone.
-/

namespace LiveGraph.Client

variable {Op : Type}

open Classical in
/-- The same code under observation: where it ends, and wherever it crashes, the world should be as it
is meant to be. What it does in a batch is not finished at the end of that. -/
noncomputable def ending (sound : World → Prop) (atEnd : Prop) : Client Op → Client Op
  | done => look fun w ↦ if atEnd → sound w then done else halt .rounds
  | halt why => look fun w ↦ if sound w then halt why else halt .rounds
  | look next => look fun w ↦ (next w).ending sound atEnd
  | act op next => act op (next.ending sound atEnd)
  | batch body next => batch (body.ending sound False) (next.ending sound atEnd)

/-- Code that leaves the world the same in a certain way, or never comes back. -/
noncomputable def sparing (same : World → World → Prop) (c : Client Op) : Client Op :=
  look fun w ↦ c.ending (same w) True

section Run

open Act

variable {D : Dispatch} {I sound : World → Prop} {perform : [Dispatch] → Op → Act Unit}

theorem agree_run_ending (hI : DepthFree I) (hsound : DepthFree sound)
    (hperform : ∀ op d f, Agree (At I d f) (@perform D op) (@perform D op) (fun _ ↦ At I d f)
      fun _ ↦ False)
    (hflush : Agree (Held I 0 false) (@flush D) (@flush D) (fun _ ↦ At I 0 false) fun _ ↦ False)
    {f : Bool} (c : Client Op) (atEnd : Prop) (d : Nat) :
    Agree (At I d f) (@run Op D (@perform D) (c.ending sound atEnd))
      (@run Op D (@perform D) (c.ending sound atEnd)) (fun _ w ↦ At I d f w ∧ (atEnd → sound w))
      fun w ↦ Held I d f w ∧ sound w := by
  induction c generalizing d atEnd with
  | done =>
    refine agree_get fun w hw ↦ ?_
    by_cases hend : atEnd → sound w
    · simp only [if_pos hend]
      exact agree_pure fun w' hw' ↦ hw' ▸ ⟨hw, hend⟩
    · simp only [if_neg hend]
      exact fun _ _ ↦ ⟨rfl, trivial⟩
  | halt why =>
    refine agree_get fun w hw ↦ ?_
    by_cases hend : sound w
    · simp only [if_pos hend]
      exact agree_throw fun w' hw' ↦ hw' ▸ ⟨hw.toHeld, hend⟩
    · simp only [if_neg hend]
      exact fun _ _ ↦ ⟨rfl, trivial⟩
  | look next ih => exact agree_get fun w hw ↦ (ih w atEnd d).pre fun w' hw' ↦ hw' ▸ hw
  | act op next ih =>
    exact agree_bind ((hperform op d f).mono (fun _ hw ↦ hw) (fun _ _ hw ↦ hw) fun _ h ↦ h.elim)
      fun _ ↦ ih atEnd d
  | batch body next ihbody ihnext =>
    have hbody := (ihbody False (d + 1)).mono (fun w (hw : Held I (d + 1) f w) ↦
      hw.at_busy (.inl (Nat.succ_pos d))) (fun _ w hw ↦ hw.1.toHeld) fun w hw ↦ hw
    have hbatch := agree_batch (C := fun w ↦ Held I d f w ∧ sound w) hI hI hbody (fun hd hf ↦ by
      subst hd hf
      exact hflush.mono (fun _ hw ↦ hw) (fun _ _ hw ↦ hw) fun _ h ↦ h.elim) fun w hw ↦ by
      rw [hw.1.depth_eq, Nat.add_sub_cancel]
      exact ⟨hw.1.setDepth hI d, hsound w d hw.2⟩
    exact agree_bind (hbatch.pre fun w hw ↦ hw.toHeld) fun _ ↦ ihnext atEnd d

/-- Code that is sealed leaves the world the same, also where it crashes. -/
theorem agree_run_sparing {same : World → World → Prop} (hI : DepthFree I)
    (hsame : ∀ w, DepthFree (same w))
    (hperform : ∀ op d f, Agree (At I d f) (@perform D op) (@perform D op) (fun _ ↦ At I d f)
      fun _ ↦ False)
    (hflush : Agree (Held I 0 false) (@flush D) (@flush D) (fun _ ↦ At I 0 false) fun _ ↦ False)
    {f : Bool} (c : Client Op) (d : Nat) {w₀ : World} (hw₀ : At I d f w₀) :
    Agree (· = w₀) (@run Op D (@perform D) (c.sparing same)) (@run Op D (@perform D) (c.sparing same))
      (fun _ w ↦ At I d f w ∧ same w₀ w) fun w ↦ Held I d f w ∧ same w₀ w := by
  refine agree_get fun w hw ↦ ?_
  subst hw
  exact (agree_run_ending hI (hsame w) hperform hflush c True d).mono (fun w' hw' ↦ hw' ▸ hw₀)
    (fun _ _ hw ↦ ⟨hw.1, hw.2 trivial⟩) fun _ hw ↦ hw

end Run

end LiveGraph.Client

/-!
## Straight-line code

A run of code, whatever it decides by, carries out operations one after the other, some of them in
batches. Written down as such, it is known at each point which operations there were before, and what
should be true of the world there may depend on that.
-/

namespace LiveGraph

/-- Operations one after the other, some of them in batches. -/
inductive Program (Op : Type)
  | done
  | act (op : Op) (next : Program Op)
  | batch (body next : Program Op)

namespace Program

variable {Op H : Type}

def code : Program Op → Client Op
  | done => .done
  | act op next => .act op next.code
  | batch body next => .batch body.code next.code

variable (step : H → Op → H)

/-- What a record of the operations is at the end, from what it is at the beginning. -/
def record : Program Op → H → H
  | done, h => h
  | act op next, h => next.record (step h op)
  | batch body next, h => next.record (body.record h)

open Classical in
/-- Code that looks at the world first, and never comes back if it is not as it should be. -/
noncomputable def guarded (sound : World → Prop) (c : Client Op) : Client Op :=
  .look fun w ↦ if sound w then c else .halt .rounds

/-- The same operations under observation: before each of them and at each end the world is looked
at, which should be as the operations so far have it. -/
noncomputable def watched (sound : H → World → Prop) : Program Op → H → Client Op
  | done, h => guarded (sound h) .done
  | act op next, h => guarded (sound h) (.act op (next.watched sound (step h op)))
  | batch body next, h =>
    guarded (sound h) (.batch (body.watched sound h) (next.watched sound (body.record step h)))

section Run

open Act Client

variable {D D' : Dispatch} {I : H → World → Prop} {step : H → Op → H} {sound : H → World → Prop}
variable {perform : [Dispatch] → Op → Act Unit} {f : Bool}

theorem agree_guarded {P C : World → Prop} {Q : Unit → World → Prop} {sound : World → Prop}
    {c c' : Client Op} (hP : ∀ w, P w → sound w)
    (h : Agree P (@run Op D (@perform D) c) (@run Op D' (@perform D') c') Q C) :
    Agree P (@run Op D (@perform D) c) (@run Op D' (@perform D') (guarded sound c')) Q C := by
  intro w hw
  have hlook : @run Op D' (@perform D') (guarded sound c') w = @run Op D' (@perform D') c' w := by
    simp only [guarded, run, bind_run, get_run, if_pos (hP w hw)]
  rw [hlook]
  exact h w hw

/-- If each operation leads from what is kept before it to what is kept after it, and that is what
should be true, then the operations under observation do the same. -/
theorem agree_run_watched (hI : ∀ h, DepthFree (I h))
    (hperform : ∀ h op d f, Agree (At (I h) d f) (@perform D op) (@perform D' op)
      (fun _ ↦ At (I (step h op)) d f) fun _ ↦ False)
    (hflush : ∀ h, Agree (Held (I h) 0 false) (@flush D) (@flush D') (fun _ ↦ At (I h) 0 false)
      fun _ ↦ False)
    (hsound : ∀ h d w, At (I h) d f w → sound h w) (p : Program Op) (h : H) (d : Nat) :
    Agree (At (I h) d f) (@run Op D (@perform D) p.code)
      (@run Op D' (@perform D') (p.watched step sound h)) (fun _ ↦ At (I (p.record step h)) d f)
      fun _ ↦ False := by
  induction p generalizing h d with
  | done => exact agree_guarded (hsound h d) (agree_pure fun _ hw ↦ hw)
  | act op next ih =>
    exact agree_guarded (hsound h d) (agree_bind (hperform h op d f) fun _ ↦ ih (step h op) d)
  | batch body next ihbody ihnext =>
    have hbody := (ihbody h (d + 1)).mono (fun w (hw : Held (I h) (d + 1) f w) ↦
      hw.at_busy (.inl (Nat.succ_pos d))) (fun _ w hw ↦ hw.toHeld) fun w hw ↦ hw
    have hbatch := agree_batch (C := fun _ ↦ False) (hI h) (hI (body.record step h)) hbody
      (fun _ _ ↦ hflush (body.record step h)) fun _ hw ↦ hw
    refine agree_guarded (hsound h d) ?_
    exact agree_bind (hbatch.pre fun w hw ↦ hw.toHeld) fun _ ↦ ihnext (body.record step h) d

end Run

end Program

end LiveGraph
