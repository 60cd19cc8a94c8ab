import LiveGraph.Proofs.Client.Run
import LiveGraph.Proofs.Reactive.Write
import LiveGraph.Proofs.Sheet.Bookkeeping

/-!
# What is done on a sheet

Whatever is done on a sheet keeps the books, as far as the calls and the computations it is made of do: computing
a value, a flush, what code can do, and code. Calls and computations are of that kind to any depth, by induction
on the depth.
-/

namespace LiveGraph.Sheet

open Act Ledger

variable {sheet : Sheet} {t : Terms sheet} {w w' : World} {d : Nat} {f : Bool} {C : World → Prop}

/-- The books of a world are kept. -/
def Kept (t : Terms sheet) (w : World) : Prop :=
  Books t w.ledger

theorem depthFree : DepthFree (Kept t) := fun _ _ h ↦ h

section Holding

theorem Standing.reap_eq {pins : List Pin} (h : sheet.Standing pins w.ledger) (hheld : sheet.handles ⊆ pins) :
    w.reap = w := by
  refine World.reap_of_pinned h.noViews fun id hid ↦ ?_
  rw [show w.pins = pins from h.pins_eq]
  refine hheld (List.mem_append_right _ (List.mem_map_of_mem (List.mem_range.mpr ?_)))
  exact Nat.lt_of_lt_of_eq hid h.deriveds_eq

theorem Kept.reap_eq (h : Kept t w) : w.reap = w :=
  h.standing.reap_eq t.held

/-- Holding on to one thing more. -/
theorem Kept.pin (h : Kept t w) (p : Pin) : Kept (t.holding p) (w.pin p) :=
  h.onward rfl { h.standing with pins_eq := congrArg (p :: ·) h.standing.pins_eq } { h.pending with }
    { h.named with } (.of_cell_eq rfl rfl) fun _ _ _ hk ↦ .inl hk

theorem Kept.unpin {p : Pin} (h : Kept (t.holding p) w) :
    w.unpin p = { w with pins := t.pins } ∧ Kept t { w with pins := t.pins } := by
  have hkept : Kept t { w with pins := t.pins } :=
    h.onward rfl { h.standing with pins_eq := rfl } { h.pending with } { h.named with }
      (.of_cell_eq rfl rfl) fun _ _ _ hk ↦ .inl hk
  have hpins : w.pins = p :: t.pins := h.standing.pins_eq
  refine ⟨?_, hkept⟩
  rw [World.unpin, hpins, List.erase_cons_head]
  exact hkept.reap_eq

theorem Held.unpin {p : Pin} (h : Held (Kept (t.holding p)) d f w) : Held (Kept t) d f (w.unpin p) := by
  obtain ⟨hunpin, hkept⟩ := h.holds.unpin
  rw [hunpin]
  exact ⟨hkept, h.depth_eq, h.flushing_eq⟩

end Holding

/-- What holds of the ledger and of nothing else still holds where work that is under way goes on. -/
theorem at_undisturbed {I I' : World → Prop} (h : At I d f w) (hsame : w.Undisturbed w') (hI : I' w') :
    At I' d f w' := by
  refine ⟨⟨hI, hsame.depth_eq.trans h.depth_eq, hsame.flushing_eq.trans h.flushing_eq⟩, fun hdepth hflushing ↦ ?_⟩
  obtain ⟨hqueue, heffects⟩ := h.idle (hsame.depth_eq ▸ hdepth) (hsame.flushing_eq ▸ hflushing)
  exact ⟨hsame.queue_eq.trans hqueue, (congrArg Ledger.effects hsame.ledger_eq).trans heffects⟩

theorem Kept.undisturbed (h : Kept t w) (hsame : w.Undisturbed w') : Kept t w' := by
  unfold Kept
  rw [hsame.ledger_eq]
  exact h

/-- The first value of a derived value. -/
theorem at_first {id : DerivedId} (hnone : (w.ledger.cell (.derived id)).value = none) (v : Datum)
    (h : At (Kept t) d f w) : At (Kept t) d f (w.modifyDerived id fun d ↦ { d with value := some v }) := by
  refine ⟨⟨?_, h.depth_eq, h.flushing_eq⟩, h.idle⟩
  by_cases hid : id < w.deriveds.size
  · unfold Kept
    rw [w.ledger_modifyDerived hid]
    exact h.holds.setValue hnone v
  · have hsame : w.Undisturbed (w.modifyDerived id fun d ↦ { d with value := some v }) :=
      .modifyDerived_of_size_le (Nat.le_of_not_lt hid) _
    exact h.holds.undisturbed hsame

/-- That a value is about to be computed is of no concern to those who watch. -/
theorem at_begun (h : At (Kept t) d f w) (id : DerivedId) :
    At (Kept t) d f (w.modifyDerived id fun d ↦ { d with stale := false, evaluating := true }) := by
  have hbegun : w.Undisturbed (w.modifyDerived id fun d ↦ { d with stale := false, evaluating := true }) := by
    apply World.Undisturbed.modifyDerived
    exact fun _ ↦ rfl
  exact at_undisturbed h hbegun (h.holds.undisturbed hbegun)

/-- A read is of no concern to those who watch. -/
theorem at_track (h : At (Kept t) d f w) (s : Source) : At (Kept t) d f (w.track s) := by
  unfold World.track
  split
  · exact h
  · exact ⟨⟨h.holds, h.depth_eq, h.flushing_eq⟩, h.idle⟩

theorem agree_read_signal (id : SignalId) : Agree (At (Kept t) d f) (Signal.read id)
    (Signal.read id) (fun _ ↦ At (Kept t) d f) C :=
  agree_bind (agree_modify fun _ hw ↦ at_track hw _) fun _ ↦ agree_get fun _ hw ↦ agree_pure fun _ hw' ↦ hw' ▸ hw

section Computing

variable {D : Dispatch} {id : DerivedId} {v : Datum}

/-- The books are kept, and it is written down who has to be told of what was computed, if it is another value
and was not computed in a circle. -/
def Judged (t : Terms sheet) (id : DerivedId) (v : Datum) (cyclic : Bool) (w : World) : Prop :=
  ∃ l, Books t l ∧ w.ledger = if (!cyclic && (l.cell (.derived id)).alters v) = true then l.owe (.derived id) else l

theorem Judged.undisturbed {cyclic : Bool} (h : Judged t id v cyclic w) (hsame : w.Undisturbed w') :
    Judged t id v cyclic w' := by
  unfold Judged
  rw [hsame.ledger_eq]
  exact h

theorem Judged.reap_eq {cyclic : Bool} (h : Judged t id v cyclic w) : w.reap = w := by
  obtain ⟨l, hbooks, hledger⟩ := h
  have hstanding : sheet.Standing t.pins w.ledger := by
    rw [hledger]
    split
    · exact { hbooks.standing with }
    · exact hbooks.standing
  exact hstanding.reap_eq t.held

/-- What is held, and how it is compared, is not changed by writing down who has to be told. -/
theorem Judged.cases {cyclic : Bool} (h : Judged t id v cyclic w) :
    Kept t w ∧ (cyclic = true ∨ (w.ledger.cell (.derived id)).alters v = false) ∨
      cyclic = false ∧ (w.ledger.cell (.derived id)).alters v = true ∧
        ∃ l, Books t l ∧ w.ledger = l.owe (.derived id) := by
  obtain ⟨l, hbooks, hledger⟩ := h
  split at hledger
  · rename_i halters
    rw [Bool.and_eq_true, Bool.not_eq_true'] at halters
    refine .inr ⟨halters.1, ?_, l, hbooks, hledger⟩
    rw [hledger]
    exact halters.2
  · rename_i halters
    refine .inl ⟨?_, ?_⟩
    · unfold Kept
      rw [hledger]
      exact hbooks
    · rw [hledger]
      simpa [or_iff_not_imp_left] using halters

/-- An evaluation that is over has its say in what is read and in what is dropped, not in who has to be told. -/
theorem at_evaluated {frame : Frame} (h : At (Judged t id v frame.cyclic) d f w) :
    At (Judged t id v frame.cyclic) d f (((w.modifyDerived id fun d ↦ { d with evaluating := false }).retrack id
      frame.sources).modifyDerived id fun d ↦ { d with cyclic := frame.cyclic }).reap := by
  have hevaluated : w.Undisturbed (w.modifyDerived id fun d ↦ { d with evaluating := false }) := by
    apply World.Undisturbed.modifyDerived
    exact fun _ ↦ rfl
  have hflagged (w : World) : w.Undisturbed (w.modifyDerived id fun d ↦ { d with cyclic := frame.cyclic }) := by
    apply World.Undisturbed.modifyDerived
    exact fun _ ↦ rfl
  have hended := (hevaluated.trans (.retrack _ id frame.sources)).trans (hflagged _)
  have hjudged := h.holds.undisturbed hended
  rw [hjudged.reap_eq]
  exact at_undisturbed h hended hjudged

/-- Where it is written down who has to be told of another value, the value is kept. -/
theorem held_keep {I : World → Prop} (h : Held I d f w) {l : Ledger} (hbooks : Books t l)
    (howed : w.ledger = l.owe (.derived id)) {previous : Datum} (hprevious : (w.derived id).value = some previous)
    (v : Datum) : Held (Kept t) d f (w.keep id v) := by
  have hid : id < w.deriveds.size := Nat.lt_of_not_le fun hle ↦ by
    rw [w.derived_of_size_le hle] at hprevious
    exact nomatch hprevious
  have hkeep : Kept t (w.keep id v) := by
    unfold Kept
    rw [w.ledger_keep hid, howed]
    exact hbooks.change _ v
  obtain ⟨_, _, _, heq⟩ := w.keep_eq id v
  refine ⟨hkeep, ?_, ?_⟩
  · rw [heq]
    exact h.depth_eq
  · rw [heq]
    exact h.flushing_eq

/-- Computations keep the books, and write down who has to be told of what they come to. -/
def ComputesKeep (sheet : Sheet) (D : Dispatch) : Prop :=
  ∀ (t : Terms sheet) id d f, (f = false → t.pass = none) → Agree (At (Kept t) d f) (D.compute id) (D.compute id)
    (fun v ↦ At (fun w ↦ Judged t id v (w.frames.headD default).cyclic w) d f) fun _ ↦ False

variable (hcompute : ComputesKeep sheet D) (hpass : f = false → t.pass = none)
include hcompute hpass

theorem agree_evaluating (id : DerivedId) : Agree (At (Kept t) d f) (Act.evaluating id (D.compute id))
    (Act.evaluating id (D.compute id)) (fun x ↦ At (Judged t id x.1 x.2.cyclic) d f) C := by
  refine agree_bind (agree_modify (Q := fun _ ↦ At (Kept t) d f) fun w hw ↦
    ⟨⟨hw.holds, hw.depth_eq, hw.flushing_eq⟩, hw.idle⟩) fun _ ↦ ?_
  refine agree_bind (agree_orElse (hcompute t id d f hpass) fun _ h ↦ h.elim) fun v ↦ ?_
  refine agree_get fun w hw ↦ ?_
  refine agree_bind (agree_modify (Q := fun _ ↦ At (Judged t id v (w.frames.headD default).cyclic) d f)
    fun w' hw' ↦ ?_) fun _ ↦ agree_pure fun _ h ↦ h
  subst hw'
  exact ⟨⟨hw.holds, hw.depth_eq, hw.flushing_eq⟩, hw.idle⟩

/-- Computing a derived value keeps the books, and it tells whether there is anything to be done. -/
theorem agree_recompute (id : DerivedId) : Agree (At (Kept t) d f) (@Derived.recompute D id)
    (@Derived.recompute D id) (fun b w ↦ Held (Kept t) d f w ∧ (b = false → w.Idle)) C := by
  have hdone {w : World} (hw : At (Kept t) d f w) : Held (Kept t) d f w ∧ (false = false → w.Idle) :=
    ⟨hw.toHeld, fun _ ↦ hw.idle⟩
  refine agree_get fun w hw ↦ agree_ite (fun _ ↦ agree_pure fun w' hw' ↦ hw' ▸ hdone hw) fun _ ↦ ?_
  refine agree_bind (agree_modify (Q := fun _ ↦ At (Kept t) d f) fun w' hw' ↦ hw' ▸ at_begun hw id) fun _ ↦
    agree_bind (agree_evaluating hcompute hpass id) fun ⟨v, frame⟩ ↦ ?_
  refine agree_bind (agree_modify (Q := fun _ ↦ At (Judged t id v frame.cyclic) d f) fun _ hw' ↦ at_evaluated hw')
    fun _ ↦ ?_
  refine agree_ite (fun hcyclic ↦ agree_pure fun w' hw' ↦ ?_) fun hcyclic ↦ ?_
  · rcases hw'.holds.cases with ⟨hkept, -⟩ | ⟨hnot, -⟩
    · exact hdone ⟨⟨hkept, hw'.depth_eq, hw'.flushing_eq⟩, hw'.idle⟩
    · exact absurd (hcyclic.symm.trans hnot) (by decide)
  refine agree_get fun w' hw' ↦ ?_
  have hvalue : (w'.ledger.cell (.derived id)).value = (w'.derived id).value := rfl
  have hequality : (w'.ledger.cell (.derived id)).equality = (w'.derived id).equality := rfl
  have hcases := hw'.holds.cases
  unfold Cell.alters at hcases
  rw [hvalue, hequality] at hcases
  dsimp only
  cases hprevious : (w'.derived id).value with
  | none =>
    rw [hprevious] at hcases hvalue
    rcases hcases with ⟨hkept, -⟩ | ⟨-, hnot, -⟩
    · refine agree_bind (agree_modify (Q := fun _ ↦ At (Kept t) d f) fun w'' hw'' ↦ ?_) fun _ ↦
        agree_pure fun _ h ↦ hdone h
      subst hw''
      exact at_first hvalue v ⟨⟨hkept, hw'.depth_eq, hw'.flushing_eq⟩, hw'.idle⟩
    · exact nomatch hnot
  | some previous =>
    rw [hprevious] at hcases
    rcases hcases with ⟨hkept, hsame⟩ | ⟨-, hdiffers, l, hbooks, hledger⟩
    · have hequal : (w'.derived id).equality.holds previous v = true := by
        simpa using hsame.resolve_left hcyclic
      simp only [hequal, if_true]
      exact agree_pure fun w'' hw'' ↦ hw'' ▸ hdone ⟨⟨hkept, hw'.depth_eq, hw'.flushing_eq⟩, hw'.idle⟩
    · have hdiffer : (w'.derived id).equality.holds previous v = false := by
        simpa using hdiffers
      simp only [hdiffer, Bool.false_eq_true, if_false]
      refine agree_bind (agree_modify (Q := fun _ ↦ Held (Kept t) d f) fun w'' hw'' ↦ ?_) fun _ ↦
        agree_pure fun _ h ↦ ⟨h, fun hnot ↦ nomatch hnot⟩
      subst hw''
      exact held_keep hw'.toHeld hbooks hledger hprevious v

variable (hflush : ∀ t : Terms sheet, t.pass = none → Agree (Held (Kept t) 0 false) (@flush D) (@flush D)
  (fun _ ↦ At (Kept t) 0 false) fun _ ↦ False)
include hflush

/-- A derived value is brought up to date with what follows from that. -/
theorem agree_refresh (id : DerivedId) : Agree (At (Kept t) d f) (@Derived.refresh D id) (@Derived.refresh D id)
    (fun _ ↦ At (Kept t) d f) C := by
  refine agree_bind (agree_recompute hcompute hpass id) fun b ↦ agree_ite (fun _ ↦ ?_) fun hb ↦
    agree_pure fun w hw ↦ ⟨hw.1, hw.2 (Bool.eq_false_iff.mpr hb)⟩
  refine (agree_flushOutside fun _ hf ↦ ?_).pre fun w hw ↦ hw.1
  exact (hflush t (hpass hf)).mono (fun _ h ↦ h) (fun _ _ h ↦ h) fun _ h ↦ h.elim

theorem agree_read_derived (id : DerivedId) : Agree (At (Kept t) d f) (@Derived.read D id) (@Derived.read D id)
    (fun _ ↦ At (Kept t) d f) C := by
  refine agree_get fun w hw ↦ agree_ite (fun _ ↦ ?_) fun _ ↦ agree_ite (fun _ ↦ ?_) fun _ ↦ ?_
  · refine agree_bind (agree_modify (Q := fun _ ↦ At (Kept t) d f) fun w' hw' ↦ ?_) fun _ ↦ agree_pure fun _ h ↦ h
    subst hw'
    exact ⟨⟨hw.holds, hw.depth_eq, hw.flushing_eq⟩, hw.idle⟩
  · exact agree_pure fun w' hw' ↦ hw' ▸ hw
  · refine agree_bind (agree_modify (Q := fun _ ↦ At (Kept t) d f) fun w' hw' ↦ hw' ▸ at_track hw _) fun _ ↦ ?_
    have hanswer : Agree (At (Kept t) d f) (do
          let d := (← get).derived id
          if d.cyclic then return .error .cycle
          return d.value.elim (.error .cycle) .ok : Act (Except Fault Datum)) (do
          let d := (← get).derived id
          if d.cyclic then return .error .cycle
          return d.value.elim (.error .cycle) .ok) (fun _ ↦ At (Kept t) d f) C :=
      agree_get fun w hw ↦ agree_ite (fun _ ↦ agree_pure fun w' hw' ↦ hw' ▸ hw) fun _ ↦
        agree_pure fun w' hw' ↦ hw' ▸ hw
    exact agree_ite (fun _ ↦ agree_bind (agree_refresh hcompute hpass hflush id) fun _ ↦ hanswer) fun _ ↦ hanswer

/-- An evaluation keeps the books, whatever it reads. -/
theorem agree_reading (r : Reading) : Agree (At (Kept t) d f) (@Reading.run D acceptAll r)
    (@Reading.run D acceptAll r) (fun _ ↦ At (Kept t) d f) C := by
  induction r with
  | done v => exact agree_pure fun _ h ↦ h
  | signal id next ih =>
    exact agree_bind (agree_read_signal id) fun v ↦ agree_ite (fun _ ↦ ih v) fun hnot ↦ absurd rfl hnot
  | derived id next ih =>
    exact agree_bind (agree_read_derived hcompute hpass hflush id) fun answer ↦
      agree_ite (fun _ ↦ ih answer) fun hnot ↦ absurd rfl hnot

/-- A subscription is refused, or it is one more, in a world where the books are kept. -/
theorem agree_watch (s : Source) (callback : Callback) : Agree (At (Kept t) d f) (@Source.watch D callback s)
    (@Source.watch D callback s) (fun subscription w ↦ subscription = none ∧ At (Kept t) d f w ∨
      ∃ w₀, At (Kept t) d f w₀ ∧ (subscription, w) = w₀.subscribe s.channel callback) C := by
  cases s with
  | signal id =>
    refine agree_get fun w hw ↦ agree_ite (fun _ ↦ agree_pure fun w' hw' ↦ .inl ⟨rfl, hw' ▸ hw⟩) fun _ ↦ ?_
    exact agree_modifyGet fun w' hw' ↦ .inr ⟨w, hw, hw' ▸ rfl⟩
  | derived id =>
    refine agree_get fun w hw ↦ agree_ite (fun _ ↦ agree_pure fun w' hw' ↦ .inl ⟨rfl, hw' ▸ hw⟩) fun _ ↦ ?_
    have hsubscribe : Agree (At (Kept t) d f) (modifyGet (·.subscribe (.derived id) callback) : Act Subscription)
        (modifyGet (·.subscribe (.derived id) callback)) (fun subscription w ↦
          subscription = none ∧ At (Kept t) d f w ∨
            ∃ w₀, At (Kept t) d f w₀ ∧ (subscription, w) = w₀.subscribe (.derived id) callback) C :=
      agree_modifyGet fun w hw ↦ .inr ⟨w, hw, rfl⟩
    refine agree_ite (fun _ ↦ agree_bind (agree_untracked (fun w' hw' ↦ ?_)
      (agree_refresh (d := d) hcompute hpass hflush id) (fun _ w' hw' ↦ ?_) fun _ h ↦ h) fun _ ↦ hsubscribe) fun _ ↦
        hsubscribe.pre fun w' hw' ↦ hw' ▸ hw
    · subst hw'
      exact ⟨⟨hw.holds, hw.depth_eq, hw.flushing_eq⟩, hw.idle⟩
    · have hpopped : Kept t w'.popFrame := hw'.holds
      rw [hpopped.reap_eq]
      exact ⟨⟨hpopped, hw'.depth_eq, hw'.flushing_eq⟩, hw'.idle⟩

end Computing

end LiveGraph.Sheet
