import LiveGraph.Proofs.Sheet.Deeds

/-!
# Flushes of a sheet

A flush computes what is queued, and then tells what waits to be told, one source after the other. While those
who watch a source are called the calls under way are on the books: each call strikes one off, whatever code it
carries out, and at the end nobody is left on the list.
-/

namespace LiveGraph.Sheet

open Act Ledger

variable {sheet : Sheet} {t : Terms sheet} {w w' : World} {C : World → Prop} {D : Dispatch}

/-- A call tells who is on the list, strikes it off, and keeps the books in what else it does, also where it
crashes. -/
def CallsKeep (sheet : Sheet) (D : Dispatch) : Prop :=
  ∀ (t : Terms sheet) s v k name rest, Agree
    (fun w ↦ Held (Kept (t.passing (some ⟨s, v, (k, .script name .every []) :: rest⟩))) 0 true w ∧
      w.ledger.Registered s k name)
    (D.call (.script name .every []) (.value v)) (D.call (.script name .every []) (.value v))
    (fun _ ↦ Held (Kept (t.passing (some ⟨s, v, rest⟩))) 0 true)
    (Held (Kept (t.passing (some ⟨s, v, rest⟩))) 0 true)

section Telling

variable {s : Source} {v : Datum} {effects : List Effect}

/-- Whoever is on the list and still watches is the one that was put there. -/
theorem Kept.registered {k : Nat} {callback : Callback} {rest : List (Nat × Callback)}
    (h : Kept (t.passing (some ⟨s, v, (k, callback) :: rest⟩)) w)
    (hthere : (w.watchers s.channel).contains k = true) :
    ∃ name, callback = .script name .every [] ∧ w.ledger.Registered s k name := by
  rw [w.watchers_channel] at hthere
  obtain ⟨e, he, hk⟩ := List.any_eq_true.mp hthere
  have hsame := (h.underway _ rfl).eq_of_number _ List.mem_cons_self e he (of_decide_eq_true hk)
  obtain ⟨name, hname, hregistered⟩ := h.pending.exists_registered he
  rw [hsame, Prod.mk.injEq] at hname
  rw [hsame] at hregistered
  exact ⟨name, hname.2, hregistered⟩

variable (hcall : CallsKeep sheet D)
include hcall

/-- The calls strike off everybody on the list. -/
theorem agree_notifyEach_listed (callbacks : List (Nat × Callback)) :
    Agree (Held (Kept (t.passing (some ⟨s, v, callbacks⟩))) 0 true)
      (@notifyEach D s.channel (.value v) callbacks) (@notifyEach D s.channel (.value v) callbacks)
      (fun _ ↦ Held (Kept (t.passing (some ⟨s, v, []⟩))) 0 true) C := by
  refine agree_notifyEach_there (P := fun callbacks ↦ Held (Kept (t.passing (some ⟨s, v, callbacks⟩))) 0 true)
    callbacks (fun k callback rest w hw hgone ↦ ?_) fun k callback rest w hw ↦ ?_
  · rw [w.watchers_channel] at hgone
    exact ⟨hw.holds.skip hgone, hw.depth_eq, hw.flushing_eq⟩
  · obtain ⟨name, rfl, hregistered⟩ := hw.1.holds.registered hw.2
    exact hcall t s v k name rest w ⟨hw.1, hregistered⟩

/-- Those who watch a source are told what it holds. -/
theorem agree_notify_begun (hkept : Kept t w) (hnone : t.pass = none) (heffects : w.effects = s.effect :: effects)
    (hv : (w.ledger.cell s).value = some v) (hledger : w'.ledger = w.ledger.quiet s effects)
    (hdepth : w'.depth = 0) (hflushing : w'.flushing = true) :
    Agree (· = w') (@notify D s.channel (.value v)) (@notify D s.channel (.value v))
      (fun _ ↦ Held (Kept t) 0 true) C := by
  refine agree_get fun w₁ hw₁ ↦ ?_
  subst hw₁
  have hcell : (w.ledger.quiet s effects).cell s = { w.ledger.cell s with notifying := false } := cell_setCell_self
  have hentries : (w₁.watchers s.channel).entries = (w.ledger.cell s).watchers.entries := by
    rw [w₁.watchers_channel]
    change (w₁.ledger.cell s).watchers.entries = _
    rw [hledger, hcell]
  have hbegun : Kept (t.passing (some ⟨s, v, (w₁.watchers s.channel).entries⟩)) w₁ := by
    unfold Kept
    rw [hentries, hledger]
    exact hkept.begin hnone heffects hv
  refine Agree.mono (agree_notifyEach_listed (t := t) hcall _) (fun w' hw' ↦ ?_) (fun _ w' hw' ↦ ?_) fun _ h ↦ h
  · subst hw'
    exact ⟨hbegun, hdepth, hflushing⟩
  · exact ⟨Books.finish hw'.holds hnone, hw'.depth_eq, hw'.flushing_eq⟩

omit hcall in
/-- Those who watch a source that has ended are not told. -/
theorem Kept.ended (h : Kept t w) (hnone : t.pass = none) (heffects : w.effects = s.effect :: effects)
    (hledger : w'.ledger = w.ledger.quiet s effects) (hdisposed : (w.ledger.cell s).disposed = true) : Kept t w' := by
  unfold Kept
  rw [hledger]
  refine Books.quiet h hnone heffects (fun p hp ↦ ?_) (fun k name hnot _ ↦ ?_) rfl rfl
  · rw [hnone] at hp
    exact nomatch hp
  · exact absurd (hdisposed.symm.trans hnot) (by decide)

/-- Telling those who watch a plain value keeps the books. -/
theorem agree_effect_signal {id : SignalId} (hw : Held (Kept t) 0 true w) (hnone : t.pass = none)
    (heffects : w.effects = .signal id :: effects) :
    Agree (· = { w with effects := effects }) (@Effect.run D (.signal id)) (@Effect.run D (.signal id))
      (fun _ ↦ Held (Kept t) 0 true) C := by
  have hmem : .signal id ∈ w.effects := heffects ▸ List.mem_cons_self
  have hnotifying : (w.signal id).notifying = true := (hw.holds.pending.effect_iff (.signal id)).mp hmem
  have hsize : id < w.signals.size := Nat.lt_of_not_le fun hle ↦ by
    rw [w.signal_of_size_le hle] at hnotifying
    exact Bool.noConfusion hnotifying
  have hheld : ({ w with effects := effects } : World).isSignalHeld id = true := by
    have hcount : w.signals.size = sheet.initial.length := hw.holds.standing.signals_eq
    have hpin : .signal id ∈ w.pins := by
      rw [show w.pins = t.pins from hw.holds.standing.pins_eq]
      refine t.held (List.mem_append_left _ (List.mem_map_of_mem (List.mem_range.mpr ?_)))
      exact Nat.lt_of_lt_of_eq hsize hcount
    have hcontains : w.pins.contains (.signal id) = true := List.contains_iff_mem.mpr hpin
    simp only [World.isSignalHeld, hcontains, Bool.or_true, Bool.true_or]
  have hledger : (({ w with effects := effects } : World).modifySignal id
      fun s ↦ { s with notifying := false }).ledger = w.ledger.quiet (.signal id) effects :=
    World.ledger_quiet_signal { w with effects := effects } hsize
  have hself := World.signal_modifySignal_self { w with effects := effects } hsize
    fun s ↦ { s with notifying := false }
  refine agree_get fun w₀ hw₀ ↦ ?_
  subst hw₀
  refine agree_ite (fun _ ↦ ?_) fun hnot ↦ absurd hheld hnot
  refine agree_bind (agree_change _) fun _ ↦ agree_get fun w₁ hw₁ ↦ ?_
  rw [hw₁, hself]
  refine agree_ite (fun _ ↦ ?_) fun hdisposed ↦ agree_pure fun w' hw' ↦ ?_
  · exact agree_notify_begun hcall (s := .signal id) hw.holds hnone heffects rfl hledger hw.depth_eq hw.flushing_eq
  · subst hw'
    have hended : (w.signal id).disposed = true := by
      rw [Bool.not_eq_true', Bool.not_eq_false] at hdisposed
      exact hdisposed
    exact ⟨hw.holds.ended (s := .signal id) hnone heffects hledger hended, hw.depth_eq, hw.flushing_eq⟩

/-- So does telling those who watch a derived value, which is held on to meanwhile. -/
theorem agree_effect_derived {id : DerivedId} (hw : Held (Kept t) 0 true w) (hnone : t.pass = none)
    (heffects : w.effects = .derived id :: effects) :
    Agree (· = { w with effects := effects }) (@Effect.run D (.derived id)) (@Effect.run D (.derived id))
      (fun _ ↦ Held (Kept t) 0 true) C := by
  have hmem : .derived id ∈ w.effects := heffects ▸ List.mem_cons_self
  have hnotifying : (w.derived id).notifying = true := (hw.holds.pending.effect_iff (.derived id)).mp hmem
  have hsize : id < w.deriveds.size := Nat.lt_of_not_le fun hle ↦ by
    rw [w.derived_of_size_le hle] at hnotifying
    exact Bool.noConfusion hnotifying
  have hundropped : (w.derived id).dropped = false :=
    hw.holds.standing.undropped id (Nat.lt_of_lt_of_eq hsize hw.holds.standing.deriveds_eq)
  have hpinned := hw.holds.pin (.derived id)
  let w₀ : World := World.pin { w with effects := effects } (.derived id)
  have hledger : (w₀.modifyDerived id fun d ↦ { d with notifying := false }).ledger =
      (w.pin (.derived id)).ledger.quiet (.derived id) effects := w₀.ledger_quiet_derived hsize
  have hself := w₀.derived_modifyDerived_self hsize fun d ↦ { d with notifying := false }
  refine agree_get fun w' hw' ↦ ?_
  subst hw'
  have hthere : (!(({ w with effects := effects } : World).derived id).dropped) = true :=
    (Bool.not_eq_true' _).mpr hundropped
  refine agree_ite (fun _ ↦ ?_) fun hdropped ↦ absurd hthere hdropped
  refine agree_holding_known (Q := fun _ ↦ Held (Kept (t.holding (.derived id))) 0 true) (C := fun _ ↦ False) ?_
    (fun _ w' hw' ↦ Held.unpin hw') fun _ h ↦ h.elim
  refine agree_bind (agree_change _) fun _ ↦ agree_get fun w₁ hw₁ ↦ ?_
  rw [hw₁, hself]
  have hvalued : (w.derived id).value.isSome := hw.holds.pending.valued (.derived id) hnotifying
  obtain ⟨v, hv⟩ := Option.isSome_iff_exists.mp hvalued
  have hv₀ : (w₀.derived id).value = some v := hv
  cases hdisposed : (w.derived id).disposed with
  | false =>
    have hdisposed₀ : (w₀.derived id).disposed = false := hdisposed
    simp only [hdisposed₀, hv₀]
    exact agree_notify_begun hcall (s := .derived id) hpinned hnone heffects hv hledger hw.depth_eq hw.flushing_eq
  | true =>
    have hdisposed₀ : (w₀.derived id).disposed = true := hdisposed
    simp only [hdisposed₀]
    refine agree_pure fun w' hw' ↦ ?_
    subst hw'
    exact ⟨hpinned.ended (s := .derived id) hnone heffects hledger hdisposed, hw.depth_eq, hw.flushing_eq⟩

/-- Telling what is to be told first keeps the books. -/
theorem agree_effect {effect : Effect} (hw : Held (Kept t) 0 true w) (hnone : t.pass = none)
    (heffects : w.effects = effect :: effects) :
    Agree (· = { w with effects := effects }) (@Effect.run D effect) (@Effect.run D effect)
      (fun _ ↦ Held (Kept t) 0 true) C := by
  cases effect with
  | signal id => exact agree_effect_signal hcall hw hnone heffects
  | derived id => exact agree_effect_derived hcall hw hnone heffects
  | view id =>
    have hmem : .view id ∈ w.effects := heffects ▸ List.mem_cons_self
    exact absurd hmem (hw.holds.pending.noView id)

end Telling

variable (hcompute : ComputesKeep sheet D) (hcall : CallsKeep sheet D)
include hcompute hcall

/-- Each round of a flush keeps the books. -/
theorem rounds (hnone : t.pass = none) : Rounds D D (Kept t) fun _ ↦ False where
  rounds_eq := rfl
  compute w id w' hw hpop := by
    have hpopped : ∃ rest, w' = { w with queue := rest } := by
      unfold World.popQueued? at hpop
      split at hpop
      · exact nomatch hpop
      · obtain ⟨-, rfl⟩ := Prod.mk.inj (Option.some.inj hpop)
        exact ⟨_, rfl⟩
    obtain ⟨rest, rfl⟩ := hpopped
    have hkept : Kept t { w with queue := rest } := hw.holds
    have hpinned : Held (Kept (t.holding (.derived id))) 0 true (({ w with queue := rest } : World).pin (.derived id)) :=
      ⟨hkept.pin (.derived id), hw.depth_eq, hw.flushing_eq⟩
    have hrecompute : Agree (Held (Kept (t.holding (.derived id))) 0 true) (do let _ ← @Derived.recompute D id)
        (do let _ ← @Derived.recompute D id) (fun _ ↦ Held (Kept (t.holding (.derived id))) 0 true) fun _ ↦ False :=
      agree_bind ((agree_recompute (f := true) hcompute Bool.noConfusion id).pre fun w hw ↦ hw.at_busy (.inr rfl))
        fun _ ↦ agree_pure fun _ h ↦ h.1
    exact agree_holding (fun w' hw' ↦ hw' ▸ hpinned) hrecompute (fun _ w' hw' ↦ Held.unpin hw') fun _ h ↦ h
  tell w effect rest hw _ heffects := by
    have hpushed : Held (Kept t) 0 true (({ w with queue := [] } : World).pushFrame none) :=
      ⟨hw.holds, hw.depth_eq, hw.flushing_eq⟩
    refine agree_untracked (fun w' hw' ↦ ?_) (agree_effect hcall hpushed hnone heffects) (fun _ w' hw' ↦ ?_)
      fun _ h ↦ h
    · subst hw'
      rfl
    · have hpopped : Kept t w'.popFrame := hw'.holds
      rw [hpopped.reap_eq]
      exact ⟨hpopped, hw'.depth_eq, hw'.flushing_eq⟩
  settled w hw _ _ := hw.holds

/-- Flushes keep the books. -/
theorem agree_flush_rounds (t : Terms sheet) (hnone : t.pass = none) :
    Agree (Held (Kept t) 0 false) (@flush D) (@flush D) (fun _ ↦ At (Kept t) 0 false) fun _ ↦ False :=
  (rounds hcompute hcall hnone).agree_flush (fun _ hw ↦ hw.holds) fun _ h ↦ h

end LiveGraph.Sheet
