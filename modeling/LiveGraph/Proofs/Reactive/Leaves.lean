import LiveGraph.Proofs.Network.Recomputation
import LiveGraph.Proofs.Sheet.Ledger

/-!
# Derived values over signals

A derived value that reads signals, and that nothing else is computed from, has little to do with its neighbours. Its
evaluation records the signals it was read from and makes it observe them, whatever it observed before; a change of
its value is passed on to nobody. What is queued is queued once.
-/

namespace LiveGraph.World

open Act

section Recording

variable {w : World} {d : DerivedId} {f : Frame} {fs : List Frame}

/-- A frame records the signals that are read. -/
theorem foldl_observe {ts : List Topic} (hts : ∀ t ∈ ts, ∃ j, t = .signal j) (hframes : w.frames = f :: fs)
    (howner : f.owner = some d) :
    ∃ f', ts.foldl observe w = { w with frames := f' :: fs } ∧ f'.cyclic = f.cyclic ∧
      ∀ s, s ∈ f'.sources ↔ s ∈ f.sources ∨ ∃ j, s = .signal j ∧ Topic.signal j ∈ ts := by
  induction ts generalizing w f with
  | nil =>
    refine ⟨f, ?_, rfl, fun s ↦ (or_iff_left fun ⟨_, _, h⟩ ↦ List.not_mem_nil h).symm⟩
    rw [← hframes]
    rfl
  | cons t rest ih =>
    obtain ⟨j, rfl⟩ := hts t List.mem_cons_self
    have hrecorded : Network.Recorded w d fs f.sources f := ⟨hframes, howner, fun _ ↦ Iff.rfl⟩
    have hread := hrecorded.track (.signal j) rfl
    obtain ⟨f', hrest, hcyclic, hsources⟩ := ih (fun t ht ↦ hts t (List.mem_cons_of_mem _ ht))
      hread.frames_eq hread.owner_eq
    refine ⟨f', ?_, hcyclic.trans (Network.cyclic_read f _), fun s ↦ ?_⟩
    · change rest.foldl observe (w.track (.signal j)) = _
      rw [hrest, track, hframes]
    · rw [hsources, hread.mem_iff, List.mem_append, List.mem_singleton, or_assoc]
      refine or_congr_right ⟨?_, ?_⟩
      · rintro (rfl | ⟨i, rfl, hi⟩)
        · exact ⟨j, rfl, List.mem_cons_self⟩
        · exact ⟨i, rfl, List.mem_cons_of_mem _ hi⟩
      · rintro ⟨i, rfl, hi⟩
        rcases List.mem_cons.mp hi with hi | hi
        · exact .inl (congrArg Source.signal (Topic.signal.inj hi))
        · exact .inr ⟨i, rfl, hi⟩

end Recording

section Observing

variable {w : World} {id j : DerivedId} {s s' : Source}

theorem mem_observersOf_removeObserver (h : j ∈ w.observersOf s) (hother : j ≠ id ∨ s ≠ s') :
    j ∈ (w.removeObserver id s').observersOf s := by
  have herase : ∀ {α : Type} [BEq α] [LawfulBEq α] {observers : List α} {a b : α}, a ∈ observers → a ≠ b →
      a ∈ observers.erase b := fun hmem hne ↦ (List.mem_erase_of_ne hne).mpr hmem
  cases s' with
  | signal i' =>
    cases s with
    | derived i => exact h
    | signal i =>
      change j ∈ ((w.modifySignal i' _).signal i).observers
      rw [signal_modifySignal]
      split
      · rename_i hsame
        exact herase h (hother.resolve_right fun hne ↦ hne (congrArg Source.signal hsame.1.symm))
      · exact h
  | derived i' =>
    cases s with
    | signal i => exact h
    | derived i =>
      change j ∈ ((w.modifyDerived i' _).derived i).observers
      rw [derived_modifyDerived]
      split
      · rename_i hsame
        exact herase h (hother.resolve_right fun hne ↦ hne (congrArg Source.derived hsame.1.symm))
      · exact h

theorem mem_observersOf_foldl_removeObserver {ss : List Source} (h : j ∈ w.observersOf s)
    (hother : j ≠ id ∨ s ∉ ss) : j ∈ (ss.foldl (fun w s ↦ w.removeObserver id s) w).observersOf s := by
  induction ss generalizing w with
  | nil => exact h
  | cons s' rest ih =>
    refine ih (mem_observersOf_removeObserver h (hother.imp_right fun hnot ↦ ?_)) (hother.imp_right fun hnot ↦ ?_)
    · rintro rfl
      exact hnot List.mem_cons_self
    · exact fun hmem ↦ hnot (List.mem_cons_of_mem _ hmem)

/-- To observe signals, or no longer to, changes no derived value. -/
theorem deriveds_foldl_of_signals {f : World → Source → World} (hf : ∀ w i, (f w (.signal i)).deriveds = w.deriveds)
    {ss : List Source} (hss : ∀ s ∈ ss, ∃ i, s = .signal i) : (ss.foldl f w).deriveds = w.deriveds := by
  induction ss generalizing w with
  | nil => rfl
  | cons s rest ih =>
    obtain ⟨i, rfl⟩ := hss s List.mem_cons_self
    exact (ih fun s hs ↦ hss s (List.mem_cons_of_mem _ hs)).trans (hf w i)

theorem deriveds_addObserver (w : World) (id : DerivedId) (i : SignalId) :
    (w.addObserver id (.signal i)).deriveds = w.deriveds := by
  unfold addObserver
  split <;> rfl

/-- Two worlds, before and after something was done about a derived value: it is another one by now and observes some
sources, and no other observes less than before. -/
structure Reworked (w w' : World) (d : DerivedId) (x : Derived) (ss : List Source) : Prop where
  derived_self : w'.derived d = x
  derived_other : ∀ j ≠ d, w'.derived j = w.derived j
  signal_eq : ∀ j, { w'.signal j with observers := [] } = { w.signal j with observers := [] }
  observed_other : ∀ j ≠ d, ∀ s, j ∈ w.observersOf s → j ∈ w'.observersOf s
  observed : ∀ s ∈ ss, d ∈ w'.observersOf s
  signals_size : w'.signals.size = w.signals.size
  deriveds_size : w'.deriveds.size = w.deriveds.size
  others : ∃ signals deriveds, w' = { w with signals := signals, deriveds := deriveds }

namespace Reworked

variable {w' : World} {d : DerivedId} {x : Derived} {ss : List Source}

theorem modify (h : w.Reworked w' d x ss) (hd : d < w.deriveds.size) {f : Derived → Derived}
    (hf : ∀ x, (f x).observers = x.observers) : w.Reworked (w'.modifyDerived d f) d (f x) ss := by
  refine ⟨?_, fun j hj ↦ ?_, h.signal_eq, fun j hj s hs ↦ ?_, fun s hs ↦ ?_, h.signals_size, ?_, ?_⟩
  · rw [w'.derived_modifyDerived_self (h.deriveds_size.symm ▸ hd), h.derived_self]
  · rw [w'.derived_modifyDerived_of_ne hj, h.derived_other j hj]
  · rw [w'.observersOf_modifyDerived hf]
    exact h.observed_other j hj s hs
  · rw [w'.observersOf_modifyDerived hf]
    exact h.observed s hs
  · rw [size_modifyDerived, h.deriveds_size]
  · obtain ⟨signals, deriveds, rfl⟩ := h.others
    exact ⟨signals, _, rfl⟩

/-- What was done about it before counts as well. -/
theorem before {w₀ : World} (h : w₀.Reworked w' d x ss) (hothers : ∃ deriveds, w₀ = { w with deriveds := deriveds })
    (hother : ∀ j ≠ d, w₀.derived j = w.derived j) (hsize : w₀.deriveds.size = w.deriveds.size)
    (hobservers : ∀ s, w₀.observersOf s = w.observersOf s) : w.Reworked w' d x ss := by
  obtain ⟨signals, deriveds, hw'⟩ := h.others
  obtain ⟨_, rfl⟩ := hothers
  exact ⟨h.derived_self, fun j hj ↦ (h.derived_other j hj).trans (hother j hj), h.signal_eq,
    fun j hj s hs ↦ h.observed_other j hj s (hobservers s ▸ hs), h.observed, h.signals_size,
    h.deriveds_size.trans hsize, signals, deriveds, hw'⟩

end Reworked

/-- The next evaluation of a derived value over signals: it observes what it has read. -/
theorem reworked_retrack (hid : id < w.deriveds.size) {next : List Source}
    (hprevious : ∀ s ∈ (w.derived id).sources, (∃ i, s = .signal i) ∧ id ∈ w.observersOf s)
    (hnext : ∀ s ∈ next, (∃ i, s = .signal i) ∧ w.Observable s) :
    w.Reworked (w.retrack id next) id { w.derived id with sources := next, height := 1 } next := by
  let gone := (w.derived id).sources.filter fun s ↦ !next.contains s
  let new := next.filter fun s ↦ !(w.derived id).sources.contains s
  let w₁ := gone.foldl (fun w s ↦ w.removeObserver id s) w
  let w₂ := new.foldl (fun w s ↦ w.addObserver id s) w₁
  have hremoved : w.Rewired w₁ := rewired_foldl w (fun w s ↦ rewired_removeObserver w id s) gone
  obtain ⟨hadded, hobservers⟩ : w₁.Rewired w₂ ∧ ∀ j s, j ∈ w₂.observersOf s ↔ j ∈ w₁.observersOf s ∨ j = id ∧ s ∈ new :=
    foldl_addObserver id fun s hs ↦ hremoved.observable (hnext s (List.mem_filter.mp hs).1).2
  have hderiveds : w₂.deriveds = w.deriveds :=
    (deriveds_foldl_of_signals (fun w i ↦ deriveds_addObserver w id i) fun s hs ↦
      (hnext s (List.mem_filter.mp hs).1).1).trans
    (deriveds_foldl_of_signals (fun _ _ ↦ rfl) fun s hs ↦ (hprevious s (List.mem_filter.mp hs).1).1)
  have hderived (j : DerivedId) : w₂.derived j = w.derived j := by rw [derived, hderiveds, derived]
  have hheight : (next.map w₂.heightOf).foldl max 0 = 0 := by
    refine Nat.le_zero.mp ((Network.foldl_max_le_iff _ 0 0).mpr ⟨Nat.le_refl 0, fun z hz ↦ ?_⟩)
    obtain ⟨s, hs, rfl⟩ := List.mem_map.mp hz
    obtain ⟨⟨i, rfl⟩, -⟩ := hnext s hs
    exact Nat.le_refl 0
  have hretrack : w.retrack id next = w₂.modifyDerived id fun d ↦ { d with sources := next, height := 1 } := by
    change w₂.modifyDerived id (fun d ↦ { d with sources := next, height := (next.map w₂.heightOf).foldl max 0 + 1 }) = _
    rw [hheight]
  have hrewired := hremoved.trans hadded
  have hbefore : w.Reworked w₂ id (w.derived id) next := by
    refine ⟨hderived id, fun j _ ↦ hderived j, hrewired.signal_eq, fun j hj s hs ↦ ?_, fun s hs ↦ ?_,
      hrewired.signals_size, hrewired.deriveds_size, hrewired.others⟩
    · exact (hobservers j s).mpr (.inl (mem_observersOf_foldl_removeObserver hs (.inl hj)))
    · refine (hobservers id s).mpr ?_
      by_cases hobserved : s ∈ (w.derived id).sources
      · refine .inl (mem_observersOf_foldl_removeObserver (hprevious s hobserved).2 (.inr fun hgone ↦ ?_))
        simpa [hs] using (List.mem_filter.mp hgone).2
      · exact .inr ⟨rfl, List.mem_filter.mpr ⟨hs, by simpa using hobserved⟩⟩
  rw [hretrack]
  exact hbefore.modify hid fun _ ↦ rfl

end Observing

section Keeping

variable {w : World} {d : DerivedId}

theorem modifyDerived_of_same {f : Derived → Derived} (h : f (w.derived d) = w.derived d) : w.modifyDerived d f = w := by
  have hsame : w.deriveds.modify d f = w.deriveds := by
    refine Array.ext (Array.size_modify ..) fun i _ hi ↦ ?_
    rw [Array.getElem_modify]
    split
    · rename_i heq
      subst heq
      rw [derived, Array.getD_eq_getD_getElem?, Array.getElem?_eq_getElem hi, Option.getD_some] at h
      exact h
    · rfl
  rw [modifyDerived, hsame]

/-- A value that nobody observes and nobody watches is kept, and nothing follows. -/
theorem keep_of_alone (hd : d < w.deriveds.size) (hobservers : (w.derived d).observers = [])
    (hwatchers : (w.derived d).watchers.isEmpty = true) (v : Datum) :
    w.keep d v = w.modifyDerived d fun x ↦ { x with value := some v } := by
  have hself := w.derived_modifyDerived_self hd fun x ↦ { x with value := some v }
  have hmark : (w.modifyDerived d fun x ↦ { x with value := some v }).markObservers (.derived d) =
      w.modifyDerived d fun x ↦ { x with value := some v } := by
    rw [markObservers, observersOf, hself]
    dsimp only
    rw [hobservers, List.foldl_nil]
  rw [keep, hmark, deferDerived_of_told]
  rw [hself]
  dsimp only
  rw [hwatchers, Bool.true_or]

theorem settle_of_alone (hd : d < w.deriveds.size) (hobservers : (w.derived d).observers = [])
    (hwatchers : (w.derived d).watchers.isEmpty = true) (hequality : (w.derived d).equality = .same) (v : Datum) :
    (Network.settle w d v).2 = w.modifyDerived d fun x ↦ { x with value := some v } := by
  cases hvalue : (w.derived d).value with
  | none => rw [Network.settle_none hvalue]
  | some previous =>
    by_cases hsame : previous = v
    · rw [Network.settle_same hvalue (by simpa [hequality, Equality.holds] using hsame)]
      refine (modifyDerived_of_same ?_).symm
      rw [← hsame, ← hvalue]
    · rw [Network.settle_changed hvalue (by simpa [hequality, Equality.holds] using hsame)]
      exact keep_of_alone hd hobservers hwatchers v

end Keeping

section Computing

variable [Dispatch] {w : World} {d : DerivedId} {v : Datum} {n : Note} {ts : List Topic}

/-- A stale derived value is computed anew, from the signals that its function reads. -/
theorem ends_recompute_of_alone (hd : d < w.deriveds.size) (hundisposed : (w.derived d).disposed = false)
    (hstale : (w.derived d).stale = true) (hobservers : (w.derived d).observers = [])
    (hwatchers : (w.derived d).watchers.isEmpty = true) (hequality : (w.derived d).equality = .same)
    (hprevious : ∀ s ∈ (w.derived d).sources, (∃ i, s = .signal i) ∧ d ∈ w.observersOf s)
    (hviews : w.views = #[]) (hpinned : ∀ j < w.deriveds.size, .derived j ∈ w.pins)
    (hts : ∀ t ∈ ts, ∃ i, t = .signal i ∧ w.Observable (.signal i))
    (hrun : Dispatch.compute d (w.begun d) = .ok v (ts.foldl observe ((w.begun d).note n))) :
    (Derived.recompute d).Ends w fun _ w' ↦ ∃ ss, (∀ s, s ∈ ss ↔ ∃ i, s = .signal i ∧ Topic.signal i ∈ ts) ∧
      (w.note n).Reworked w' d { w.derived d with
        value := some v, stale := false, evaluating := false, cyclic := false, sources := ss, height := 1 } ss := by
  have hframes : ((w.begun d).note n).frames = _ :: w.frames := rfl
  obtain ⟨f, hfold, hcyclic, hsources⟩ := foldl_observe (fun t ht ↦ (hts t ht).imp fun _ h ↦ h.1) hframes rfl
  have hmem (s : Source) : s ∈ f.sources ↔ ∃ i, s = .signal i ∧ Topic.signal i ∈ ts :=
    (hsources s).trans (or_iff_right List.not_mem_nil)
  obtain ⟨w₃, hw₃⟩ : ∃ w₃, w₃ = { (w.begun d).note n with frames := f :: w.frames } := ⟨_, rfl⟩
  rw [← hw₃] at hfold
  -- The world where it is no longer being computed: nothing is new but what the derived value itself is.
  obtain ⟨w₀, hw₀⟩ : ∃ w₀, w₀ = w₃.popFrame.modifyDerived d fun x ↦ { x with evaluating := false } := ⟨_, rfl⟩
  have hothers₀ : w₀ = { w.note n with deriveds := w₀.deriveds } := by
    rw [hw₀, hw₃]
    rfl
  have hsize₀ : w₀.deriveds.size = w.deriveds.size := by
    rw [hw₀, size_modifyDerived, hw₃]
    exact w.size_modifyDerived d _
  have hself₀ : w₀.derived d = { w.derived d with stale := false, evaluating := false } := by
    have hself₃ : w₃.popFrame.derived d = { w.derived d with stale := false, evaluating := true } := by
      rw [hw₃]
      exact w.derived_modifyDerived_self hd _
    have hd₃ : d < w₃.popFrame.deriveds.size := by
      rw [hw₃]
      exact (w.size_modifyDerived d _).symm ▸ hd
    rw [hw₀, w₃.popFrame.derived_modifyDerived_self hd₃, hself₃]
  have hother₀ (j : DerivedId) (hj : j ≠ d) : w₀.derived j = w.derived j := by
    rw [hw₀, derived_modifyDerived_of_ne _ hj, hw₃]
    exact w.derived_modifyDerived_of_ne hj _
  have hobservers₀ (s : Source) : w₀.observersOf s = w.observersOf s := by
    rw [hw₀, observersOf_modifyDerived]
    · rw [hw₃]
      apply w.observersOf_modifyDerived
      exact fun _ ↦ rfl
    · exact fun _ ↦ rfl
  have hbefore (s : Source) (hs : s ∈ (w₀.derived d).sources) : (∃ i, s = .signal i) ∧ d ∈ w₀.observersOf s := by
    rw [hself₀] at hs
    rw [hobservers₀]
    exact hprevious s hs
  have hafter (s : Source) (hs : s ∈ f.sources) : (∃ i, s = .signal i) ∧ w₀.Observable s := by
    obtain ⟨i, rfl, hi⟩ := (hmem s).mp hs
    obtain ⟨i', hsame, hobservable⟩ := hts _ hi
    obtain rfl := Topic.signal.inj hsame
    rw [hothers₀]
    exact ⟨⟨i, rfl⟩, hobservable⟩
  have hretracked := reworked_retrack (hsize₀.symm ▸ hd) hbefore hafter
  have hended : (w.note n).Reworked (w₃.finished d f.sources) d { w.derived d with
      stale := false, evaluating := false, cyclic := false, sources := f.sources, height := 1 } f.sources := by
    have hfinished := (hretracked.modify (f := fun x ↦ { x with cyclic := false }) (hsize₀.symm ▸ hd) fun _ ↦
      rfl).before ⟨_, hothers₀⟩ hother₀ hsize₀ hobservers₀
    rw [hself₀] at hfinished
    rw [finished, ← hw₀]
    exact hfinished
  obtain ⟨w₄, hw₄⟩ : ∃ w₄, w₄ = w₃.finished d f.sources := ⟨_, rfl⟩
  rw [← hw₄] at hended
  have hreap : w₄.reap = w₄ := by
    have hsize := hended.deriveds_size
    obtain ⟨_, _, rfl⟩ := hended.others
    exact reap_of_pinned hviews fun j hj ↦ hpinned j (hsize ▸ hj)
  have hdone := Network.recompute_run hundisposed hstale (hrun.trans (congrArg _ hfold))
    (show w₃.frames = f :: w.frames by rw [hw₃]) hcyclic (hw₄ ▸ hreap)
  have hsettle : (Network.settle w₄ d v).2 = w₄.modifyDerived d fun x ↦ { x with value := some v } := by
    refine settle_of_alone (hended.deriveds_size.symm ▸ hd) ?_ ?_ ?_ v
    · rw [hended.derived_self]
      exact hobservers
    · rw [hended.derived_self]
      exact hwatchers
    · rw [hended.derived_self]
      exact hequality
  rw [← hw₄, hsettle] at hdone
  exact ⟨_, _, hdone, f.sources, hmem, hended.modify (f := fun x ↦ { x with value := some v }) hd fun _ ↦ rfl⟩

end Computing

section Queueing

/-- The order of the queue: lower heights first, and older values first at the same height. -/
def Sooner (a b : Nat × Nat) : Prop :=
  a.1 < b.1 ∨ a.1 = b.1 ∧ a.2 < b.2

theorem Sooner.trans {a b c : Nat × Nat} (h : Sooner a b) (h' : Sooner b c) : Sooner a c := by
  unfold Sooner at h h' ⊢
  omega

theorem Sooner.ne {a b : Nat × Nat} (h : Sooner a b) : a ≠ b := by
  rintro rfl
  unfold Sooner at h
  omega

theorem sooner_of_not {a b : Nat × Nat} (hne : a ≠ b) (h : ¬Sooner a b) : Sooner b a := by
  have hdiffer : ¬(a.1 = b.1 ∧ a.2 = b.2) := fun hsame ↦ hne (Prod.ext hsame.1 hsame.2)
  unfold Sooner at h ⊢
  omega

/-- The queue stays in order, so that nothing is in it twice. -/
theorem pairwise_sooner_insertQueued {entry : Nat × DerivedId} {queue : List (Nat × DerivedId)}
    (h : queue.Pairwise Sooner) : (insertQueued entry queue).Pairwise Sooner := by
  induction queue with
  | nil => exact List.pairwise_singleton _ _
  | cons first rest ih =>
    obtain ⟨hfirst, hrest⟩ := List.pairwise_cons.mp h
    unfold insertQueued
    split
    · exact h
    · rename_i hne
      split
      · rename_i hbefore
        have hsooner : Sooner entry first := by simpa [Sooner] using hbefore
        refine List.pairwise_cons.mpr ⟨fun e he ↦ ?_, h⟩
        rcases List.mem_cons.mp he with rfl | he
        · exact hsooner
        · exact hsooner.trans (hfirst e he)
      · rename_i hafter
        have hsooner : Sooner first entry := sooner_of_not (Ne.symm hne) (by simpa [Sooner] using hafter)
        refine List.pairwise_cons.mpr ⟨fun e he ↦ ?_, ih hrest⟩
        rcases mem_insertQueued.mp he with rfl | he
        · exact hsooner
        · exact hfirst e he

theorem deriveds_size_markStale (w : World) (id : DerivedId) : (w.markStale id).deriveds.size = w.deriveds.size := by
  unfold markStale
  dsimp only
  split
  · rfl
  · exact w.size_modifyDerived id _

/-- What is queued when some are marked: each was queued before, or is one of them at its height. -/
theorem queue_foldl_markStale {P : Nat × DerivedId → Prop} {w : World} {ids : List DerivedId}
    (hordered : w.queue.Pairwise Sooner) (hqueue : ∀ e ∈ w.queue, P e)
    (hids : ∀ id ∈ ids, id < w.deriveds.size → P ((w.derived id).height, id)) :
    (ids.foldl markStale w).queue.Pairwise Sooner ∧ ∀ e ∈ (ids.foldl markStale w).queue, P e := by
  induction ids generalizing w with
  | nil => exact ⟨hordered, hqueue⟩
  | cons id rest ih =>
    have hsize := w.deriveds_size_markStale id
    have hheight (j : DerivedId) : ((w.markStale id).derived j).height = (w.derived j).height := by
      rw [derived_markStale]
      split <;> rfl
    have hrest : ∀ j ∈ rest, j < (w.markStale id).deriveds.size → P (((w.markStale id).derived j).height, j) := by
      intro j hj hlt
      rw [hheight]
      exact hids j (List.mem_cons_of_mem _ hj) (hsize ▸ hlt)
    by_cases hstale : ((w.derived id).disposed || (w.derived id).stale) = true
    · rw [markStale_of_stale w hstale] at hrest
      rw [List.foldl_cons, markStale_of_stale w hstale]
      exact ih hordered hqueue hrest
    · have hinserted : (w.markStale id).queue = insertQueued ((w.derived id).height, id) w.queue := by
        rw [markStale_of_fresh w hstale]
      have hlt : id < w.deriveds.size := Nat.lt_of_not_le fun hle ↦ by
        rw [w.derived_of_size_le hle] at hstale
        exact hstale rfl
      refine ih ?_ (fun e he ↦ ?_) hrest
      · rw [hinserted]
        exact pairwise_sooner_insertQueued hordered
      · rw [hinserted] at he
        rcases mem_insertQueued.mp he with rfl | he
        · exact hids id List.mem_cons_self hlt
        · exact hqueue e he

variable {w : World} {id : SignalId}

/-- What is queued by a write. -/
theorem queue_write {P : Nat × DerivedId → Prop} (v : Value) (hordered : w.queue.Pairwise Sooner)
    (hqueue : ∀ e ∈ w.queue, P e) (hobservers : ∀ d < w.deriveds.size, P ((w.derived d).height, d)) :
    (w.write id v).queue.Pairwise Sooner ∧ ∀ e ∈ (w.write id v).queue, P e := by
  obtain ⟨_, _, hdefer⟩ := deferSignal_eq ((w.modifySignal id fun s ↦ { s with value := v }).markObservers
    (.signal id)) id
  rw [write, hdefer]
  exact queue_foldl_markStale (w := w.modifySignal id fun s ↦ { s with value := v }) hordered hqueue
    fun d _ hd ↦ hobservers d hd

theorem deriveds_size_write (w : World) (id : SignalId) (v : Value) :
    (w.write id v).deriveds.size = w.deriveds.size := by
  have hmark (ids : List DerivedId) (w : World) : (ids.foldl markStale w).deriveds.size = w.deriveds.size := by
    induction ids generalizing w with
    | nil => rfl
    | cons j rest ih => exact (ih _).trans (w.deriveds_size_markStale j)
  obtain ⟨_, _, hdefer⟩ := deferSignal_eq ((w.modifySignal id fun s ↦ { s with value := v }).markObservers
    (.signal id)) id
  rw [write, hdefer]
  exact hmark _ _

/-- Nobody waits to be told of a write where nobody watches. -/
theorem effects_write_of_unwatched (hid : (w.signal id).watchers.entries = []) (v : Value) :
    (w.write id v).effects = w.effects := by
  obtain ⟨w₁, hw₁⟩ : ∃ w₁, w₁ = (w.modifySignal id fun s ↦ { s with value := v }).markObservers (.signal id) := ⟨_, rfl⟩
  obtain ⟨_, _, hmark⟩ := foldl_markStale_eq (w.modifySignal id fun s ↦ { s with value := v })
    ((w.modifySignal id fun s ↦ { s with value := v }).observersOf (.signal id))
  rw [← markObservers, ← hw₁] at hmark
  have hsignal : w₁.signal id = (w.modifySignal id fun s ↦ { s with value := v }).signal id := by
    rw [hmark]
    rfl
  have hwatchers : (w₁.signal id).watchers = (w.signal id).watchers := by
    rw [hsignal]
    apply w.part_modifySignal Signal.watchers
    exact fun _ ↦ rfl
  rw [write, ← hw₁, w₁.deferSignal_of_told (by simp [hwatchers, Watchers.isEmpty, hid]), hmark]
  rfl

end Queueing

end LiveGraph.World
