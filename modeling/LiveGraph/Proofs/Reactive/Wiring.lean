import LiveGraph.Proofs.Sheet.Ledger

/-!
# Who observes whom

A derived value observes the sources of its last evaluation. This is written down at both ends, and both ends say the
same: an evaluation that is over changes them together, and so does a derived value that ends.
-/

namespace LiveGraph

/-- Whom a signal is observed by, and whether it can be. -/
def Signal.links (s : Signal) : Bool × List DerivedId :=
  (s.disposed, s.observers)

/-- Whom a derived value is observed by, and whom it observes, as long as it is in being. -/
def Derived.links (d : Derived) : Bool × List DerivedId × List Source × Bool :=
  (d.disposed, d.observers, d.sources, d.dropped)

namespace World

/-- Two worlds where the same derived values observe the same sources and record the same reads. -/
structure SameLinks (w w' : World) : Prop where
  signal_eq : ∀ id, (w'.signal id).links = (w.signal id).links
  derived_eq : ∀ id, (w'.derived id).links = (w.derived id).links
  signals_size : w'.signals.size = w.signals.size
  deriveds_size : w'.deriveds.size = w.deriveds.size
  frames_eq : w'.frames = w.frames

namespace SameLinks

variable {w w' w'' : World}

theorem of_eq (hsignals : w'.signals = w.signals) (hderiveds : w'.deriveds = w.deriveds)
    (hframes : w'.frames = w.frames) : w.SameLinks w' := by
  refine ⟨fun id ↦ ?_, fun id ↦ ?_, by rw [hsignals], by rw [hderiveds], hframes⟩
  · rw [signal, hsignals, signal]
  · rw [derived, hderiveds, derived]

theorem refl (w : World) : w.SameLinks w :=
  of_eq rfl rfl rfl

theorem trans (h : w.SameLinks w') (h' : w'.SameLinks w'') : w.SameLinks w'' :=
  ⟨fun id ↦ (h'.signal_eq id).trans (h.signal_eq id), fun id ↦ (h'.derived_eq id).trans (h.derived_eq id),
    h'.signals_size.trans h.signals_size, h'.deriveds_size.trans h.deriveds_size, h'.frames_eq.trans h.frames_eq⟩

theorem modifySignal {f : Signal → Signal} (hf : ∀ s, (f s).links = s.links) (w : World) (id : SignalId) :
    w.SameLinks (w.modifySignal id f) :=
  ⟨w.part_modifySignal Signal.links hf id, fun _ ↦ rfl, w.size_modifySignal id f, rfl, rfl⟩

theorem modifyDerived {f : Derived → Derived} (hf : ∀ d, (f d).links = d.links) (w : World) (id : DerivedId) :
    w.SameLinks (w.modifyDerived id f) :=
  ⟨fun _ ↦ rfl, w.part_modifyDerived Derived.links hf id, rfl, w.size_modifyDerived id f, rfl⟩

theorem foldl {α : Type} {f : World → α → World} (hf : ∀ w a, SameLinks w (f w a)) (as : List α) (w : World) :
    w.SameLinks (as.foldl f w) := by
  induction as generalizing w with
  | nil => exact refl w
  | cons a rest ih => exact (hf w a).trans (ih (f w a))

theorem markStale (w : World) (id : DerivedId) : w.SameLinks (w.markStale id) := by
  have hstale : w.SameLinks (w.modifyDerived id fun d ↦ { d with stale := true }) := by
    apply modifyDerived
    exact fun _ ↦ rfl
  unfold World.markStale
  dsimp only
  split
  · exact refl w
  · exact hstale.trans (of_eq rfl rfl rfl)

theorem markObservers (w : World) (s : Source) : w.SameLinks (w.markObservers s) :=
  foldl markStale _ w

theorem deferSignal (w : World) (id : SignalId) : w.SameLinks (w.deferSignal id) := by
  have hnotifying : w.SameLinks (w.modifySignal id fun s ↦ { s with notifying := true }) := by
    apply modifySignal
    exact fun _ ↦ rfl
  unfold World.deferSignal
  dsimp only
  split
  · exact refl w
  · exact hnotifying.trans (of_eq rfl rfl rfl)

theorem deferDerived (w : World) (id : DerivedId) : w.SameLinks (w.deferDerived id) := by
  have hnotifying : w.SameLinks (w.modifyDerived id fun d ↦ { d with notifying := true }) := by
    apply modifyDerived
    exact fun _ ↦ rfl
  unfold World.deferDerived
  dsimp only
  split
  · exact refl w
  · exact hnotifying.trans (of_eq rfl rfl rfl)

theorem write (w : World) (id : SignalId) (v : Value) : w.SameLinks (w.write id v) := by
  have hvalue : w.SameLinks (w.modifySignal id fun s ↦ { s with value := v }) := by
    apply modifySignal
    exact fun _ ↦ rfl
  exact (hvalue.trans (markObservers _ (.signal id))).trans (deferSignal _ id)

theorem keep (w : World) (id : DerivedId) (v : Datum) : w.SameLinks (w.keep id v) := by
  have hvalue : w.SameLinks (w.modifyDerived id fun d ↦ { d with value := some v }) := by
    apply modifyDerived
    exact fun _ ↦ rfl
  exact (hvalue.trans (markObservers _ (.derived id))).trans (deferDerived _ id)

theorem modifyWatchers (w : World) (channel : Channel) (f : Watchers → Watchers) :
    w.SameLinks (w.modifyWatchers channel f) := by
  cases channel with
  | signal id =>
    apply modifySignal
    exact fun _ ↦ rfl
  | derived id =>
    apply modifyDerived
    exact fun _ ↦ rfl
  | store id event => exact of_eq rfl rfl rfl
  | view id => exact of_eq rfl rfl rfl

theorem unsubscribe (w : World) (sub : Subscription) : w.SameLinks (w.unsubscribe sub) := by
  match sub with
  | none => exact refl w
  | some (channel, id) => exact modifyWatchers w channel (·.remove id)

theorem shutView (w : World) (id : ViewId) : w.SameLinks (w.shutView id) := by
  unfold World.shutView
  split
  · exact refl w
  · exact (foldl unsubscribe _ w).trans (of_eq rfl rfl rfl)

theorem reapViews (w : World) : w.SameLinks w.reapViews := by
  refine foldl (fun w id ↦ ?_) _ w
  split
  · exact refl w
  · exact (shutView w id).trans (of_eq rfl rfl rfl)

variable (h : w.SameLinks w')
include h

theorem has_eq (s : Source) : w'.has s = w.has s := by
  cases s with
  | signal id => simp only [has, h.signals_size]
  | derived id => simp only [has, h.deriveds_size]

theorem isDisposed_eq (s : Source) : w'.isDisposed s = w.isDisposed s := by
  cases s with
  | signal id => exact congrArg Prod.fst (h.signal_eq id)
  | derived id => exact congrArg Prod.fst (h.derived_eq id)

theorem observersOf_eq (s : Source) : w'.observersOf s = w.observersOf s := by
  cases s with
  | signal id => exact congrArg Prod.snd (h.signal_eq id)
  | derived id => exact congrArg (·.2.1) (h.derived_eq id)

theorem sources_eq (id : DerivedId) : (w'.derived id).sources = (w.derived id).sources :=
  congrArg (·.2.2.1) (h.derived_eq id)

theorem dropped_eq (id : DerivedId) : (w'.derived id).dropped = (w.derived id).dropped :=
  congrArg (·.2.2.2) (h.derived_eq id)

end SameLinks

/-- A source that can be observed: it is there, and it was not disposed of. -/
theorem observable_iff {w : World} {s : Source} : w.Observable s ↔ w.has s = true ∧ w.isDisposed s = false := by
  unfold Observable has
  cases s <;> simp only [decide_eq_true_eq]

/-- Sources that there are, each listed once. -/
structure Listed (w : World) (ss : List Source) : Prop where
  nodup : ss.Nodup
  has : ∀ s ∈ ss, w.has s = true

theorem Listed.mono {w w' : World} {ss : List Source} (h : w.Listed ss)
    (hhas : ∀ s, w.has s = true → w'.has s = true) : w'.Listed ss :=
  ⟨h.nodup, fun s hs ↦ hhas s (h.has s hs)⟩

theorem Listed.nil (w : World) : w.Listed [] :=
  ⟨List.nodup_nil, fun _ h ↦ absurd h List.not_mem_nil⟩

theorem observersOf_of_not_has {w : World} {s : Source} (h : w.has s = false) : w.observersOf s = [] := by
  cases s with
  | signal id => exact congrArg Signal.observers (w.signal_of_size_le (Nat.le_of_not_lt (of_decide_eq_false h)))
  | derived id => exact congrArg Derived.observers (w.derived_of_size_le (Nat.le_of_not_lt (of_decide_eq_false h)))

/-- Both ends say the same: whoever observes a source has it among the sources of its last evaluation, and the other
way round. A source that was disposed of is observed by nobody. -/
structure Wired (w : World) : Prop where
  observed_iff : ∀ s, w.Observable s → ∀ id, id ∈ w.observersOf s ↔ s ∈ (w.derived id).sources
  observers_nodup : ∀ s, (w.observersOf s).Nodup
  sources_listed : ∀ id, w.Listed (w.derived id).sources
  frames_listed : ∀ f ∈ w.frames, w.Listed f.sources
  owners_lt : ∀ f ∈ w.frames, ∀ id, f.owner = some id → id < w.deriveds.size

section Removing

variable (w : World) (id : DerivedId)

theorem observersOf_removeObserver (s s' : Source) : (w.removeObserver id s).observersOf s' =
    if s' = s then (w.observersOf s').erase id else w.observersOf s' := by
  cases s with
  | signal i =>
    cases s' with
    | signal j =>
      change ((w.modifySignal i _).signal j).observers = _
      rw [signal_modifySignal]
      by_cases hj : j = i
      · subst hj
        rw [if_pos rfl]
        split
        · rfl
        · rename_i hout
          rw [observersOf, w.signal_of_size_le (Nat.le_of_not_lt fun hlt ↦ hout ⟨rfl, hlt⟩)]
          rfl
      · rw [if_neg fun h ↦ hj h.1.symm, if_neg fun h ↦ hj (Source.signal.inj h)]
        rfl
    | derived j => rfl
  | derived i =>
    cases s' with
    | signal j => rfl
    | derived j =>
      change ((w.modifyDerived i _).derived j).observers = _
      rw [derived_modifyDerived]
      by_cases hj : j = i
      · subst hj
        rw [if_pos rfl]
        split
        · rfl
        · rename_i hout
          rw [observersOf, w.derived_of_size_le (Nat.le_of_not_lt fun hlt ↦ hout ⟨rfl, hlt⟩)]
          rfl
      · rw [if_neg fun h ↦ hj h.1.symm, if_neg fun h ↦ hj (Source.derived.inj h)]
        rfl

/-- A derived value that observes some sources no longer. -/
theorem foldl_removeObserver (hnodup : ∀ s, (w.observersOf s).Nodup) (ss : List Source) :
    let w' := ss.foldl (fun w s ↦ w.removeObserver id s) w
    (∀ s, (w'.observersOf s).Nodup) ∧ ∀ j s, j ∈ w'.observersOf s ↔ j ∈ w.observersOf s ∧ ¬(j = id ∧ s ∈ ss) := by
  induction ss generalizing w with
  | nil => exact ⟨hnodup, fun j s ↦ (and_iff_left fun h ↦ List.not_mem_nil h.2).symm⟩
  | cons first rest ih =>
    have hnodup' (s : Source) : ((w.removeObserver id first).observersOf s).Nodup := by
      rw [observersOf_removeObserver]
      split
      · exact (hnodup s).erase id
      · exact hnodup s
    obtain ⟨hrest, hmem⟩ := ih (w.removeObserver id first) hnodup'
    refine ⟨hrest, fun j s ↦ (hmem j s).trans ?_⟩
    rw [observersOf_removeObserver, List.mem_cons]
    by_cases hs : s = first
    · rw [if_pos hs, (hnodup s).mem_erase_iff]
      tauto
    · rw [if_neg hs]
      tauto

end Removing

section Adding

variable {w : World} {s : Source} (id : DerivedId)

/-- What cannot be observed gets no observer. -/
theorem observersOf_addObserver_of_not (h : ¬w.Observable s) (s' : Source) :
    (w.addObserver id s).observersOf s' = w.observersOf s' := by
  unfold addObserver
  split
  · rfl
  · rename_i hnot
    rw [Bool.or_eq_true, not_or, Bool.not_eq_true] at hnot
    cases s with
    | signal i =>
      cases s' with
      | signal j =>
        refine congrArg Signal.observers ((w.signal_modifySignal i _ j).trans (if_neg fun hj ↦ h ⟨?_, hnot.1⟩))
        exact hj.1 ▸ hj.2
      | derived j => rfl
    | derived i =>
      cases s' with
      | signal j => rfl
      | derived j =>
        refine congrArg Derived.observers ((w.derived_modifyDerived i _ j).trans (if_neg fun hj ↦ h ⟨?_, hnot.1⟩))
        exact hj.1 ▸ hj.2

theorem mem_observersOf_addObserver {s' : Source} (hs' : w.Observable s') (j : DerivedId) :
    j ∈ (w.addObserver id s).observersOf s' ↔ j ∈ w.observersOf s' ∨ j = id ∧ s' = s := by
  by_cases hs : w.Observable s
  · rw [observersOf_addObserver hs]
    split
    · rename_i hnew
      rw [List.mem_append, List.mem_singleton, and_iff_left hnew.1]
    · rename_i hnot
      refine (or_iff_left_of_imp ?_).symm
      rintro ⟨rfl, rfl⟩
      exact not_not.mp fun hnew ↦ hnot ⟨rfl, hnew⟩
  · rw [observersOf_addObserver_of_not id hs, or_iff_left fun h : j = id ∧ s' = s ↦ hs (h.2 ▸ hs')]

theorem nodup_addObserver (h : ∀ s, (w.observersOf s).Nodup) (s' : Source) :
    ((w.addObserver id s).observersOf s').Nodup := by
  by_cases hs : w.Observable s
  · rw [observersOf_addObserver hs]
    split
    · rename_i hnew
      exact hnew.1 ▸ List.concat_eq_append ▸ (h s).concat hnew.2
    · exact h s'
  · rw [observersOf_addObserver_of_not id hs]
    exact h s'

variable (w)

/-- A derived value that observes some more sources, as far as they can be observed. -/
theorem foldl_addObserver_listed (hnodup : ∀ s, (w.observersOf s).Nodup) (ss : List Source) :
    let w' := ss.foldl (fun w s ↦ w.addObserver id s) w
    (∀ s, (w'.observersOf s).Nodup) ∧
      ∀ j s, w.Observable s → (j ∈ w'.observersOf s ↔ j ∈ w.observersOf s ∨ j = id ∧ s ∈ ss) := by
  induction ss generalizing w with
  | nil => exact ⟨hnodup, fun j s _ ↦ (or_iff_left fun h ↦ List.not_mem_nil h.2).symm⟩
  | cons first rest ih =>
    obtain ⟨hrest, hmem⟩ := ih (w.addObserver id first) (nodup_addObserver id hnodup)
    refine ⟨hrest, fun j s hs ↦ (hmem j s ((rewired_addObserver w id first).observable hs)).trans ?_⟩
    rw [mem_observersOf_addObserver id hs, List.mem_cons]
    tauto

end Adding

namespace Wired

variable {w w' : World} {id : DerivedId}

/-- Links at least of the sources that can still be observed. -/
theorem congr (h : w.Wired) (hhas : ∀ s, w'.has s = w.has s)
    (hsources : ∀ id, (w'.derived id).sources = (w.derived id).sources) (hframes : w'.frames = w.frames)
    (hobservable : ∀ s, w'.Observable s → w.Observable s ∧ w'.observersOf s = w.observersOf s)
    (hnodup : ∀ s, (w'.observersOf s).Nodup) : w'.Wired where
  observed_iff s hs id := by
    obtain ⟨hs', hsame⟩ := hobservable s hs
    rw [hsame, hsources]
    exact h.observed_iff s hs' id
  observers_nodup := hnodup
  sources_listed id := by
    rw [hsources]
    exact (h.sources_listed id).mono fun s hs ↦ (hhas s).trans hs
  frames_listed f hf := (h.frames_listed f (hframes ▸ hf)).mono fun s hs ↦ (hhas s).trans hs
  owners_lt f hf id hid := by
    have hlt : w.has (.derived id) = true := decide_eq_true (h.owners_lt f (hframes ▸ hf) id hid)
    exact of_decide_eq_true ((hhas (.derived id)).trans hlt)

theorem sameLinks (h : w.Wired) (hlinks : w.SameLinks w') : w'.Wired := by
  refine h.congr hlinks.has_eq hlinks.sources_eq hlinks.frames_eq (fun s hs ↦ ⟨?_, hlinks.observersOf_eq s⟩) fun s ↦ ?_
  · rw [observable_iff] at hs ⊢
    exact ⟨(hlinks.has_eq s).symm.trans hs.1, (hlinks.isDisposed_eq s).symm.trans hs.2⟩
  · rw [hlinks.observersOf_eq]
    exact h.observers_nodup s

/-- A derived value has other sources now, and is observed by them as far as they can be observed. -/
theorem relink (h : w.Wired) (hid : id < w.deriveds.size) {next : List Source} (hnext : w.Listed next)
    {w₁ : World} (hrewired : w.Rewired w₁) (hnodup : ∀ s, (w₁.observersOf s).Nodup)
    (hmem : ∀ j s, w.Observable s → (j ∈ w₁.observersOf s ↔ if j = id then s ∈ next else j ∈ w.observersOf s))
    {f : Derived → Derived}
    (hf : ∀ d, (f d).disposed = d.disposed ∧ (f d).observers = d.observers ∧ (f d).sources = next) :
    (w₁.modifyDerived id f).Wired := by
  have hobservers (s : Source) : (w₁.modifyDerived id f).observersOf s = w₁.observersOf s := by
    apply observersOf_modifyDerived
    exact fun d ↦ (hf d).2.1
  have hdisposed (s : Source) : (w₁.modifyDerived id f).isDisposed s = w.isDisposed s := by
    rw [← hrewired.isDisposed_eq]
    cases s with
    | signal j => rfl
    | derived j => exact w₁.part_modifyDerived Derived.disposed (fun d ↦ (hf d).1) id j
  have hhas (s : Source) : (w₁.modifyDerived id f).has s = w.has s := by
    cases s with
    | signal j => exact congrArg (fun n ↦ decide (j < n)) hrewired.signals_size
    | derived j =>
      exact congrArg (fun n ↦ decide (j < n)) ((w₁.size_modifyDerived id f).trans hrewired.deriveds_size)
  have hsources (j : DerivedId) :
      ((w₁.modifyDerived id f).derived j).sources = if j = id then next else (w.derived j).sources := by
    by_cases hj : j = id
    · subst hj
      rw [if_pos rfl, w₁.derived_modifyDerived_self (hrewired.deriveds_size ▸ hid)]
      exact (hf (w₁.derived j)).2.2
    · rw [if_neg hj, w₁.derived_modifyDerived_of_ne hj]
      exact (congrArg Derived.sources (hrewired.derived_eq j) :)
  have hframes : (w₁.modifyDerived id f).frames = w.frames := by
    obtain ⟨_, _, rfl⟩ := hrewired.others
    rfl
  refine ⟨fun s hs j ↦ ?_, fun s ↦ ?_, fun j ↦ ?_, fun f' hf' ↦ ?_, fun f' hf' j hj ↦ ?_⟩
  · rw [observable_iff, hhas, hdisposed, ← observable_iff] at hs
    rw [hobservers, hmem j s hs, hsources]
    split
    · rfl
    · exact h.observed_iff s hs j
  · rw [hobservers]
    exact hnodup s
  · rw [hsources]
    split
    · exact hnext.mono fun s hs ↦ (hhas s).trans hs
    · exact (h.sources_listed j).mono fun s hs ↦ (hhas s).trans hs
  · exact (h.frames_listed f' (hframes ▸ hf')).mono fun s hs ↦ (hhas s).trans hs
  · have hlt : w.has (.derived j) = true := decide_eq_true (h.owners_lt f' (hframes ▸ hf') j hj)
    exact of_decide_eq_true ((hhas (.derived j)).trans hlt)

/-- An evaluation that is over links its sources, and no others. -/
theorem retrack (h : w.Wired) (hid : id < w.deriveds.size) {next : List Source} (hnext : w.Listed next) :
    (w.retrack id next).Wired ∧ ((w.retrack id next).derived id).sources = next := by
  let previous := (w.derived id).sources
  let w₁ := (previous.filter fun s ↦ !next.contains s).foldl (fun w s ↦ w.removeObserver id s) w
  let w₂ := (next.filter fun s ↦ !previous.contains s).foldl (fun w s ↦ w.addObserver id s) w₁
  have hremoved : w.Rewired w₁ := rewired_foldl w (fun w s ↦ rewired_removeObserver w id s) _
  have hadded : w₁.Rewired w₂ := rewired_foldl w₁ (fun w s ↦ rewired_addObserver w id s) _
  obtain ⟨hnodup₁, hmem₁⟩ := w.foldl_removeObserver id h.observers_nodup (previous.filter fun s ↦ !next.contains s)
  obtain ⟨hnodup₂, hmem₂⟩ := w₁.foldl_addObserver_listed id hnodup₁ (next.filter fun s ↦ !previous.contains s)
  refine ⟨h.relink hid hnext (hremoved.trans hadded) hnodup₂ (fun j s hs ↦ ?_) fun _ ↦ ⟨rfl, rfl, rfl⟩, ?_⟩
  · refine (hmem₂ j s (hremoved.observable hs)).trans ((or_congr_left (hmem₁ j s)).trans ?_)
    have hbefore := h.observed_iff s hs id
    simp only [List.mem_filter, Bool.not_eq_true', List.contains_eq_mem, decide_eq_false_iff_not]
    split
    · rename_i hj
      subst hj
      rw [hbefore]
      tauto
    · rename_i hj
      tauto
  · exact congrArg Derived.sources (w₂.derived_modifyDerived_self ((hremoved.trans hadded).deriveds_size ▸ hid) _)

/-- A derived value that observes nothing any more. -/
theorem unlink (h : w.Wired) {f : Derived → Derived}
    (hf : ∀ d, (f d).disposed = d.disposed ∧ (f d).observers = d.observers ∧ (f d).sources = []) :
    (((w.derived id).sources.foldl (fun w s ↦ w.removeObserver id s) w).modifyDerived id f).Wired := by
  obtain ⟨hnodup, hmem⟩ := w.foldl_removeObserver id h.observers_nodup (w.derived id).sources
  by_cases hid : id < w.deriveds.size
  · have hrewired := rewired_foldl w (fun w s ↦ rewired_removeObserver w id s) (w.derived id).sources
    refine h.relink hid (.nil w) hrewired hnodup (fun j s hs ↦ ?_) hf
    have hbefore := h.observed_iff s hs id
    rw [hmem]
    split
    · rename_i hj
      subst hj
      rw [hbefore]
      simp
    · rename_i hj
      simp [hj]
  · rw [w.derived_of_size_le (Nat.le_of_not_lt hid)]
    have hsame (j : DerivedId) : (w.modifyDerived id f).derived j = w.derived j :=
      (w.derived_modifyDerived id f j).trans (if_neg fun hj : id = j ∧ j < w.deriveds.size ↦ hid (hj.1 ▸ hj.2))
    exact h.sameLinks ⟨fun _ ↦ rfl, fun j ↦ congrArg Derived.links (hsame j), rfl, w.size_modifyDerived id f, rfl⟩

theorem dropDerived (h : w.Wired) (id : DerivedId) : (w.dropDerived id).Wired :=
  h.unlink fun _ ↦ ⟨rfl, rfl, rfl⟩

theorem reap (h : w.Wired) : w.reap.Wired := by
  have hdrop (n : Nat) (w : World) (h : w.Wired) : (reapDeriveds n w).Wired := by
    induction n generalizing w with
    | zero => exact h
    | succ n ih =>
      unfold reapDeriveds
      split
      · exact ih _ (h.dropDerived _)
      · exact h
  exact hdrop _ _ (h.sameLinks (.reapViews w))

/-- A source that was disposed of is observed by nobody. -/
theorem closed (h : w.Wired) (hhas : ∀ s, w'.has s = w.has s)
    (hsources : ∀ id, (w'.derived id).sources = (w.derived id).sources) (hframes : w'.frames = w.frames) {s : Source}
    (hself : w.has s = true → w'.isDisposed s = true ∧ w'.observersOf s = [])
    (hother : ∀ s' ≠ s, w'.isDisposed s' = w.isDisposed s' ∧ w'.observersOf s' = w.observersOf s') : w'.Wired := by
  refine h.congr hhas hsources hframes (fun s' hs' ↦ ?_) fun s' ↦ ?_
  · rw [observable_iff, hhas] at hs'
    have hne : s' ≠ s := fun heq ↦ by
      rw [heq, (hself (heq ▸ hs'.1)).1] at hs'
      exact Bool.noConfusion hs'.2
    obtain ⟨hsame, hobserved⟩ := hother s' hne
    exact ⟨observable_iff.mpr (hsame ▸ hs'), hobserved⟩
  · by_cases hs' : s' = s
    · by_cases hthere : w.has s = true
      · rw [hs', (hself hthere).2]
        exact List.nodup_nil
      · rw [hs', observersOf_of_not_has ((hhas s).trans (Bool.eq_false_iff.mpr hthere))]
        exact List.nodup_nil
    · rw [(hother s' hs').2]
      exact h.observers_nodup s'

theorem disposeSignal (h : w.Wired) (id : SignalId) : (w.disposeSignal id).Wired := by
  unfold World.disposeSignal
  split
  · exact h
  · refine h.closed (s := .signal id) (fun s ↦ ?_) (fun _ ↦ rfl) rfl (fun hid ↦ ?_) fun s hs ↦ ?_
    · cases s with
      | signal j => exact congrArg (fun n ↦ decide (j < n)) (w.size_modifySignal id _)
      | derived j => rfl
    · have hself := w.signal_modifySignal_self (of_decide_eq_true hid) fun s ↦
        { s with disposed := true, watchers := s.watchers.clear, observers := [] }
      exact ⟨congrArg Signal.disposed hself, congrArg Signal.observers hself⟩
    · cases s with
      | signal j =>
        have hsame := w.signal_modifySignal_of_ne (fun hj ↦ hs (congrArg Source.signal hj)) fun s ↦
          { s with disposed := true, watchers := s.watchers.clear, observers := [] }
        exact ⟨congrArg Signal.disposed hsame, congrArg Signal.observers hsame⟩
      | derived j => exact ⟨rfl, rfl⟩

/-- A derived value that was disposed of observes nothing and is observed by nobody. -/
theorem disposeDerived (h : w.Wired) (id : DerivedId) :
    (let w' := w.modifyDerived id fun d ↦
        { d with disposed := true, watchers := d.watchers.clear, observers := [] }
      let w' := (w'.derived id).sources.foldl (fun w s ↦ w.removeObserver id s) w'
      (w'.modifyDerived id fun d ↦ { d with sources := [] }).reap).Wired := by
  let w' := w.modifyDerived id fun d ↦ { d with disposed := true, watchers := d.watchers.clear, observers := [] }
  have hclosed : w'.Wired := by
    refine h.closed (s := .derived id) (fun s ↦ ?_) (fun j ↦ ?_) rfl (fun hid ↦ ?_) fun s hs ↦ ?_
    · cases s with
      | signal j => rfl
      | derived j => exact congrArg (fun n ↦ decide (j < n)) (w.size_modifyDerived id _)
    · apply w.part_modifyDerived Derived.sources
      exact fun _ ↦ rfl
    · have hself := w.derived_modifyDerived_self (of_decide_eq_true hid) fun d ↦
        { d with disposed := true, watchers := d.watchers.clear, observers := [] }
      exact ⟨congrArg Derived.disposed hself, congrArg Derived.observers hself⟩
    · cases s with
      | signal j => exact ⟨rfl, rfl⟩
      | derived j =>
        have hsame := w.derived_modifyDerived_of_ne (fun hj ↦ hs (congrArg Source.derived hj)) fun d ↦
          { d with disposed := true, watchers := d.watchers.clear, observers := [] }
        exact ⟨congrArg Derived.disposed hsame, congrArg Derived.observers hsame⟩
  exact (hclosed.unlink (f := fun d ↦ { d with sources := [] }) fun _ ↦ ⟨rfl, rfl, rfl⟩).reap

/-- A new source is observed by nobody, and no evaluation has read it. -/
theorem grown (h : w.Wired) (hhas : ∀ s, w.has s = true → w'.has s = true) (hframes : w'.frames = w.frames)
    (hold : ∀ s, w.has s = true → w'.isDisposed s = w.isDisposed s ∧ w'.observersOf s = w.observersOf s)
    (hnew : ∀ s, w.has s = false → w'.observersOf s = [])
    (hsources : ∀ id, (w'.derived id).sources = (w.derived id).sources) : w'.Wired where
  observed_iff s hs id := by
    rw [hsources]
    by_cases hthere : w.has s = true
    · obtain ⟨hdisposed, hobservers⟩ := hold s hthere
      rw [hobservers]
      exact h.observed_iff s (observable_iff.mpr ⟨hthere, hdisposed ▸ hs.2⟩) id
    · rw [hnew s (Bool.eq_false_iff.mpr hthere)]
      exact iff_of_false List.not_mem_nil fun hmem ↦ hthere ((h.sources_listed id).has s hmem)
  observers_nodup s := by
    by_cases hthere : w.has s = true
    · rw [(hold s hthere).2]
      exact h.observers_nodup s
    · rw [hnew s (Bool.eq_false_iff.mpr hthere)]
      exact List.nodup_nil
  sources_listed id := by
    rw [hsources]
    exact (h.sources_listed id).mono hhas
  frames_listed f hf := (h.frames_listed f (hframes ▸ hf)).mono hhas
  owners_lt f hf id hid :=
    of_decide_eq_true (hhas (.derived id) (decide_eq_true (h.owners_lt f (hframes ▸ hf) id hid)))

theorem addSignal (h : w.Wired) (v : Value) (equality : Equality) (owner : Owner) :
    (w.addSignal v equality owner).2.Wired := by
  refine h.grown (fun s hs ↦ ?_) rfl (fun s hs ↦ ?_) (fun s hs ↦ ?_) fun _ ↦ rfl
  · cases s with
    | signal id =>
      have hlt := Nat.lt_succ_of_lt (of_decide_eq_true hs)
      exact decide_eq_true ((w.size_addSignal v equality owner).symm ▸ hlt)
    | derived id => exact hs
  · cases s with
    | signal id =>
      have hsame := (w.signal_addSignal v equality owner id).trans (if_neg (Nat.ne_of_lt (of_decide_eq_true hs)))
      exact ⟨congrArg Signal.disposed hsame, congrArg Signal.observers hsame⟩
    | derived id => exact ⟨rfl, rfl⟩
  · cases s with
    | signal id =>
      refine (congrArg Signal.observers (w.signal_addSignal v equality owner id)).trans ?_
      split
      · rfl
      · exact observersOf_of_not_has hs
    | derived id => exact observersOf_of_not_has hs

theorem addDerived (h : w.Wired) (compute : Compute) (equality : Equality) :
    (w.addDerived compute equality).2.Wired := by
  have hderived (id : DerivedId) : (w.addDerived compute equality).2.derived id =
      if id = w.deriveds.size then ⟨compute, equality, none, true, false, false, 1, [], [], .empty, false, false, false⟩
      else w.derived id := by
    simp only [derived, World.addDerived, Array.getD_eq_getD_getElem?, Array.getElem?_push]
    split <;> rfl
  refine h.grown (fun s hs ↦ ?_) rfl (fun s hs ↦ ?_) (fun s hs ↦ ?_) fun id ↦ ?_
  · cases s with
    | signal id => exact hs
    | derived id =>
      refine decide_eq_true (Nat.lt_of_lt_of_eq (Nat.lt_succ_of_lt (of_decide_eq_true hs)) ?_)
      exact (Array.size_push _).symm
  · cases s with
    | signal id => exact ⟨rfl, rfl⟩
    | derived id =>
      have hsame := (hderived id).trans (if_neg (Nat.ne_of_lt (of_decide_eq_true hs)))
      exact ⟨congrArg Derived.disposed hsame, congrArg Derived.observers hsame⟩
  · cases s with
    | signal id => exact observersOf_of_not_has hs
    | derived id =>
      refine (congrArg Derived.observers (hderived id)).trans ?_
      split
      · rfl
      · exact observersOf_of_not_has hs
  · rw [hderived]
    split
    · rename_i hid
      rw [hid, w.derived_of_size_le (Nat.le_refl _)]
      rfl
    · rfl

/-- Frames matter for what they have recorded, and for whom. -/
theorem setFrames (h : w.Wired) {frames : List Frame} (hlisted : ∀ f ∈ frames, w.Listed f.sources)
    (howners : ∀ f ∈ frames, ∀ id, f.owner = some id → id < w.deriveds.size) : { w with frames := frames }.Wired :=
  ⟨h.observed_iff, h.observers_nodup, fun id ↦ ⟨(h.sources_listed id).nodup, (h.sources_listed id).has⟩,
    fun f hf ↦ ⟨(hlisted f hf).nodup, (hlisted f hf).has⟩, howners⟩

end Wired

end World

end LiveGraph
