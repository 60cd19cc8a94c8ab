import LiveGraph.Proofs.Reactive.Batch
import LiveGraph.Proofs.World.Access

/-!
# Marking, putting off and observing

What the steps of a change do to single things: marking queues a derived value that was fresh, putting off
adds a notification unless it waits already, and after an evaluation the sources know who observes them.
-/

namespace LiveGraph.World

variable (w : World)

section Parts

variable {α : Type}

/-- A part of all signals that a change leaves as it is. -/
theorem part_modifySignal {f : Signal → Signal} (part : Signal → α) (hf : ∀ s, part (f s) = part s)
    (id j : SignalId) : part ((w.modifySignal id f).signal j) = part (w.signal j) := by
  rw [signal_modifySignal]
  split
  · exact hf _
  · rfl

/-- A part of all derived values that a change leaves as it is. -/
theorem part_modifyDerived {f : Derived → Derived} (part : Derived → α) (hf : ∀ d, part (f d) = part d)
    (id j : DerivedId) : part ((w.modifyDerived id f).derived j) = part (w.derived j) := by
  rw [derived_modifyDerived]
  split
  · exact hf _
  · rfl

end Parts

theorem signal_modifySignal_self {id : SignalId} (h : id < w.signals.size) (f : Signal → Signal) :
    (w.modifySignal id f).signal id = f (w.signal id) := by
  rw [signal_modifySignal, if_pos ⟨rfl, h⟩]

theorem signal_modifySignal_of_ne {id j : SignalId} (h : j ≠ id) (f : Signal → Signal) :
    (w.modifySignal id f).signal j = w.signal j := by
  rw [signal_modifySignal, if_neg fun hid ↦ h hid.1.symm]

theorem derived_modifyDerived_self {id : DerivedId} (h : id < w.deriveds.size) (f : Derived → Derived) :
    (w.modifyDerived id f).derived id = f (w.derived id) := by
  rw [derived_modifyDerived, if_pos ⟨rfl, h⟩]

theorem derived_modifyDerived_of_ne {id j : DerivedId} (h : j ≠ id) (f : Derived → Derived) :
    (w.modifyDerived id f).derived j = w.derived j := by
  rw [derived_modifyDerived, if_neg fun hid ↦ h hid.1.symm]

/-- Whom sources are observed by, where a change leaves that as it is. -/
theorem observersOf_modifySignal {f : Signal → Signal} (hf : ∀ s, (f s).observers = s.observers)
    (id : SignalId) (s : Source) : (w.modifySignal id f).observersOf s = w.observersOf s := by
  cases s with
  | signal j => exact w.part_modifySignal Signal.observers hf id j
  | derived j => rfl

theorem observersOf_modifyDerived {f : Derived → Derived} (hf : ∀ d, (f d).observers = d.observers)
    (id : DerivedId) (s : Source) : (w.modifyDerived id f).observersOf s = w.observersOf s := by
  cases s with
  | signal j => rfl
  | derived j => exact w.part_modifyDerived Derived.observers hf id j

section Queue

theorem mem_insertQueued {entry e : Nat × DerivedId} {queue : List (Nat × DerivedId)} :
    e ∈ insertQueued entry queue ↔ e = entry ∨ e ∈ queue := by
  induction queue with
  | nil => exact List.mem_cons
  | cons first rest ih =>
    unfold insertQueued
    split
    · rename_i heq
      subst heq
      simp
    · split
      · exact List.mem_cons
      · rw [List.mem_cons, ih, List.mem_cons]
        exact or_left_comm

/-- The queue stays in order of the heights. -/
theorem pairwise_insertQueued {entry : Nat × DerivedId} {queue : List (Nat × DerivedId)}
    (h : queue.Pairwise (·.1 ≤ ·.1)) : (insertQueued entry queue).Pairwise (·.1 ≤ ·.1) := by
  induction queue with
  | nil => exact List.pairwise_singleton _ _
  | cons first rest ih =>
    have hrest := List.pairwise_cons.mp h
    unfold insertQueued
    split
    · exact h
    · split
      · rename_i hbefore
        have hle : entry.1 ≤ first.1 := by
          simp only [Bool.or_eq_true, Bool.and_eq_true, decide_eq_true_eq] at hbefore
          omega
        refine List.pairwise_cons.mpr ⟨fun e he ↦ ?_, h⟩
        rcases List.mem_cons.mp he with rfl | he
        · exact hle
        · exact Nat.le_trans hle (hrest.1 e he)
      · rename_i hafter
        have hle : first.1 ≤ entry.1 := by
          simp only [Bool.or_eq_true, Bool.and_eq_true, decide_eq_true_eq, not_or] at hafter
          omega
        refine List.pairwise_cons.mpr ⟨fun e he ↦ ?_, ih hrest.2⟩
        rcases mem_insertQueued.mp he with rfl | he
        · exact hle
        · exact hrest.1 e he

end Queue

section Marking

theorem derived_markStale (id j : DerivedId) : (w.markStale id).derived j =
    if id = j ∧ (w.derived j).disposed = false then { w.derived j with stale := true }
    else w.derived j := by
  by_cases h : ((w.derived id).disposed || (w.derived id).stale) = true
  · rw [markStale_of_stale w h]
    split
    · rename_i hid
      obtain ⟨rfl, hdisposed⟩ := hid
      rw [hdisposed, Bool.false_or] at h
      rw [← h]
    · rfl
  · rw [markStale_of_fresh w h]
    change (w.modifyDerived id fun d ↦ { d with stale := true }).derived j = _
    rw [Bool.or_eq_true, not_or, Bool.not_eq_true, Bool.not_eq_true] at h
    by_cases hid : id = j
    · subst hid
      have hlt : id < w.deriveds.size := Nat.lt_of_not_le fun hle ↦ by
        rw [w.derived_of_size_le hle] at h
        exact Bool.noConfusion h.2
      rw [w.derived_modifyDerived_self hlt, if_pos ⟨rfl, h.1⟩]
    · rw [w.derived_modifyDerived_of_ne (Ne.symm hid), if_neg fun h ↦ hid h.1]

theorem derived_foldl_markStale (ids : List DerivedId) (j : DerivedId) :
    (ids.foldl markStale w).derived j =
      if j ∈ ids ∧ (w.derived j).disposed = false then { w.derived j with stale := true }
      else w.derived j := by
  induction ids generalizing w with
  | nil => simp
  | cons id rest ih =>
    rw [List.foldl_cons, ih, derived_markStale]
    by_cases hid : id = j
    · subst hid
      by_cases hdisposed : (w.derived id).disposed = false
      · simp [hdisposed]
      · simp [hdisposed]
    · have hne : j ≠ id := Ne.symm hid
      simp [hid, hne]

end Marking

section Changing

variable {w} {id : DerivedId}

theorem deferDerived_of_told (h : ((w.derived id).watchers.isEmpty || (w.derived id).notifying) = true) :
    w.deferDerived id = w :=
  if_pos h

theorem deferDerived_of_untold (h : ¬((w.derived id).watchers.isEmpty || (w.derived id).notifying) = true) :
    w.deferDerived id = { w.modifyDerived id fun d ↦ { d with notifying := true } with
      effects := w.effects ++ [.derived id] } :=
  if_neg h

variable (w) (id)

/-- Putting off changes derived values and the effects, nothing else. -/
theorem deferDerived_eq :
    ∃ deriveds effects, w.deferDerived id = { w with deriveds := deriveds, effects := effects } := by
  by_cases h : ((w.derived id).watchers.isEmpty || (w.derived id).notifying) = true
  · exact ⟨w.deriveds, w.effects, deferDerived_of_told h⟩
  · exact ⟨_, _, deferDerived_of_untold h⟩

theorem derived_deferDerived (j : DerivedId) : (w.deferDerived id).derived j = { w.derived j with
    notifying := (w.derived j).notifying || (decide (j = id) && !(w.derived j).watchers.isEmpty) } := by
  by_cases h : ((w.derived id).watchers.isEmpty || (w.derived id).notifying) = true
  · rw [deferDerived_of_told h]
    have hsame : ((w.derived j).notifying || (decide (j = id) && !(w.derived j).watchers.isEmpty)) =
        (w.derived j).notifying := by
      by_cases hj : j = id
      · subst hj
        rcases (Bool.or_eq_true _ _).mp h with hempty | hnotifying
        · simp [hempty]
        · simp [hnotifying]
      · simp [hj]
    rw [hsame]
  · rw [deferDerived_of_untold h]
    change (w.modifyDerived id fun d ↦ { d with notifying := true }).derived j = _
    rw [Bool.or_eq_true, not_or, Bool.not_eq_true, Bool.not_eq_true] at h
    by_cases hj : j = id
    · subst hj
      have hlt : j < w.deriveds.size := Nat.lt_of_not_le fun hle ↦ by
        rw [w.derived_of_size_le hle] at h
        exact Bool.noConfusion h.1
      rw [w.derived_modifyDerived_self hlt, h.1]
      simp
    · rw [w.derived_modifyDerived_of_ne hj]
      simp [hj]

variable (v : Datum)

/-- Keeping a value changes derived values and what waits, nothing else. -/
theorem keep_eq : ∃ deriveds queue effects, w.keep id v =
    { w with deriveds := deriveds, queue := queue, effects := effects } := by
  obtain ⟨deriveds, queue, hmark⟩ := foldl_markStale_eq (w.modifyDerived id fun d ↦
    { d with value := some v }) ((w.modifyDerived id fun d ↦ { d with value := some v }).observersOf (.derived id))
  obtain ⟨deriveds', effects, hdefer⟩ := deferDerived_eq ((w.modifyDerived id fun d ↦
    { d with value := some v }).markObservers (.derived id)) id
  refine ⟨deriveds', queue, effects, ?_⟩
  rw [keep, hdefer, markObservers, hmark]
  rfl

variable {id}

/-- What becomes of derived values where the value of one of them is kept. -/
theorem derived_keep (hid : id < w.deriveds.size) (j : DerivedId) : (w.keep id v).derived j =
    { w.derived j with
      value := if j = id then some v else (w.derived j).value
      stale := (w.derived j).stale ||
        (decide (j ∈ w.observersOf (.derived id)) && !(w.derived j).disposed)
      notifying := (w.derived j).notifying || (decide (j = id) && !(w.derived j).watchers.isEmpty) } := by
  obtain ⟨w₁, hw₁⟩ : ∃ w₁, w₁ = w.modifyDerived id fun d ↦ { d with value := some v } := ⟨_, rfl⟩
  have hobservers : w₁.observersOf (.derived id) = w.observersOf (.derived id) := by
    rw [hw₁, observersOf_modifyDerived]
    exact fun _ ↦ rfl
  have hderived : w₁.derived j =
      { w.derived j with value := if j = id then some v else (w.derived j).value } := by
    rw [hw₁]
    by_cases hj : j = id
    · subst hj
      rw [w.derived_modifyDerived_self hid, if_pos rfl]
    · rw [w.derived_modifyDerived_of_ne hj, if_neg hj]
  have hkeep : w.keep id v = ((w.observersOf (.derived id)).foldl markStale w₁).deferDerived id := by
    rw [keep, ← hw₁, markObservers, hobservers]
  rw [hkeep, derived_deferDerived, derived_foldl_markStale, hderived]
  by_cases hmark : j ∈ w.observersOf (.derived id) ∧ (w.derived j).disposed = false
  · simp [hmark]
  · have hnot : (decide (j ∈ w.observersOf (.derived id)) && !(w.derived j).disposed) = false := by
      simpa using hmark
    simp only [hmark, hnot, if_false, Bool.or_false]

/-- Those who watch are told of it once. -/
theorem effects_keep (hid : id < w.deriveds.size) : (w.keep id v).effects =
    if ((w.derived id).watchers.isEmpty || (w.derived id).notifying) = true then w.effects
    else w.effects ++ [.derived id] := by
  obtain ⟨w₁, hw₁⟩ : ∃ w₁, w₁ = (w.modifyDerived id fun d ↦ { d with value := some v }).markObservers
    (.derived id) := ⟨_, rfl⟩
  have heffects : w₁.effects = w.effects := by
    obtain ⟨_, _, hmark⟩ := foldl_markStale_eq (w.modifyDerived id fun d ↦ { d with value := some v })
      ((w.modifyDerived id fun d ↦ { d with value := some v }).observersOf (.derived id))
    rw [hw₁, markObservers, hmark]
    rfl
  have hsame : ((w₁.derived id).watchers.isEmpty || (w₁.derived id).notifying) =
      ((w.derived id).watchers.isEmpty || (w.derived id).notifying) := by
    rw [hw₁, markObservers, derived_foldl_markStale, w.derived_modifyDerived_self hid]
    split <;> rfl
  rw [keep, ← hw₁, ← hsame, ← heffects]
  split
  · rename_i htold
    rw [deferDerived_of_told htold]
  · rename_i htold
    rw [deferDerived_of_untold htold]

end Changing

section Writing

variable (id : SignalId)

/-- A part of all signals that putting off leaves as it is. -/
theorem part_deferSignal {α : Type} (part : Signal → α)
    (hpart : ∀ s : Signal, part { s with notifying := true } = part s) (j : SignalId) :
    part ((w.deferSignal id).signal j) = part (w.signal j) := by
  by_cases h : ((w.signal id).watchers.isEmpty || (w.signal id).notifying) = true
  · rw [deferSignal_of_told w h]
  · rw [deferSignal_of_untold w h]
    exact w.part_modifySignal part hpart id j

variable (v : Value)

/-- A part of all signals that a write leaves as it is. -/
theorem part_write {α : Type} (part : Signal → α)
    (hpart : ∀ (s : Signal) (v : Value) (notifying : Bool),
      part { s with value := v, notifying := notifying } = part s) (j : SignalId) :
    part ((w.write id v).signal j) = part (w.signal j) := by
  obtain ⟨_, _, hmark⟩ := foldl_markStale_eq (w.modifySignal id fun s ↦ { s with value := v })
    ((w.modifySignal id fun s ↦ { s with value := v }).observersOf (.signal id))
  have hdefer := part_deferSignal ((w.modifySignal id fun s ↦ { s with value := v }).markObservers (.signal id))
    id part (fun s ↦ hpart s s.value true) j
  refine hdefer.trans ?_
  rw [markObservers, hmark]
  exact w.part_modifySignal part (fun s ↦ hpart s v s.notifying) id j

/-- Writes mark derived values, nothing else becomes of those. -/
theorem derived_write (j : DerivedId) : (w.write id v).derived j = { w.derived j with
    stale := (w.derived j).stale ||
      (decide (j ∈ w.observersOf (.signal id)) && !(w.derived j).disposed) } := by
  obtain ⟨w₁, hw₁⟩ : ∃ w₁, w₁ = w.modifySignal id fun s ↦ { s with value := v } := ⟨_, rfl⟩
  have hobservers : w₁.observersOf (.signal id) = w.observersOf (.signal id) := by
    rw [hw₁, observersOf_modifySignal]
    exact fun _ ↦ rfl
  have hderived : w₁.derived j = w.derived j := by
    rw [hw₁]
    rfl
  have hdefer : (w.write id v).derived j = ((w.observersOf (.signal id)).foldl markStale w₁).derived j := by
    obtain ⟨_, _, heq⟩ := deferSignal_eq (w₁.markObservers (.signal id)) id
    rw [write, ← hw₁, heq, markObservers, hobservers]
    rfl
  rw [hdefer, derived_foldl_markStale, hderived]
  by_cases hmark : j ∈ w.observersOf (.signal id) ∧ (w.derived j).disposed = false
  · simp [hmark]
  · have hnot : (decide (j ∈ w.observersOf (.signal id)) && !(w.derived j).disposed) = false := by
      simpa using hmark
    simp only [hmark, hnot, if_false, Bool.or_false]

/-- Writes put off to tell those who watch the signal. -/
theorem mem_effects_write {effect : Effect} (h : effect ∈ (w.write id v).effects) :
    effect ∈ w.effects ∨ effect = .signal id := by
  obtain ⟨w₁, hw₁⟩ : ∃ w₁, w₁ = (w.modifySignal id fun s ↦ { s with value := v }).markObservers (.signal id) :=
    ⟨_, rfl⟩
  have heffects : w₁.effects = w.effects := by
    obtain ⟨_, _, hmark⟩ := foldl_markStale_eq (w.modifySignal id fun s ↦ { s with value := v })
      ((w.modifySignal id fun s ↦ { s with value := v }).observersOf (.signal id))
    rw [hw₁, markObservers, hmark]
    rfl
  rw [write, ← hw₁] at h
  by_cases htold : ((w₁.signal id).watchers.isEmpty || (w₁.signal id).notifying) = true
  · rw [deferSignal_of_told w₁ htold, heffects] at h
    exact .inl h
  · rw [deferSignal_of_untold w₁ htold] at h
    exact (List.mem_append.mp (heffects ▸ h)).imp_right List.mem_singleton.mp

end Writing

/-- Two worlds that differ by whom sources are observed. -/
structure Rewired (w w' : World) : Prop where
  signal_eq : ∀ j, { w'.signal j with observers := [] } = { w.signal j with observers := [] }
  derived_eq : ∀ j, { w'.derived j with observers := [] } = { w.derived j with observers := [] }
  signals_size : w'.signals.size = w.signals.size
  deriveds_size : w'.deriveds.size = w.deriveds.size
  others : ∃ signals deriveds, w' = { w with signals := signals, deriveds := deriveds }

namespace Rewired

variable {w w' w'' : World}

theorem refl (w : World) : w.Rewired w :=
  ⟨fun _ ↦ rfl, fun _ ↦ rfl, rfl, rfl, w.signals, w.deriveds, rfl⟩

theorem trans (h : w.Rewired w') (h' : w'.Rewired w'') : w.Rewired w'' := by
  obtain ⟨_, _, rfl⟩ := h.others
  obtain ⟨signals, deriveds, rfl⟩ := h'.others
  exact ⟨fun j ↦ (h'.signal_eq j).trans (h.signal_eq j), fun j ↦ (h'.derived_eq j).trans (h.derived_eq j),
    h'.signals_size.trans h.signals_size, h'.deriveds_size.trans h.deriveds_size, signals, deriveds, rfl⟩

theorem modifySignal {f : Signal → Signal}
    (hf : ∀ s, { f s with observers := [] } = { s with observers := [] }) (w : World) (id : SignalId) :
    w.Rewired (w.modifySignal id f) :=
  ⟨w.part_modifySignal (fun s ↦ { s with observers := [] }) hf id, fun _ ↦ rfl, w.size_modifySignal id f,
    rfl, _, w.deriveds, rfl⟩

theorem modifyDerived {f : Derived → Derived}
    (hf : ∀ d, { f d with observers := [] } = { d with observers := [] }) (w : World) (id : DerivedId) :
    w.Rewired (w.modifyDerived id f) :=
  ⟨fun _ ↦ rfl, w.part_modifyDerived (fun d ↦ { d with observers := [] }) hf id, rfl,
    w.size_modifyDerived id f, w.signals, _, rfl⟩

variable (h : w.Rewired w')
include h

theorem isDisposed_eq (s : Source) : w'.isDisposed s = w.isDisposed s := by
  cases s with
  | signal j => exact (congrArg Signal.disposed (h.signal_eq j) :)
  | derived j => exact (congrArg Derived.disposed (h.derived_eq j) :)

theorem heightOf_eq (s : Source) : w'.heightOf s = w.heightOf s := by
  cases s with
  | signal j => rfl
  | derived j => exact (congrArg Derived.height (h.derived_eq j) :)

end Rewired

section Observers

variable {w w' : World} {id : DerivedId}

/-- Whether there is a source that can still be observed. -/
def Observable (w : World) (s : Source) : Prop :=
  (match s with
    | .signal i => i < w.signals.size
    | .derived i => i < w.deriveds.size) ∧ w.isDisposed s = false

theorem Rewired.observable (h : w.Rewired w') {s : Source} (hs : w.Observable s) : w'.Observable s := by
  refine ⟨?_, (h.isDisposed_eq s).trans hs.2⟩
  cases s with
  | signal i => exact Nat.lt_of_lt_of_eq hs.1 h.signals_size.symm
  | derived i => exact Nat.lt_of_lt_of_eq hs.1 h.deriveds_size.symm

theorem rewired_addObserver (w : World) (id : DerivedId) (s : Source) :
    w.Rewired (w.addObserver id s) := by
  unfold addObserver
  split
  · exact .refl w
  · cases s with
    | signal i =>
      apply Rewired.modifySignal
      exact fun _ ↦ rfl
    | derived i =>
      apply Rewired.modifyDerived
      exact fun _ ↦ rfl

/-- Only the source that is observed gets another observer. -/
theorem observersOf_addObserver {s : Source} (hs : w.Observable s) (s' : Source) :
    (w.addObserver id s).observersOf s' =
      if s' = s ∧ id ∉ w.observersOf s then w.observersOf s' ++ [id] else w.observersOf s' := by
  unfold addObserver
  rw [hs.2, Bool.false_or]
  by_cases hmem : id ∈ w.observersOf s
  · rw [if_pos (List.contains_iff_mem.mpr hmem), if_neg fun h ↦ h.2 hmem]
  · rw [if_neg fun h ↦ hmem (List.contains_iff_mem.mp h)]
    by_cases hne : s' = s
    · subst hne
      rw [if_pos ⟨rfl, hmem⟩]
      cases s' with
      | signal i => exact congrArg Signal.observers (w.signal_modifySignal_self hs.1 _)
      | derived i => exact congrArg Derived.observers (w.derived_modifyDerived_self hs.1 _)
    · rw [if_neg fun h ↦ hne h.1]
      cases s with
      | signal i =>
        cases s' with
        | signal j =>
          exact congrArg Signal.observers (w.signal_modifySignal_of_ne (fun h ↦ hne (congrArg _ h)) _)
        | derived j => rfl
      | derived i =>
        cases s' with
        | signal j => rfl
        | derived j =>
          exact congrArg Derived.observers (w.derived_modifyDerived_of_ne (fun h ↦ hne (congrArg _ h)) _)

variable (id) in
/-- Sources that can be observed get one more observer each. -/
theorem foldl_addObserver {ss : List Source} (hss : ∀ s ∈ ss, w.Observable s) :
    w.Rewired (ss.foldl (fun w s ↦ w.addObserver id s) w) ∧ ∀ j s,
      j ∈ (ss.foldl (fun w s ↦ w.addObserver id s) w).observersOf s ↔
        j ∈ w.observersOf s ∨ j = id ∧ s ∈ ss := by
  induction ss generalizing w with
  | nil => exact ⟨.refl w, fun j s ↦ (or_iff_left fun h ↦ List.not_mem_nil h.2).symm⟩
  | cons first rest ih =>
    have hfirst := rewired_addObserver w id first
    obtain ⟨hrest, hmem⟩ := ih fun s hs ↦ hfirst.observable (hss s (List.mem_cons_of_mem _ hs))
    refine ⟨hfirst.trans hrest, fun j s ↦ ?_⟩
    rw [List.foldl_cons, hmem, observersOf_addObserver (hss first List.mem_cons_self)]
    by_cases hs : s = first
    · subst hs
      by_cases hthere : id ∈ w.observersOf s
      · simp only [hthere, not_true_eq_false, and_false, if_false, List.mem_cons, true_or, and_true]
        constructor
        · exact Or.imp_right And.left
        · rintro (h | rfl)
          · exact .inl h
          · exact .inl hthere
      · rw [if_pos ⟨rfl, hthere⟩, List.mem_append, List.mem_singleton, List.mem_cons]
        constructor
        · rintro ((h | h) | h)
          · exact .inl h
          · exact .inr ⟨h, .inl rfl⟩
          · exact .inr ⟨h.1, .inr h.2⟩
        · rintro (h | h)
          · exact .inl (.inl h)
          · exact .inl (.inr h.1)
    · simp [hs]

/-- The first evaluation of a derived value: all that it has read is observed from now on. -/
theorem retrack_first {next : List Source} (hsources : (w.derived id).sources = [])
    (hnext : ∀ s ∈ next, w.Observable s) :
    ∃ w', w.Rewired w' ∧ (∀ j s, j ∈ w'.observersOf s ↔ j ∈ w.observersOf s ∨ j = id ∧ s ∈ next) ∧
      w.retrack id next = w'.modifyDerived id fun d ↦
        { d with sources := next, height := (next.map w.heightOf).foldl max 0 + 1 } := by
  obtain ⟨hrewired, hmem⟩ := foldl_addObserver id hnext
  refine ⟨_, hrewired, hmem, ?_⟩
  unfold retrack
  have hall : next.filter (fun s ↦ !([] : List Source).contains s) = next :=
    List.filter_eq_self.mpr fun _ _ ↦ rfl
  dsimp only
  rw [hsources, hall, List.filter_nil, List.foldl_nil]
  rw [List.map_congr_left fun s _ ↦ hrewired.heightOf_eq s]

/-- Another evaluation with the same sources: they are observed already. -/
theorem retrack_again {next : List Source} (hnext : ∀ s, s ∈ next ↔ s ∈ (w.derived id).sources) :
    w.retrack id next = w.modifyDerived id fun d ↦
      { d with sources := next, height := (next.map w.heightOf).foldl max 0 + 1 } := by
  have hgone : (w.derived id).sources.filter (fun s ↦ !next.contains s) = [] :=
    List.filter_eq_nil_iff.mpr fun s hs ↦ by simp [(hnext s).mpr hs]
  have hnew : next.filter (fun s ↦ !(w.derived id).sources.contains s) = [] :=
    List.filter_eq_nil_iff.mpr fun s hs ↦ by simp [(hnext s).mp hs]
  unfold retrack
  dsimp only
  rw [hgone, hnew]
  rfl

end Observers

end LiveGraph.World
