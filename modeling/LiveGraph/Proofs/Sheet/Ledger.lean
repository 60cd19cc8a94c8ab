import LiveGraph.Proofs.Sheet.Basic

/-!
# Ledgers

What of a world is of concern to those who watch: what each source holds and who watches it, whom it waits to
tell, and what is written down. Marking, queueing and observing are not among it, and of what else is done in a
world it is said here what becomes of its ledger.
-/

namespace LiveGraph

/-- What of a source is of concern to those who watch it. -/
structure Cell where
  watchers : Watchers
  notifying : Bool
  disposed : Bool
  dropped : Bool
  equality : Equality
  value : Option Datum

/-- Whether a cell comes to hold another value; a first value replaces none. -/
def Cell.alters (c : Cell) (d : Datum) : Bool :=
  c.value.any fun previous ↦ !c.equality.holds previous d

def Signal.cell (s : Signal) : Cell :=
  ⟨s.watchers, s.notifying, s.disposed, false, s.equality, some (.value s.value)⟩

def Derived.cell (d : Derived) : Cell :=
  ⟨d.watchers, d.notifying, d.disposed, d.dropped, d.equality, d.value⟩

structure Ledger where
  cell : Source → Cell
  signals : Nat
  deriveds : Nat
  views : Array View
  pins : List Pin
  effects : List Effect
  session : Session

namespace Ledger

variable (l : Ledger) (s : Source)

def setCell (c : Cell) : Ledger :=
  { l with cell := Function.update l.cell s c }

/-- Puts the notification of those who watch a source off, once. -/
def defer : Ledger :=
  if (l.cell s).watchers.isEmpty || (l.cell s).notifying then l
  else { l.setCell s { l.cell s with notifying := true } with effects := l.effects ++ [s.effect] }

/-- A source gets a value. -/
def setValue (d : Datum) : Ledger :=
  l.setCell s { l.cell s with value := some d }

/-- A source gets another value, which those who watch it have to be told. -/
def change (d : Datum) : Ledger :=
  (l.setValue s d).defer s

/-- Somebody else watches a source, or somebody no longer. -/
def setWatchers (f : Watchers → Watchers) : Ledger :=
  l.setCell s { l.cell s with watchers := f (l.cell s).watchers }

def modifySession (f : Session → Session) : Ledger :=
  { l with session := f l.session }

end Ledger

namespace World

variable (w : World)

def cell : Source → Cell
  | .signal id => (w.signal id).cell
  | .derived id => (w.derived id).cell

def ledger : Ledger where
  cell := w.cell
  signals := w.signals.size
  deriveds := w.deriveds.size
  views := w.views
  pins := w.pins
  effects := w.effects
  session := w.session

theorem watchers_channel (s : Source) : w.watchers s.channel = (w.cell s).watchers := by
  cases s <;> rfl

theorem content_eq_value (s : Source) : w.content s = (w.cell s).value := by
  cases s <;> rfl

theorem isDisposed_eq_disposed (s : Source) : w.isDisposed s = (w.cell s).disposed := by
  cases s <;> rfl

section Modify

variable {id : Nat}

theorem ledger_modifySignal (hid : id < w.signals.size) (f : Signal → Signal) :
    (w.modifySignal id f).ledger = w.ledger.setCell (.signal id) (f (w.signal id)).cell := by
  have hcell : (w.modifySignal id f).cell = Function.update w.cell (.signal id) (f (w.signal id)).cell := by
    funext s
    cases s with
    | signal j =>
      by_cases hj : j = id
      · subst hj
        rw [Function.update_self]
        exact congrArg Signal.cell (w.signal_modifySignal_self hid f)
      · rw [Function.update_of_ne fun h ↦ hj (Source.signal.inj h)]
        exact congrArg Signal.cell (w.signal_modifySignal_of_ne hj f)
    | derived j => exact (Function.update_of_ne Source.noConfusion _ _).symm
  unfold ledger Ledger.setCell
  rw [hcell, size_modifySignal]
  rfl

theorem ledger_modifyDerived (hid : id < w.deriveds.size) (f : Derived → Derived) :
    (w.modifyDerived id f).ledger = w.ledger.setCell (.derived id) (f (w.derived id)).cell := by
  have hcell : (w.modifyDerived id f).cell = Function.update w.cell (.derived id) (f (w.derived id)).cell := by
    funext s
    cases s with
    | derived j =>
      by_cases hj : j = id
      · subst hj
        rw [Function.update_self]
        exact congrArg Derived.cell (w.derived_modifyDerived_self hid f)
      · rw [Function.update_of_ne fun h ↦ hj (Source.derived.inj h)]
        exact congrArg Derived.cell (w.derived_modifyDerived_of_ne hj f)
    | signal j => exact (Function.update_of_ne Source.noConfusion _ _).symm
  unfold ledger Ledger.setCell
  rw [hcell, size_modifyDerived]
  rfl

theorem ledger_modifyDerived_of_same {f : Derived → Derived} (hf : ∀ d, (f d).cell = d.cell)
    (id : DerivedId) : (w.modifyDerived id f).ledger = w.ledger := by
  have hcell : (w.modifyDerived id f).cell = w.cell := by
    funext s
    cases s with
    | signal j => rfl
    | derived j => exact w.part_modifyDerived Derived.cell hf id j
  unfold ledger
  rw [hcell, size_modifyDerived]
  rfl

end Modify

section Marking

theorem ledger_markStale (id : DerivedId) : (w.markStale id).ledger = w.ledger := by
  by_cases h : ((w.derived id).disposed || (w.derived id).stale) = true
  · rw [markStale_of_stale w h]
  · rw [markStale_of_fresh w h]
    change (w.modifyDerived id fun d ↦ { d with stale := true }).ledger = w.ledger
    apply ledger_modifyDerived_of_same
    exact fun _ ↦ rfl

theorem ledger_markObservers (s : Source) : (w.markObservers s).ledger = w.ledger := by
  unfold markObservers
  induction w.observersOf s generalizing w with
  | nil => rfl
  | cons id rest ih => rw [List.foldl_cons, ih, ledger_markStale]

theorem Rewired.ledger_eq {w w' : World} (h : w.Rewired w') : w'.ledger = w.ledger := by
  have hcell : w'.cell = w.cell := by
    funext s
    cases s with
    | signal j => exact (congrArg Signal.cell (h.signal_eq j) :)
    | derived j => exact (congrArg Derived.cell (h.derived_eq j) :)
  have hsignals := h.signals_size
  have hderiveds := h.deriveds_size
  obtain ⟨_, _, rfl⟩ := h.others
  unfold ledger
  rw [hcell, hsignals, hderiveds]

theorem rewired_removeObserver (id : DerivedId) (s : Source) : w.Rewired (w.removeObserver id s) := by
  cases s with
  | signal i =>
    apply Rewired.modifySignal
    exact fun _ ↦ rfl
  | derived i =>
    apply Rewired.modifyDerived
    exact fun _ ↦ rfl

theorem rewired_foldl {f : World → Source → World} (hf : ∀ (w : World) s, w.Rewired (f w s)) (ss : List Source) :
    w.Rewired (ss.foldl f w) := by
  induction ss generalizing w with
  | nil => exact .refl w
  | cons s rest ih => exact (hf w s).trans (ih (f w s))

end Marking

/-- Two worlds that differ by nothing that is of concern to those who watch, and by nothing that is under way. -/
structure Undisturbed (w w' : World) : Prop where
  ledger_eq : w'.ledger = w.ledger
  depth_eq : w'.depth = w.depth
  flushing_eq : w'.flushing = w.flushing
  queue_eq : w'.queue = w.queue

namespace Undisturbed

variable {w w' w'' : World}

theorem trans (h : w.Undisturbed w') (h' : w'.Undisturbed w'') : w.Undisturbed w'' :=
  ⟨h'.ledger_eq.trans h.ledger_eq, h'.depth_eq.trans h.depth_eq, h'.flushing_eq.trans h.flushing_eq,
    h'.queue_eq.trans h.queue_eq⟩

theorem of_rewired (h : w.Rewired w') : w.Undisturbed w' := by
  have hledger := h.ledger_eq
  obtain ⟨_, _, rfl⟩ := h.others
  exact ⟨hledger, rfl, rfl, rfl⟩

theorem modifyDerived {f : Derived → Derived} (hf : ∀ d, (f d).cell = d.cell) (w : World) (id : DerivedId) :
    w.Undisturbed (w.modifyDerived id f) :=
  ⟨w.ledger_modifyDerived_of_same hf id, rfl, rfl, rfl⟩

/-- There may be nothing to change. -/
theorem modifyDerived_of_size_le {id : DerivedId} (hid : w.deriveds.size ≤ id) (f : Derived → Derived) :
    w.Undisturbed (w.modifyDerived id f) := by
  have hcell : (w.modifyDerived id f).cell = w.cell := by
    funext s
    cases s with
    | signal j => rfl
    | derived j =>
      refine congrArg Derived.cell ((w.derived_modifyDerived id f j).trans (if_neg fun h ↦ ?_))
      exact absurd (Nat.lt_of_le_of_lt hid (h.1 ▸ h.2)) (Nat.lt_irrefl _)
  refine ⟨?_, rfl, rfl, rfl⟩
  unfold ledger
  rw [hcell, size_modifyDerived]
  rfl

/-- Who observes what is of no concern to those who watch. -/
theorem retrack (w : World) (id : DerivedId) (next : List Source) : w.Undisturbed (w.retrack id next) := by
  unfold World.retrack
  dsimp only
  have hremoved := rewired_foldl w (fun w s ↦ rewired_removeObserver w id s)
    ((w.derived id).sources.filter fun s ↦ !next.contains s)
  have hrewired := hremoved.trans (rewired_foldl _ (fun w s ↦ rewired_addObserver w id s)
    (next.filter fun s ↦ !(w.derived id).sources.contains s))
  refine (of_rewired hrewired).trans ?_
  apply modifyDerived
  exact fun _ ↦ rfl

end Undisturbed

section Changing

variable (w : World)

theorem ledger_deferSignal (id : SignalId) : (w.deferSignal id).ledger = w.ledger.defer (.signal id) := by
  by_cases h : ((w.signal id).watchers.isEmpty || (w.signal id).notifying) = true
  · rw [deferSignal_of_told w h]
    exact (if_pos h).symm
  · have hid : id < w.signals.size := Nat.lt_of_not_le fun hle ↦ h (by rw [w.signal_of_size_le hle]; rfl)
    rw [deferSignal_of_untold w h]
    refine Eq.trans ?_ (if_neg h).symm
    exact congrArg (fun l : Ledger ↦ { l with effects := w.effects ++ [Effect.signal id] })
      (w.ledger_modifySignal hid _)

theorem ledger_deferDerived (id : DerivedId) : (w.deferDerived id).ledger = w.ledger.defer (.derived id) := by
  by_cases h : ((w.derived id).watchers.isEmpty || (w.derived id).notifying) = true
  · rw [deferDerived_of_told h]
    exact (if_pos h).symm
  · have hid : id < w.deriveds.size := Nat.lt_of_not_le fun hle ↦ h (by rw [w.derived_of_size_le hle]; rfl)
    rw [deferDerived_of_untold h]
    refine Eq.trans ?_ (if_neg h).symm
    exact congrArg (fun l : Ledger ↦ { l with effects := w.effects ++ [Effect.derived id] })
      (w.ledger_modifyDerived hid _)

theorem ledger_write {id : SignalId} (hid : id < w.signals.size) (v : Value) :
    (w.write id v).ledger = w.ledger.change (.signal id) (.value v) := by
  rw [write, ledger_deferSignal, ledger_markObservers, ledger_modifySignal w hid]
  rfl

theorem ledger_keep {id : DerivedId} (hid : id < w.deriveds.size) (d : Datum) :
    (w.keep id d).ledger = w.ledger.change (.derived id) d := by
  rw [keep, ledger_deferDerived, ledger_markObservers, ledger_modifyDerived w hid]
  rfl

end Changing

/-- To announce is to write something down, or nothing. -/
theorem announce_eq (s : Source) (d : Datum) : ∃ session, w.announce s d = { w with session := session } := by
  unfold announce
  split
  · exact ⟨_, rfl⟩
  · exact ⟨w.session, rfl⟩

section Watching

variable {s : Source}

/-- Whoever is meant, there is the source. -/
theorem ledger_modifyWatchers (hs : w.has s = true) (f : Watchers → Watchers) :
    (w.modifyWatchers s.channel f).ledger = w.ledger.setWatchers s f := by
  cases s with
  | signal id => exact w.ledger_modifySignal (of_decide_eq_true hs) _
  | derived id => exact w.ledger_modifyDerived (of_decide_eq_true hs) _

theorem ledger_quiet_signal {id : SignalId} (hid : id < w.signals.size) :
    (w.modifySignal id fun s ↦ { s with notifying := false }).ledger =
      w.ledger.setCell (.signal id) { w.ledger.cell (.signal id) with notifying := false } :=
  w.ledger_modifySignal hid _

theorem ledger_quiet_derived {id : DerivedId} (hid : id < w.deriveds.size) :
    (w.modifyDerived id fun d ↦ { d with notifying := false }).ledger =
      w.ledger.setCell (.derived id) { w.ledger.cell (.derived id) with notifying := false } :=
  w.ledger_modifyDerived hid _

end Watching

end World

end LiveGraph
