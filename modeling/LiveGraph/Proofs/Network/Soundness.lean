import LiveGraph.Proofs.Network.Basic
import LiveGraph.Proofs.Reactive.Marking

/-!
# Sound networks

What is true of a network at any time, also in the middle of evaluations. A derived value that was computed
is observed by exactly its sources and stands above them, and it is queued under its height if it is stale.
What waits to be told is flagged, and the evaluations under way go from a derived value to ever lower ones.
-/

namespace LiveGraph

namespace Derived

/-- What never changes. -/
def fixed (d : Derived) : Equality × Bool × Bool × Bool :=
  (d.equality, d.disposed, d.dropped, d.cyclic)

/-- What ties it to its sources and to what depends on it. -/
def wires (d : Derived) : Bool × List Source × Nat × List DerivedId :=
  (d.value.isSome, d.sources, d.height, d.observers)

/-- What decides whether it has to be computed. -/
def turn (d : Derived) : Bool × Bool × Bool × Nat :=
  (d.value.isSome, d.stale, d.evaluating, d.height)

/-- Who is to be told, and whether that waits to be done. -/
def notice (d : Derived) : Watchers × Bool :=
  (d.watchers, d.notifying)

end Derived

/-- Who is to be told of a signal, and whether that waits to be done. -/
def Signal.notice (s : Signal) : Watchers × Bool :=
  (s.watchers, s.notifying)

/-- The callbacks of scripts, each under a number of its own. -/
structure Watchers.Tidy (ws : Watchers) : Prop extends Watchers.Numbered ws where
  script : ∀ e ∈ ws.entries, ∃ name, e.2 = .script name .every []

namespace World

/-- The derived values that are being computed, innermost first. -/
def owners (w : World) : List DerivedId :=
  w.frames.filterMap Frame.owner

end World

namespace Network

variable (net : Network)

/-- One derived value is a source of another one. -/
def Below (e d : DerivedId) : Prop :=
  Source.derived e ∈ net.sources d

/-- Everything is in being and is kept, and derived values are as they were made. -/
structure Standing (w : World) : Prop where
  signals_size : w.signals.size = net.initial.length
  deriveds_size : w.deriveds.size = net.count
  noViews : w.views = #[]
  held : net.handles ⊆ w.pins
  undisposed : ∀ id, (w.signal id).disposed = false
  fixed : ∀ id < net.count, (w.derived id).fixed = (net.equality id, false, false, false)

/-- What was computed has its sources, and they know it. -/
structure Wired (w : World) : Prop where
  sources_iff : ∀ d, w.Evaluated d → ∀ s, s ∈ (w.derived d).sources ↔ s ∈ net.sources d
  sources_nil : ∀ d, ¬w.Evaluated d → (w.derived d).sources = []
  below : ∀ d e, w.Evaluated d → net.Below e d → w.Evaluated e
  observers_iff : ∀ d s, d ∈ w.observersOf s ↔ w.Evaluated d ∧ s ∈ net.sources d
  height_eq : ∀ d, w.Evaluated d → (w.derived d).height = ((net.sources d).map w.heightOf).foldl max 0 + 1

/-- What is stale is queued under its height, and nothing is queued under another one. One derived value may
be excepted, whose turn it is. -/
structure Queued (except : Option DerivedId) (w : World) : Prop where
  unevaluated : ∀ d < net.count, ¬w.Evaluated d → (w.derived d).stale = !(w.derived d).evaluating
  queued : ∀ d, except ≠ some d → w.Evaluated d → (w.derived d).stale = true →
    ((w.derived d).height, d) ∈ w.queue
  sound : ∀ entry ∈ w.queue, w.Evaluated entry.2 ∧ entry.1 = (w.derived entry.2).height
  sorted : w.queue.Pairwise (·.1 ≤ ·.1)

/-- What waits to be told is flagged, and who is to be told is known by a number. -/
structure Pending (w : World) : Prop where
  signal_iff : ∀ id, .signal id ∈ w.effects ↔ (w.signal id).notifying = true
  derived_iff : ∀ id, .derived id ∈ w.effects ↔ (w.derived id).notifying = true
  noView : ∀ id, .view id ∉ w.effects
  nodup : w.effects.Nodup
  tidy : ∀ s : Source, (w.watchers s.channel).Tidy

/-- The evaluations under way, each one below those around it. -/
structure Nested (w : World) : Prop where
  evaluating_iff : ∀ d, (w.derived d).evaluating = true ↔ d ∈ w.owners
  below : w.owners.Pairwise (Relation.TransGen net.Below)
  acyclic : ∀ f ∈ w.frames, f.cyclic = false

/-- All of it. -/
structure Sound (except : Option DerivedId) (w : World) : Prop where
  standing : net.Standing w
  wired : net.Wired w
  queued : net.Queued except w
  pending : Pending w
  nested : net.Nested w

end Network

namespace World

theorem Evaluated.lt_size {w : World} {d : DerivedId} (h : w.Evaluated d) : d < w.deriveds.size := by
  refine Nat.lt_of_not_le fun hle ↦ ?_
  rw [Evaluated, w.derived_of_size_le hle] at h
  exact absurd h (by decide)

/-- Nothing ends where everything is held by who is at work. -/
theorem reap_of_pinned {w : World} (hviews : w.views = #[])
    (hpinned : ∀ id < w.deriveds.size, .derived id ∈ w.pins) : w.reap = w := by
  have hnoViews : w.reapViews = w := by
    rw [reapViews, hviews]
    rfl
  rw [reap, hnoViews]
  cases hsize : w.deriveds.size with
  | zero => rfl
  | succ n =>
    have hheld : (List.range w.deriveds.size).find? (fun id ↦
        !(w.derived id).dropped && !w.isDerivedHeld id) = none := by
      refine List.find?_eq_none.mpr fun id hid ↦ ?_
      simp [isDerivedHeld, hpinned id (List.mem_range.mp hid)]
    rw [reapDeriveds, hheld]

end World

namespace Network

variable {net : Network} {w w' : World} {except : Option DerivedId} {d e : DerivedId}

/-- No derived value is below itself. -/
theorem below_irrefl : ¬Relation.TransGen net.Below d d := by
  have hacyclic : WellFounded (Relation.TransGen net.Below) := net.acyclic.transGen
  exact hacyclic.irrefl.irrefl d

namespace Standing

variable (h : net.Standing w)
include h

theorem undisposed_derived (hd : d < net.count) : (w.derived d).disposed = false :=
  (congrArg (·.2.1) (h.fixed d hd) :)

theorem undropped (hd : d < net.count) : (w.derived d).dropped = false :=
  (congrArg (·.2.2.1) (h.fixed d hd) :)

theorem acyclic (hd : d < net.count) : (w.derived d).cyclic = false :=
  (congrArg (·.2.2.2) (h.fixed d hd) :)

theorem equality_eq (hd : d < net.count) : (w.derived d).equality = net.equality d :=
  (congrArg (·.1) (h.fixed d hd) :)

theorem lt_count (hd : w.Evaluated d) : d < net.count :=
  h.deriveds_size ▸ hd.lt_size

theorem pinned_derived (hd : d < net.count) : .derived d ∈ w.pins :=
  h.held (List.mem_append_right _ (List.mem_map_of_mem (List.mem_range.mpr hd)))

theorem pinned_signal {id : SignalId} (hid : id < net.initial.length) : .signal id ∈ w.pins :=
  h.held (List.mem_append_left _ (List.mem_map_of_mem (List.mem_range.mpr hid)))

/-- Nothing ends. -/
theorem reap_eq : w.reap = w :=
  World.reap_of_pinned h.noViews fun _ hid ↦ h.pinned_derived (h.deriveds_size ▸ hid)

theorem modifySignal {f : Signal → Signal} (hf : ∀ s, (f s).disposed = s.disposed) (id : SignalId) :
    net.Standing (w.modifySignal id f) :=
  { h with
    signals_size := (w.size_modifySignal id f).trans h.signals_size
    undisposed := fun j ↦ (w.part_modifySignal Signal.disposed hf id j).trans (h.undisposed j) }

theorem modifyDerived {f : Derived → Derived} (hf : ∀ x, (f x).fixed = x.fixed) (id : DerivedId) :
    net.Standing (w.modifyDerived id f) :=
  { h with
    deriveds_size := (w.size_modifyDerived id f).trans h.deriveds_size
    fixed := fun j hj ↦ (w.part_modifyDerived Derived.fixed hf id j).trans (h.fixed j hj) }

end Standing

theorem evaluated_congr (h : ∀ d, (w'.derived d).value.isSome = (w.derived d).value.isSome)
    (d : DerivedId) : w'.Evaluated d ↔ w.Evaluated d :=
  Iff.of_eq (congrArg (· = true) (h d))

theorem Wired.congr (h : net.Wired w) (hderived : ∀ d, (w'.derived d).wires = (w.derived d).wires)
    (hsignal : ∀ id, (w'.signal id).observers = (w.signal id).observers) : net.Wired w' := by
  have hevaluated := evaluated_congr fun d ↦ (congrArg (·.1) (hderived d) :)
  have hsources (d : DerivedId) : (w'.derived d).sources = (w.derived d).sources :=
    (congrArg (·.2.1) (hderived d) :)
  have hheight : w'.heightOf = w.heightOf := by
    funext s
    cases s with
    | signal id => rfl
    | derived d => exact (congrArg (·.2.2.1) (hderived d) :)
  have hobservers (s : Source) : w'.observersOf s = w.observersOf s := by
    cases s with
    | signal id => exact hsignal id
    | derived d => exact (congrArg (·.2.2.2) (hderived d) :)
  constructor
  · intro d hd
    rw [hsources]
    exact h.sources_iff d ((hevaluated d).mp hd)
  · intro d hd
    rw [hsources]
    exact h.sources_nil d fun h ↦ hd ((hevaluated d).mpr h)
  · intro d e hd he
    exact (hevaluated e).mpr (h.below d e ((hevaluated d).mp hd) he)
  · intro d s
    rw [hobservers, hevaluated]
    exact h.observers_iff d s
  · intro d hd
    rw [hheight]
    exact (congrFun hheight (.derived d)).trans (h.height_eq d ((hevaluated d).mp hd))

theorem Queued.congr (h : net.Queued except w) (hturn : ∀ d, (w'.derived d).turn = (w.derived d).turn)
    (hqueue : w'.queue = w.queue) : net.Queued except w' := by
  have hevaluated := evaluated_congr fun d ↦ (congrArg (·.1) (hturn d) :)
  have hstale (d : DerivedId) : (w'.derived d).stale = (w.derived d).stale :=
    (congrArg (·.2.1) (hturn d) :)
  have hevaluating (d : DerivedId) : (w'.derived d).evaluating = (w.derived d).evaluating :=
    (congrArg (·.2.2.1) (hturn d) :)
  have hheight (d : DerivedId) : (w'.derived d).height = (w.derived d).height :=
    (congrArg (·.2.2.2) (hturn d) :)
  constructor
  · intro d hd hnot
    rw [hstale, hevaluating]
    exact h.unevaluated d hd fun h ↦ hnot ((hevaluated d).mpr h)
  · intro d hne hd hdstale
    rw [hqueue, hheight]
    exact h.queued d hne ((hevaluated d).mp hd) (hstale d ▸ hdstale)
  · intro entry hentry
    rw [hevaluated, hheight]
    exact h.sound entry (hqueue ▸ hentry)
  · rw [hqueue]
    exact h.sorted

theorem Pending.congr (h : Pending w) (hsignal : ∀ id, (w'.signal id).notice = (w.signal id).notice)
    (hderived : ∀ id, (w'.derived id).notice = (w.derived id).notice)
    (heffects : w'.effects = w.effects) : Pending w' := by
  constructor
  · intro id
    rw [heffects, h.signal_iff]
    exact Iff.of_eq (congrArg (·.2 = true) (hsignal id)).symm
  · intro id
    rw [heffects, h.derived_iff]
    exact Iff.of_eq (congrArg (·.2 = true) (hderived id)).symm
  · exact heffects ▸ h.noView
  · exact heffects ▸ h.nodup
  · intro s
    have hwatchers : w'.watchers s.channel = w.watchers s.channel := by
      cases s with
      | signal id => exact (congrArg (·.1) (hsignal id) :)
      | derived id => exact (congrArg (·.1) (hderived id) :)
    exact hwatchers ▸ h.tidy s

theorem Nested.congr (h : net.Nested w)
    (hevaluating : ∀ d, (w'.derived d).evaluating = (w.derived d).evaluating)
    (howners : w'.owners = w.owners) (hacyclic : ∀ f ∈ w'.frames, f.cyclic = false) : net.Nested w' := by
  constructor
  · intro d
    rw [hevaluating, howners]
    exact h.evaluating_iff d
  · rw [howners]
    exact h.below
  · exact hacyclic

namespace Sound

variable (h : net.Sound except w)
include h

/-- A change of what has nothing to do with signals and derived values. -/
theorem context (depth : Nat) (flushing : Bool) (session : Session) {pins : List Pin}
    (hpins : net.handles ⊆ pins) : net.Sound except
      { w with depth := depth, flushing := flushing, session := session, pins := pins } where
  standing := { h.standing with held := hpins }
  wired := h.wired.congr (fun _ ↦ rfl) fun _ ↦ rfl
  queued := h.queued.congr (fun _ ↦ rfl) rfl
  pending := h.pending.congr (fun _ ↦ rfl) (fun _ ↦ rfl) rfl
  nested := h.nested.congr (fun _ ↦ rfl) rfl h.nested.acyclic

/-- Other frames, of the same evaluations. -/
theorem setFrames (frames : List Frame) (howners : frames.filterMap Frame.owner = w.owners)
    (hacyclic : ∀ f ∈ frames, f.cyclic = false) : net.Sound except { w with frames := frames } where
  standing := { h.standing with }
  wired := h.wired.congr (fun _ ↦ rfl) fun _ ↦ rfl
  queued := h.queued.congr (fun _ ↦ rfl) rfl
  pending := h.pending.congr (fun _ ↦ rfl) (fun _ ↦ rfl) rfl
  nested := h.nested.congr (fun _ ↦ rfl) howners hacyclic

/-- A change of a signal that concerns its value alone. -/
theorem modifySignal {f : Signal → Signal} (hdisposed : ∀ s, (f s).disposed = s.disposed)
    (hobservers : ∀ s, (f s).observers = s.observers) (hnotice : ∀ s, (f s).notice = s.notice)
    (id : SignalId) : net.Sound except (w.modifySignal id f) where
  standing := h.standing.modifySignal hdisposed id
  wired := h.wired.congr (fun _ ↦ rfl) fun j ↦ w.part_modifySignal Signal.observers hobservers id j
  queued := h.queued.congr (fun _ ↦ rfl) rfl
  pending := h.pending.congr (fun j ↦ w.part_modifySignal Signal.notice hnotice id j) (fun _ ↦ rfl) rfl
  nested := h.nested.congr (fun _ ↦ rfl) rfl h.nested.acyclic

/-- A change of a derived value that concerns its value alone. -/
theorem modifyDerived {f : Derived → Derived} (hfixed : ∀ x, (f x).fixed = x.fixed)
    (hturn : ∀ j, ((w.modifyDerived d f).derived j).turn = (w.derived j).turn)
    (hwires : ∀ j, ((w.modifyDerived d f).derived j).wires = (w.derived j).wires)
    (hnotice : ∀ x, (f x).notice = x.notice) : net.Sound except (w.modifyDerived d f) where
  standing := h.standing.modifyDerived hfixed d
  wired := h.wired.congr hwires fun _ ↦ rfl
  queued := h.queued.congr hturn rfl
  pending := h.pending.congr (fun _ ↦ rfl) (fun j ↦ w.part_modifyDerived Derived.notice hnotice d j) rfl
  nested := h.nested.congr (fun j ↦ (congrArg (·.2.2.1) (hturn j) :)) rfl h.nested.acyclic

/-- A derived value that was computed gets another value. -/
theorem setValue (hd : w.Evaluated d) (v : Datum) :
    net.Sound except (w.modifyDerived d fun x ↦ { x with value := some v }) := by
  have hsame (j : DerivedId) : ((w.modifyDerived d fun x ↦ { x with value := some v }).derived j) =
      { w.derived j with value := if j = d then some v else (w.derived j).value } := by
    by_cases hj : j = d
    · subst hj
      rw [w.derived_modifyDerived_self hd.lt_size, if_pos rfl]
    · rw [w.derived_modifyDerived_of_ne hj, if_neg hj]
  have hsome (j : DerivedId) : (if j = d then some v else (w.derived j).value).isSome =
      (w.derived j).value.isSome := by
    split
    · rename_i hj
      exact (hj ▸ hd : w.Evaluated j).symm
    · rfl
  refine h.modifyDerived (fun _ ↦ rfl) (fun j ↦ ?_) (fun j ↦ ?_) fun _ ↦ rfl
  · rw [hsame]
    exact congrArg (·, (w.derived j).stale, (w.derived j).evaluating, (w.derived j).height) (hsome j)
  · rw [hsame]
    exact congrArg (·, (w.derived j).sources, (w.derived j).height, (w.derived j).observers) (hsome j)

/-- Marking a derived value that was computed. -/
theorem markStale (hd : w.Evaluated d) : net.Sound except (w.markStale d) := by
  by_cases hmark : ((w.derived d).disposed || (w.derived d).stale) = true
  · rw [World.markStale_of_stale w hmark]
    exact h
  · rw [World.markStale_of_fresh w hmark]
    have hstanding : net.Standing (w.modifyDerived d fun x ↦ { x with stale := true }) := by
      apply h.standing.modifyDerived
      exact fun _ ↦ rfl
    have hpart {α : Type} (part : Derived → α) (hf : ∀ x : Derived, part { x with stale := true } = part x)
        (j : DerivedId) : part ((w.modifyDerived d fun x ↦ { x with stale := true }).derived j) =
          part (w.derived j) := w.part_modifyDerived part hf d j
    have hevaluated := evaluated_congr fun j ↦ hpart (fun x ↦ x.value.isSome) (fun _ ↦ rfl) j
    exact
      { standing := { hstanding with }
        wired := h.wired.congr (fun j ↦ hpart Derived.wires (fun _ ↦ rfl) j) fun _ ↦ rfl
        pending := h.pending.congr (fun _ ↦ rfl) (fun j ↦ hpart Derived.notice (fun _ ↦ rfl) j) rfl
        nested := h.nested.congr (fun j ↦ hpart Derived.evaluating (fun _ ↦ rfl) j) rfl h.nested.acyclic
        queued := by
          constructor
          · intro j hj hnot
            have hne : j ≠ d := fun heq ↦ hnot ((hevaluated j).mpr (heq ▸ hd))
            have hsame := w.derived_modifyDerived_of_ne hne fun x ↦ { x with stale := true }
            change ((w.modifyDerived d _).derived j).stale = !((w.modifyDerived d _).derived j).evaluating
            rw [hsame]
            exact h.queued.unevaluated j hj fun h ↦ hnot ((hevaluated j).mpr h)
          · intro j hne hj hstale
            refine World.mem_insertQueued.mpr ?_
            by_cases heq : j = d
            · subst heq
              exact .inl (congrArg (·, j) (hpart Derived.height (fun _ ↦ rfl) j))
            · have hsame := w.derived_modifyDerived_of_ne heq fun x ↦ { x with stale := true }
              change ((w.modifyDerived d _).derived j).stale = true at hstale
              rw [hsame] at hstale
              refine .inr ?_
              change (((w.modifyDerived d _).derived j).height, j) ∈ w.queue
              rw [hsame]
              exact h.queued.queued j hne ((hevaluated j).mp hj) hstale
          · intro entry hentry
            refine ⟨(hevaluated _).mpr ?_, ?_⟩
            · rcases World.mem_insertQueued.mp hentry with rfl | hentry
              · exact hd
              · exact (h.queued.sound entry hentry).1
            · refine Eq.trans ?_ (hpart Derived.height (fun _ ↦ rfl) entry.2).symm
              rcases World.mem_insertQueued.mp hentry with rfl | hentry
              · rfl
              · exact (h.queued.sound entry hentry).2
          · exact World.pairwise_insertQueued h.queued.sorted }

end Sound

end Network

end LiveGraph
