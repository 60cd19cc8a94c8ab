import LiveGraph.Proofs.Focus.Keeping
import LiveGraph.Proofs.Focus.Reading
import LiveGraph.Proofs.Reactive.Leaves

/-!
# Derived values that follow a focus

A derived value may read a role, for all or for a scope. It was computed from the signals that are read for the role,
and observes them. As long as it is not marked these hold what they held then, and so does the role. A write marks
whoever observes the signal; where a scope is given roles of its own, that they are counted marks whoever reads in a
scope. Whoever is marked is computed anew.
-/

namespace LiveGraph

/-- What a derived value reads: a role, for all or for a scope. -/
structure Follower where
  name : String
  role : String
  scope : Option String

namespace Follower

/-- The derived value, with what it came to last. -/
def derived (f : Follower) (value : Option Datum) (stale : Bool) (sources : List Source) : Derived :=
  ⟨.formula f.name (.focus f.role f.scope), .same, value, stale, false, false, 1, sources, [], .empty, false, false,
    false⟩

/-- What is read for it of the first focus. -/
def reading (f : Follower) (w : World) : Reads (Option Uri) :=
  (w.state 0).reading f.scope f.role

/-- What it comes to in a world. -/
def present (f : Follower) (w : World) : Datum :=
  .ofUri? ((f.reading w).value w)

/-- It holds what it comes to now, and has all that is read for it among its sources. -/
structure Fresh (f : Follower) (w : World) (d : DerivedId) : Prop where
  value_eq : (w.derived d).value = some (f.present w)
  sources : ∀ j, .signal j ∈ (f.reading w).topics w → .signal j ∈ (w.derived d).sources

variable {f : Follower} {w w' : World} {d : DerivedId}

/-- What is read is the same where its sources hold the same. -/
theorem reading_congr (hreading : f.reading w' = f.reading w)
    (hvalue : ∀ j, .signal j ∈ (f.reading w).topics w → w'.valueOf j = w.valueOf j) :
    f.reading w' w' = f.reading w w := by
  rw [hreading]
  exact ((w.state 0).ofSignals_reading f.scope f.role).congr w w' hvalue

theorem Fresh.congr (h : f.Fresh w d) (hreading : f.reading w' = f.reading w)
    (hvalue : ∀ j, .signal j ∈ (f.reading w).topics w → w'.valueOf j = w.valueOf j)
    (hkept : (w'.derived d).value = (w.derived d).value) (hsources : (w'.derived d).sources = (w.derived d).sources) :
    f.Fresh w' d := by
  have hsame := reading_congr hreading hvalue
  refine ⟨?_, fun j hj ↦ ?_⟩
  · rw [hkept, h.value_eq, present, present]
    exact congrArg (fun r : Option Uri × List Topic ↦ some (Datum.ofUri? r.1)) hsame.symm
  · rw [hsources]
    have htopics : (f.reading w').topics w' = (f.reading w).topics w := congrArg Prod.snd hsame
    exact h.sources j (htopics ▸ hj)

theorem reading_of_state (h : w'.state 0 = w.state 0) : f.reading w' = f.reading w := by
  rw [reading, h, reading]

end Follower

namespace Focus

open World Act

/-- The derived values are those that follow the first focus, and each is marked, or is known to lag behind, or is
as it should be. Nothing but the queue waits, and nobody watches. -/
structure Followed (fs : List Follower) (lags : DerivedId → Prop) (w : World) : Prop where
  sound : Sound w 0
  current_eq : w.session.current = 0
  unwatched : ∀ slot j, (w.state 0).slot? slot = some j → (w.signal j).watchers.entries = []
  effects_eq : w.effects = []
  frames_eq : w.frames = []
  noViews : w.views = #[]
  size_eq : w.deriveds.size = fs.length
  pinned : ∀ d < fs.length, .derived d ∈ w.pins
  queued : ∀ e ∈ w.queue, e.1 = 1 ∧ e.2 < fs.length
  ordered : w.queue.Pairwise Sooner
  derived_eq : ∀ d f, fs[d]? = some f →
    w.derived d = f.derived (w.derived d).value (w.derived d).stale (w.derived d).sources
  observed : ∀ d, ∀ s ∈ (w.derived d).sources, (∃ j, s = .signal j) ∧ d ∈ w.observersOf s
  fresh : ∀ d f, fs[d]? = some f → (w.derived d).stale = false → ¬lags d → f.Fresh w d

variable {fs : List Follower} {lags : DerivedId → Prop} {w w' : World} {d : DerivedId} {f : Follower}

namespace Followed

theorem mono {lags' : DerivedId → Prop} (h : Followed fs lags w) (hlags : ∀ d, lags d → lags' d) :
    Followed fs lags' w :=
  { h with fresh := fun d f hf hstale hnot ↦ h.fresh d f hf hstale fun hlag ↦ hnot (hlags d hlag) }

/-- What is under way, and what waits, may be otherwise. -/
theorem context (h : Followed fs lags w) (depth : Nat) (flushing : Bool) {queue : List (Nat × DerivedId)}
    {pins : List Pin} (hqueue : queue.Sublist w.queue) (hpins : ∀ d < fs.length, .derived d ∈ pins) :
    Followed fs lags { w with depth := depth, flushing := flushing, queue := queue, pins := pins } :=
  { h with
    sound := h.sound.congr rfl rfl (fun _ ↦ rfl) fun _ ↦ rfl
    pinned := hpins
    queued := fun e he ↦ h.queued e (hqueue.subset he)
    ordered := h.ordered.sublist hqueue
    fresh := fun d f hf hstale hnot ↦ (h.fresh d f hf hstale hnot).congr rfl (fun _ _ ↦ rfl) rfl rfl }

section

variable (h : Followed fs lags w)
include h

theorem setDepth (n : Nat) : Followed fs lags (w.setDepth n) :=
  h.context n w.flushing (List.Sublist.refl _) h.pinned

theorem reap_eq : w.reap = w :=
  reap_of_pinned h.noViews fun d hd ↦ h.pinned d (h.size_eq ▸ hd)

/-- What waits is no more than there is. -/
theorem length_queue_le : w.queue.length ≤ fs.length := by
  have hsubset : w.queue ⊆ (List.range fs.length).map (Prod.mk 1) := fun e he ↦ by
    obtain ⟨hheight, hlt⟩ := h.queued e he
    exact List.mem_map.mpr ⟨e.2, List.mem_range.mpr hlt, Prod.ext hheight.symm rfl⟩
  have hnodup : w.queue.Nodup := h.ordered.imp fun hab ↦ hab.ne
  simpa using (List.subperm_of_subset hnodup hsubset).length_le

end

/-- A signal is written; whoever observes it may have lagged behind. -/
theorem write {j : SignalId} (h : Followed fs (fun d ↦ .signal j ∈ (w.derived d).sources) w) (hj : IsSlot w 0 j)
    (v : Value) : Followed fs (fun _ ↦ False) (w.write j v) := by
  obtain ⟨slot₀, hslot₀⟩ := hj
  have hpart {α : Type} (part : Signal → α) (hpart : ∀ (s : Signal) (v : Value) (notifying : Bool),
      part { s with value := v, notifying := notifying } = part s) (i : SignalId) :
      part ((w.write j v).signal i) = part (w.signal i) := w.part_write j v part hpart i
  have hstate : (w.write j v).state 0 = w.state 0 := by rw [World.state, states_write, World.state]
  obtain ⟨hordered, hqueued⟩ := queue_write (P := fun e ↦ e.1 = 1 ∧ e.2 < fs.length) v h.ordered h.queued
    fun d (hd : d < w.deriveds.size) ↦ by
      have hlt : d < fs.length := h.size_eq ▸ hd
      rw [h.derived_eq d _ (List.getElem?_eq_getElem hlt)]
      exact ⟨rfl, hlt⟩
  refine
    { sound := h.sound.congr (states_write w j v) (w.size_write j v) (hpart Signal.disposed fun _ _ _ ↦ rfl)
        (hpart Signal.equality fun _ _ _ ↦ rfl)
      current_eq := by rw [session_write]; exact h.current_eq
      unwatched := fun slot i hi ↦
        (hpart (·.watchers.entries) (fun _ _ _ ↦ rfl) i).trans (h.unwatched slot i (hstate ▸ hi))
      effects_eq := (effects_write_of_unwatched (h.unwatched slot₀ j hslot₀) v).trans h.effects_eq
      frames_eq := by rw [frames_write]; exact h.frames_eq
      noViews := by rw [views_write]; exact h.noViews
      size_eq := (deriveds_size_write w j v).trans h.size_eq
      pinned := fun d hd ↦ by rw [pins_write]; exact h.pinned d hd
      queued := hqueued
      ordered := hordered
      derived_eq := fun d f hf ↦ ?_
      observed := fun d s hs ↦ ?_
      fresh := fun d f hf hstale _ ↦ ?_ }
  · have hmarked (stale : Bool) : { w.derived d with stale := stale } =
        f.derived (w.derived d).value stale (w.derived d).sources :=
      (congrArg (fun x : Derived ↦ { x with stale := stale }) (h.derived_eq d f hf) :)
    rw [w.derived_write]
    exact hmarked _
  · rw [w.derived_write] at hs
    obtain ⟨⟨i, rfl⟩, hmem⟩ := h.observed d s hs
    refine ⟨⟨i, rfl⟩, ?_⟩
    rw [observersOf, hpart Signal.observers fun _ _ _ ↦ rfl]
    exact hmem
  · rw [w.derived_write] at hstale
    have hundisposed : (w.derived d).disposed = false := by rw [h.derived_eq d f hf]; rfl
    simp only [hundisposed, Bool.not_false, Bool.and_true, Bool.or_eq_false_iff, decide_eq_false_iff_not] at hstale
    have hother : .signal j ∉ (w.derived d).sources := fun hmem ↦ hstale.2 (h.observed d _ hmem).2
    have hbefore := h.fresh d f hf hstale.1 hother
    refine hbefore.congr (Follower.reading_of_state hstate) (fun i hi ↦ ?_) ?_ ?_
    · rw [w.valueOf_write, if_neg]
      rintro ⟨rfl, -⟩
      exact hother (hbefore.sources _ hi)
    · rw [w.derived_write]
    · rw [w.derived_write]

/-- A scope is given roles of its own. Whoever reads in a scope may lag behind until that is counted. -/
theorem widened {scope : String} {own : Override} (h : Followed fs (fun _ ↦ False) w) (hw : Widened 0 scope own w w') :
    Followed fs (fun d ↦ .signal (w'.state 0).scopes ∈ (w'.derived d).sources) w' := by
  have hderived (d : DerivedId) : w'.derived d = w.derived d := by
    rw [World.derived, hw.part_eq World.deriveds fun _ _ _ ↦ rfl, World.derived]
  have hscopes : (w'.state 0).scopes = (w.state 0).scopes := by rw [hw.state_eq]
  have hqueue : w'.queue = w.queue := hw.part_eq World.queue fun _ _ _ ↦ rfl
  refine
    { sound := hw.sound h.sound
      current_eq := (hw.part_eq (·.session.current) fun _ _ _ ↦ rfl).trans h.current_eq
      unwatched := fun slot j hj ↦ hw.part_slot h.sound (·.watchers.entries = []) hj (h.unwatched slot j) rfl
      effects_eq := (hw.part_eq World.effects fun _ _ _ ↦ rfl).trans h.effects_eq
      frames_eq := (hw.part_eq World.frames fun _ _ _ ↦ rfl).trans h.frames_eq
      noViews := (hw.part_eq World.views fun _ _ _ ↦ rfl).trans h.noViews
      size_eq := (hw.part_eq (·.deriveds.size) fun _ _ _ ↦ rfl).trans h.size_eq
      pinned := fun d hd ↦ (hw.part_eq World.pins fun _ _ _ ↦ rfl).symm ▸ h.pinned d hd
      queued := hqueue.symm ▸ h.queued
      ordered := hqueue.symm ▸ h.ordered
      derived_eq := fun d f hf ↦ by
        rw [hderived]
        exact h.derived_eq d f hf
      observed := fun d s hs ↦ ?_
      fresh := fun d f hf hstale hnot ↦ ?_ }
  · obtain ⟨⟨j, rfl⟩, hmem⟩ := h.observed d s (hderived d ▸ hs)
    have hlt : j < w.signals.size := Nat.lt_of_not_le fun hle ↦ by
      rw [observersOf, w.signal_of_size_le hle] at hmem
      exact absurd hmem List.not_mem_nil
    refine ⟨⟨j, rfl⟩, ?_⟩
    rw [observersOf, hw.signal_eq j hlt]
    exact hmem
  · rw [hderived] at hstale hnot
    have hbefore := h.fresh d f hf hstale not_false
    -- What is read for all does not depend on the scopes; what is read in a scope depends on their number.
    have hglobal : f.scope = none := by
      cases hscope : f.scope with
      | none => rfl
      | some scope =>
        refine absurd (hbefore.sources (w.state 0).scopes ?_) (hscopes ▸ hnot)
        rw [Follower.reading, hscope]
        exact (w.state 0).scopes_mem_topics f.role scope w
    have hreading : f.reading w' = f.reading w := by
      rw [Follower.reading, Follower.reading, hglobal, hw.state_eq]
      rfl
    refine hbefore.congr hreading (fun j hj ↦ ?_) ?_ ?_
    · obtain ⟨slot, hslot⟩ := (w.state 0).slot_of_mem_topics f.scope f.role hj
      exact congrArg Signal.value (hw.signal_eq j (h.sound.lt_size slot j hslot))
    · rw [hderived]
    · rw [hderived]

end Followed

end Focus

end LiveGraph
