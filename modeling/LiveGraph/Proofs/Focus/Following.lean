import LiveGraph.Proofs.Client.Run
import LiveGraph.Proofs.Focus.Followers

/-!
# Followers keep abreast

Code focuses, clears and reads, in batches or outside of them, while derived values follow the focus. Between its
steps each follower is marked, or holds what its role holds by then and observes all that this is read from. A write
to a signal of the focus marks those that observe it, and a scope that is used for the first time marks those that
read in a scope. What is marked is computed anew when it is read, and at the latest when a batch ends. So outside of
batches, and within, what is read of a follower is what its role holds.
-/

namespace LiveGraph

/-- A counter that is raised holds another value. -/
theorem Value.ne_advanced (v : Value) : v ≠ .int (v.asInt?.getD 0 + 1) := by
  intro h
  cases v <;> simp [Value.asInt?] at h

namespace Focus

open World Act

variable {fs : List Follower} {w w' w'' : World} {d : DerivedId} {f : Follower}

/-- Derived values that read a role are computed by their function. -/
def Runs [Dispatch] : Prop :=
  ∀ (w : World) (d : DerivedId) (f : Follower), (w.derived d).compute = .formula f.name (.focus f.role f.scope) →
    w.session.current = 0 → Dispatch.compute d w =
      .ok (f.present w) (((f.reading w).topics w).foldl observe (w.note (.computed f.name)))

theorem runs_dispatch (n : Nat) : @Runs (dispatch (n + 1)) := by
  intro w d f hcompute hcurrent
  have hsame : read 0 f.scope f.role (w.note (.computed f.name)) = f.reading w w := by
    rw [read_eq_reading]
    have hreading : f.reading (w.note (.computed f.name)) = f.reading w := rfl
    exact Follower.reading_congr hreading fun _ _ ↦ rfl
  have hread : (Formula.focus f.role f.scope).read (w.note (.computed f.name)) =
      (f.present w, (f.reading w).topics w) := by
    have hcurrent' : (w.note (.computed f.name)).session.current = 0 := hcurrent
    refine Prod.ext ?_ ?_
    · change Datum.ofUri? ((read (w.note (.computed f.name)).session.current f.scope f.role).value _) = _
      rw [hcurrent', Reads.value, hsame]
      rfl
    · change (read (w.note (.computed f.name)).session.current f.scope f.role).topics _ ++ [] = _
      rw [hcurrent', Reads.topics, hsame, List.append_nil]
      rfl
  change (do let w ← get; @Compute.run (dispatch n) (w.derived d).compute : Act Datum) w = _
  simp only [bind_run, get_run, hcompute, Compute.run, modify_run, Formula.eval, Reads.run, set_run, pure_run, hread]

/-- Two worlds that differ in derived values, in who observes signals, and in what waits. What was not marked is not. -/
structure Aside (w w' : World) : Prop where
  states_eq : w'.states = w.states
  depth_eq : w'.depth = w.depth
  flushing_eq : w'.flushing = w.flushing
  valueOf_eq : ∀ j, w'.valueOf j = w.valueOf j
  fresh : ∀ d, (w.derived d).stale = false → (w'.derived d).stale = false

namespace Aside

theorem refl (w : World) : Aside w w :=
  ⟨rfl, rfl, rfl, fun _ ↦ rfl, fun _ h ↦ h⟩

theorem trans (h : Aside w w') (h' : Aside w' w'') : Aside w w'' :=
  ⟨h'.states_eq.trans h.states_eq, h'.depth_eq.trans h.depth_eq, h'.flushing_eq.trans h.flushing_eq,
    fun j ↦ (h'.valueOf_eq j).trans (h.valueOf_eq j), fun d hd ↦ h'.fresh d (h.fresh d hd)⟩

theorem state_eq (h : Aside w w') (id : StateId) : w'.state id = w.state id := by
  rw [World.state, h.states_eq, World.state]

theorem reading_eq (h : Aside w w') (f : Follower) : f.reading w' w' = f.reading w w :=
  Follower.reading_congr (Follower.reading_of_state (h.state_eq 0)) fun j _ ↦ h.valueOf_eq j

theorem present_eq (h : Aside w w') (f : Follower) : f.present w' = f.present w :=
  congrArg (fun r : Option Uri × List Topic ↦ Datum.ofUri? r.1) (h.reading_eq f)

end Aside

/-- One of them was computed anew. -/
theorem Followed.reworked (h : Followed fs (fun _ ↦ False) w) (hf : fs[d]? = some f) {ss : List Source}
    (hworked : (w.note (.computed f.name)).Reworked w' d (f.derived (some (f.present w)) false ss) ss)
    (hss : ∀ s, s ∈ ss ↔ ∃ j, s = .signal j ∧ Topic.signal j ∈ (f.reading w).topics w) :
    Followed fs (fun _ ↦ False) w' ∧ Aside w w' ∧ w'.queue = w.queue ∧ w'.pins = w.pins ∧
      (w'.derived d).stale = false := by
  have hself := hworked.derived_self
  have hother (j : DerivedId) (hj : j ≠ d) : w'.derived j = w.derived j := hworked.derived_other j hj
  have hsignal (j : SignalId) : { w'.signal j with observers := [] } = { w.signal j with observers := [] } :=
    hworked.signal_eq j
  have hsize : w'.deriveds.size = w.deriveds.size := hworked.deriveds_size
  have hsignals : w'.signals.size = w.signals.size := hworked.signals_size
  obtain ⟨signals, deriveds, hw'⟩ := hworked.others
  have haside : Aside w w' := by
    refine ⟨by rw [hw']; rfl, by rw [hw']; rfl, by rw [hw']; rfl, fun j ↦ (congrArg Signal.value (hsignal j) :),
      fun j hj ↦ ?_⟩
    by_cases hjd : j = d
    · subst hjd
      rw [hself]
      rfl
    · rw [hother j hjd]
      exact hj
  have hstate := haside.state_eq 0
  refine ⟨?_, haside, by rw [hw']; rfl, by rw [hw']; rfl, by rw [hself]; rfl⟩
  exact
    { sound := h.sound.congr haside.states_eq hsignals (fun j ↦ (congrArg Signal.disposed (hsignal j) :))
        fun j ↦ (congrArg Signal.equality (hsignal j) :)
      current_eq := by rw [hw']; exact h.current_eq
      unwatched := fun slot j hj ↦
        (congrArg (·.watchers.entries) (hsignal j)).trans (h.unwatched slot j (hstate ▸ hj))
      effects_eq := by rw [hw']; exact h.effects_eq
      frames_eq := by rw [hw']; exact h.frames_eq
      noViews := by rw [hw']; exact h.noViews
      size_eq := hsize.trans h.size_eq
      pinned := by rw [hw']; exact h.pinned
      queued := by rw [hw']; exact h.queued
      ordered := by rw [hw']; exact h.ordered
      derived_eq := fun j g hg ↦ by
        by_cases hjd : j = d
        · subst hjd
          obtain rfl := Option.some.inj (hf.symm.trans hg)
          rw [hself]
          rfl
        · rw [hother j hjd]
          exact h.derived_eq j g hg
      observed := fun j s hs ↦ by
        by_cases hjd : j = d
        · subst hjd
          rw [hself] at hs
          obtain ⟨i, rfl, -⟩ := (hss s).mp hs
          exact ⟨⟨i, rfl⟩, hworked.observed _ hs⟩
        · rw [hother j hjd] at hs
          obtain ⟨hsome, hmem⟩ := h.observed j s hs
          exact ⟨hsome, hworked.observed_other j hjd s hmem⟩
      fresh := fun j g hg hstale hnot ↦ by
        by_cases hjd : j = d
        · subst hjd
          obtain rfl := Option.some.inj (hf.symm.trans hg)
          refine ⟨?_, fun i hi ↦ ?_⟩
          · rw [hself, haside.present_eq]
            rfl
          · rw [hself]
            have htopics : (f.reading w').topics w' = (f.reading w).topics w := congrArg Prod.snd (haside.reading_eq f)
            exact (hss _).mpr ⟨i, rfl, htopics ▸ hi⟩
        · rw [hother j hjd] at hstale
          refine (h.fresh j g hg hstale hnot).congr (Follower.reading_of_state hstate)
            (fun i _ ↦ haside.valueOf_eq i) ?_ ?_
          · rw [hother j hjd]
          · rw [hother j hjd] }

/-- No flush is under way, and each follower is marked or as it should be. -/
structure Abreast (fs : List Follower) (w : World) : Prop extends Followed fs (fun _ ↦ False) w where
  flushing_eq : w.flushing = false

section Run

variable [Dispatch] (hruns : Runs) (hrounds : fs.length < Dispatch.rounds)
include hruns

/-- What is marked is computed anew. -/
theorem Followed.ends_recompute (h : Followed fs (fun _ ↦ False) w) (hd : d < fs.length) :
    (Derived.recompute d).Ends w fun _ w' ↦ Followed fs (fun _ ↦ False) w' ∧ Aside w w' ∧ w'.queue = w.queue ∧
      w'.pins = w.pins ∧ (w'.derived d).stale = false := by
  obtain ⟨f, hf⟩ : ∃ f, fs[d]? = some f := ⟨_, List.getElem?_eq_getElem hd⟩
  have hderived := h.derived_eq d f hf
  cases hstale : (w.derived d).stale with
  | false =>
    refine ⟨false, w, ?_, h, .refl w, rfl, rfl, hstale⟩
    simp only [Derived.recompute, bind_run, get_run, hstale, Bool.not_false, Bool.or_true, if_true, pure_run]
  | true =>
    have hbegun : f.reading (w.begun d) (w.begun d) = f.reading w w := Follower.reading_congr rfl fun _ _ ↦ rfl
    have hcompute : ((w.begun d).derived d).compute = (w.derived d).compute := by
      apply w.part_modifyDerived Derived.compute
      exact fun _ ↦ rfl
    have hrun := hruns (w.begun d) d f (hcompute.trans (by rw [hderived]; rfl)) h.current_eq
    rw [Follower.present, Reads.value, Reads.topics, hbegun] at hrun
    refine (ends_recompute_of_alone (h.size_eq.symm ▸ hd) ?_ hstale ?_ ?_ ?_ (h.observed d) h.noViews
      (fun j hj ↦ h.pinned j (h.size_eq ▸ hj)) (fun t ht ↦ ?_) hrun).mono fun _ w' hdone ↦ ?_
    · rw [hderived]
      rfl
    · rw [hderived]
      rfl
    · rw [hderived]
      rfl
    · rw [hderived]
      rfl
    · obtain ⟨j, rfl⟩ := ((w.state 0).ofSignals_reading f.scope f.role).signal w t ht
      obtain ⟨slot, hslot⟩ := (w.state 0).slot_of_mem_topics f.scope f.role ht
      exact ⟨j, rfl, h.sound.lt_size slot j hslot, h.sound.undisposed slot j hslot⟩
    · obtain ⟨ss, hss, hworked⟩ := hdone
      refine h.reworked hf ?_ hss
      rw [hderived] at hworked
      exact hworked

/-- The queue is worked off. -/
theorem Followed.ends_drain (h : Followed fs (fun _ ↦ False) w) {n : Nat} (hn : w.queue.length < n) :
    (drain n).Ends w fun _ w' ↦ Followed fs (fun _ ↦ False) w' ∧ Aside w w' := by
  induction n generalizing w with
  | zero => exact absurd hn (Nat.not_lt_zero _)
  | succ n ih =>
    cases hqueue : w.queue with
    | nil =>
      have hnone : w.popQueued? = none := by rw [popQueued?, hqueue]; rfl
      refine ⟨(), { w with queue := [] }, ?_, ?_, ⟨rfl, rfl, rfl, fun _ ↦ rfl, fun _ hd ↦ hd⟩⟩
      · simp only [drain, bind_run, get_run, hnone, h.effects_eq, modify_run]
      · exact h.context w.depth w.flushing (List.nil_sublist _) h.pinned
    | cons entry rest =>
      obtain ⟨height, d⟩ := entry
      have hd : d < fs.length := (h.queued (height, d) (hqueue ▸ List.mem_cons_self)).2
      have hundropped : (w.derived d).dropped = false := by
        rw [h.derived_eq d _ (List.getElem?_eq_getElem hd)]
        rfl
      have hpop : w.popQueued? = some (d, { w with queue := rest }) := by
        simp only [popQueued?, hqueue, List.dropWhile_cons, hundropped, Bool.false_eq_true, if_false]
      have hpinned : Followed fs (fun _ ↦ False) (pin { w with queue := rest } (.derived d)) :=
        h.context w.depth w.flushing (hqueue ▸ List.sublist_cons_self _ rest) fun j hj ↦
          List.mem_cons_of_mem _ (h.pinned j hj)
      obtain ⟨b, w₁, hrun, h₁, haside₁, hqueue₁, hpins₁, -⟩ := hpinned.ends_recompute hruns hd
      have hpins : w₁.pins.erase (.derived d) = w.pins := by
        rw [hpins₁]
        exact List.erase_cons_head ..
      have h₂ : Followed fs (fun _ ↦ False) { w₁ with pins := w.pins } :=
        h₁.context w₁.depth w₁.flushing (List.Sublist.refl _) h.pinned
      have hunpin : w₁.unpin (.derived d) = { w₁ with pins := w.pins } := by
        rw [unpin, hpins]
        exact h₂.reap_eq
      have hstep : drain (n + 1) w = drain n { w₁ with pins := w.pins } := by
        simp only [drain, bind_run, get_run, hpop, set_run, Act.holding, modify_run, followedBy, hrun, pure_run, hunpin]
      have hless : ({ w₁ with pins := w.pins } : World).queue.length < n := by
        change w₁.queue.length < n
        rw [hqueue₁]
        rw [hqueue] at hn
        exact Nat.lt_of_succ_lt_succ hn
      rw [Ends, hstep]
      refine (ih h₂ hless).mono fun _ w₂ hdone ↦ ⟨hdone.1, Aside.trans ?_ hdone.2⟩
      exact ⟨haside₁.states_eq, haside₁.depth_eq, haside₁.flushing_eq, haside₁.valueOf_eq, haside₁.fresh⟩

include hrounds

/-- A flush brings all that is marked up to date. -/
theorem Abreast.ends_flushOutside (h : Abreast fs w) :
    flushOutside.Ends w fun _ w' ↦ Abreast fs w' ∧ Aside w w' := by
  by_cases hdepth : w.depth = 0
  · have hstart : Followed fs (fun _ ↦ False) { w with flushing := true } :=
      h.context w.depth true (List.Sublist.refl _) h.pinned
    obtain ⟨_, w₁, hrun, h₁, haside⟩ := hstart.ends_drain hruns (n := Dispatch.rounds)
      (Nat.lt_of_le_of_lt h.length_queue_le hrounds)
    have hflush : flush w = .ok () { w₁ with flushing := false } := by
      simp only [flush, bind_run, get_run, h.flushing_eq, Bool.not_false, if_true, modify_run, followedBy, hrun]
    refine ⟨(), { w₁ with flushing := false }, ?_,
      ⟨h₁.context w₁.depth false (List.Sublist.refl _) h₁.pinned, rfl⟩,
      ⟨haside.states_eq, haside.depth_eq, h.flushing_eq.symm, haside.valueOf_eq, haside.fresh⟩⟩
    simp only [flushOutside, bind_run, get_run, hdepth, if_true, hflush]
  · refine ⟨(), w, ?_, h, .refl w⟩
    simp only [flushOutside, bind_run, get_run, hdepth, if_false, pure_run]

theorem Abreast.ends_refresh (h : Abreast fs w) (hd : d < fs.length) :
    (Derived.refresh d).Ends w fun _ w' ↦ Abreast fs w' ∧ Aside w w' ∧ (w'.derived d).stale = false := by
  refine (h.ends_recompute hruns hd).bind fun changed w₁ ⟨h₁, haside₁, _, _, hfresh⟩ ↦ ?_
  have habreast : Abreast fs w₁ := ⟨h₁, haside₁.flushing_eq.trans h.flushing_eq⟩
  cases changed with
  | false => exact ends_pure ⟨habreast, haside₁, hfresh⟩
  | true =>
    refine (habreast.ends_flushOutside hruns hrounds).mono fun _ w₂ ⟨h₂, haside₂⟩ ↦ ?_
    exact ⟨h₂, haside₁.trans haside₂, haside₂.fresh d hfresh⟩

/-- What is read of a follower is what its role holds now. -/
theorem Abreast.ends_read (h : Abreast fs w) (hf : fs[d]? = some f) :
    (Derived.read d).Ends w fun answer w' ↦ answer = .ok (f.present w) ∧ Abreast fs w' ∧ Aside w w' := by
  have hidle : (w.derived d).evaluating = false ∧ (w.derived d).disposed = false := by
    rw [h.derived_eq d f hf]
    exact ⟨rfl, rfl⟩
  have htrack : w.track (.derived d) = w := by rw [track, h.frames_eq]
  have hlast {w' : World} (h' : Abreast fs w') (haside : Aside w w') (hstale : (w'.derived d).stale = false) :
      (do
        let d := (← get).derived d
        if d.cyclic then return .error .cycle
        return d.value.elim (.error .cycle) .ok : Act (Except Fault Datum)).Ends w' fun answer w' ↦
      answer = .ok (f.present w) ∧ Abreast fs w' ∧ Aside w w' := by
    have hacyclic : (w'.derived d).cyclic = false := by rw [h'.derived_eq d f hf]; rfl
    have hvalue := (h'.fresh d f hf hstale not_false).value_eq
    refine ⟨.ok (f.present w), w', ?_, rfl, h', haside⟩
    simp only [bind_run, get_run, hacyclic, hvalue, Bool.false_eq_true, if_false, pure_run, Option.elim_some,
      haside.present_eq]
  refine ends_get ?_
  simp only [hidle.1, hidle.2, Bool.false_eq_true, if_false]
  refine Ends.bind (P := fun _ w' ↦ w' = w) (ends_modify htrack) fun _ w' hw' ↦ ?_
  subst hw'
  cases hstale : (w'.derived d).stale with
  | false => exact hlast h (.refl w') hstale
  | true =>
    refine (h.ends_refresh hruns hrounds (List.getElem?_eq_some_iff.mp hf).1).bind fun _ w₁ hdone ↦ ?_
    obtain ⟨h₁, haside, hfresh⟩ := hdone
    exact hlast h₁ haside hfresh

/-- A write brings all that observes the signal up to date. Where it changes nothing, nothing may lag behind. -/
theorem Followed.ends_set {j : SignalId} (h : Followed fs (fun d ↦ .signal j ∈ (w.derived d).sources) w)
    (hflushing : w.flushing = false) (hj : IsSlot w 0 j) {v : Value} (hsame : w.valueOf j = v → Abreast fs w) :
    (Signal.set j v).Ends w fun _ w' ↦ Kept 0 (Abreast fs) w w' := by
  obtain ⟨slot, hslot⟩ := hj
  refine ends_get ?_
  simp only [h.sound.undisposed slot j hslot, h.sound.equality_eq slot j hslot, Equality.holds, Bool.false_eq_true,
    if_false, decide_eq_true_eq, Datum.value.injEq]
  by_cases hvalue : (w.signal j).value = v
  · rw [if_pos hvalue]
    exact ends_pure (.refl (hsame hvalue))
  · rw [if_neg hvalue]
    have hbody : (modify (·.write j v) : Act PUnit).Ends (w.setDepth (w.depth + 1)) fun _ w' ↦
        w' = (w.write j v).setDepth (w.depth + 1) := ends_modify (w.write_setDepth _ j v)
    have hwritten := h.write ⟨slot, hslot⟩ v
    have hidle := (flushing_write w j v).trans hflushing
    have hstates := states_write w j v
    generalize w.write j v = w₁ at hbody hwritten hidle hstates
    have habreast : Abreast fs (w₁.setDepth w.depth) := ⟨hwritten.setDepth w.depth, hidle⟩
    have hstate : (w₁.setDepth w.depth).state 0 = w.state 0 := congrArg (·.getD 0 default) hstates
    refine Ends.bind (P := fun _ w' ↦ Kept 0 (Abreast fs) w w') (hbody.batch fun _ w₂ hw₂ ↦ ?_)
      fun _ _ h₂ ↦ ends_pure h₂
    have hback : w₂.setDepth (w₂.depth - 1) = w₁.setDepth w.depth := by
      rw [hw₂, depth_setDepth, Nat.add_sub_cancel, setDepth_setDepth]
    rw [hback]
    refine (habreast.ends_flushOutside hruns hrounds).mono fun _ w₃ hdone ↦ ?_
    obtain ⟨h₃, haside⟩ := hdone
    exact ⟨h₃, (haside.state_eq 0).trans hstate, haside.depth_eq⟩

/-- All steps of a call keep up with the followers. -/
theorem keeps_abreast : Keeps 0 0 (Abreast fs) where
  le_depth _ := Nat.zero_le _
  set _ h hj := (h.mono fun _ ↦ False.elim).ends_set hruns hrounds h.flushing_eq hj fun _ ↦ h
  override {w} scope h := ends_override_of h.sound.state_lt h scope <| by
    have hwidened := widened_scopeRoles h.sound.state_lt scope
    have hflushing := (hwidened.part_eq World.flushing fun _ _ _ ↦ rfl).trans h.flushing_eq
    have hslot : IsSlot (w.scopeRoles 0 scope).2 0 ((w.scopeRoles 0 scope).2.state 0).scopes := ⟨.scopes, rfl⟩
    exact ends_get (((h.widened hwidened).ends_set hruns hrounds hflushing hslot fun hvalue ↦
      absurd hvalue (Value.ne_advanced _)).bind fun _ _ h₁ ↦ ends_pure h₁)
  enter h := ⟨h.setDepth _, h.flushing_eq⟩
  leave {w} h _ := by
    have hleft : Abreast fs (w.setDepth (w.depth - 1)) := ⟨h.setDepth _, h.flushing_eq⟩
    exact (hleft.ends_flushOutside hruns hrounds).mono fun _ _ ⟨h₁, haside⟩ ↦ ⟨h₁, haside.state_eq 0, haside.depth_eq⟩

end Run

end Focus

/-- What code does with a focus, and with derived values that follow it. -/
inductive Pursuit
  | call (c : Focus.Call)
  | read (d : DerivedId)

/-- Makes a call on the first focus, or reads a derived value. Code can only mean what there is. -/
def Pursuit.perform [Dispatch] : Pursuit → Act Unit
  | call c => do let _ ← c.perform 0
  | read d => do
    if d < (← get).deriveds.size then
      let _ ← Derived.read d

/-- The derived value that was never read. -/
def Follower.unread (f : Follower) : Derived :=
  f.derived none true []

/-- Derived values that read roles of the first focus, held by who uses them. -/
def World.withFollowers (w : World) (fs : List Follower) : World :=
  { fs.foldl (fun w f ↦ (w.addDerived (.formula f.name (.focus f.role f.scope)) .same).2) w with
    pins := (List.range fs.length).map .derived }

namespace Focus

open World Act

variable {fs : List Follower} {w : World}

/-- A new debug state is all that is new. -/
theorem withState_eq (w : World) (schema : Schema) (stores : Array Store) :
    ∃ signals states, withState w schema stores =
      { w with signals := signals, states := states, stores := stores } := by
  obtain ⟨signals, hroles⟩ := ({ w with stores := w.stores.push .empty } : World).addRoles_eq (.state w.states.size)
    schema.roles
  refine ⟨(withState w schema stores).signals, (withState w schema stores).states, ?_⟩
  have hrest : withState w schema stores =
      { (({ w with stores := w.stores.push .empty } : World).addRoles (.state w.states.size) schema.roles).2 with
        signals := (withState w schema stores).signals
        states := (withState w schema stores).states
        stores := stores } := rfl
  rw [hroles] at hrest
  exact hrest

theorem foldl_addDerived_eq (w : World) (fs : List Follower) :
    fs.foldl (fun w f ↦ (w.addDerived (.formula f.name (.focus f.role f.scope)) .same).2) w =
      { w with deriveds := w.deriveds ++ (fs.map Follower.unread).toArray } := by
  induction fs generalizing w with
  | nil => simp
  | cons f rest ih =>
    have hadded : (w.addDerived (.formula f.name (.focus f.role f.scope)) .same).2 =
        { w with deriveds := w.deriveds.push f.unread } := rfl
    rw [List.foldl_cons, ih, hadded, List.map_cons, List.push_append_toArray]

/-- At first the followers are marked, for none of them was computed yet. -/
theorem abreast_withFollowers (schema : Schema) (stores : Array Store) (fs : List Follower) :
    Abreast fs ((withState .empty schema stores).withFollowers fs) := by
  have hready : Ready (withState .empty schema stores) 0 :=
    ready_withState .empty (.inr fun _ _ ↦ ⟨rfl, rfl⟩) schema stores
  obtain ⟨signals, states, hw⟩ := withState_eq .empty schema stores
  rw [hw] at hready ⊢
  have hunheard := (hready.calm.resolve_left fun hbusy ↦ hbusy.elim (Nat.lt_irrefl 0) Bool.noConfusion).2
  have hadded : ({ World.empty with signals := signals, states := states, stores := stores }).withFollowers fs =
      { World.empty with
        signals := signals
        states := states
        stores := stores
        deriveds := (fs.map Follower.unread).toArray
        pins := (List.range fs.length).map .derived } := by
    rw [World.withFollowers, foldl_addDerived_eq]
    simp [World.empty]
  rw [hadded]
  have hderived {d : DerivedId} {f : Follower} (hf : fs[d]? = some f) :
      (fs.map Follower.unread).toArray.getD d default = f.unread := by
    simp [Array.getD_eq_getD_getElem?, hf]
  have hsources (d : DerivedId) : ((fs.map Follower.unread).toArray.getD d default).sources = [] := by
    cases hf : fs[d]? with
    | some f => exact congrArg Derived.sources (hderived hf)
    | none =>
      have hdefault : (fs.map Follower.unread).toArray.getD d default = default := by
        simp [Array.getD_eq_getD_getElem?, hf]
      rw [hdefault]
      rfl
  exact
    { sound := hready.toSound.congr rfl rfl (fun _ ↦ rfl) fun _ ↦ rfl
      current_eq := rfl
      unwatched := fun slot j hj ↦ (hunheard slot j hj).1
      effects_eq := rfl
      frames_eq := rfl
      noViews := rfl
      size_eq := by simp
      pinned := fun d hd ↦ List.mem_map_of_mem (List.mem_range.mpr hd)
      queued := fun e he ↦ absurd he List.not_mem_nil
      ordered := .nil
      derived_eq := fun d f hf ↦ by
        rw [World.derived, hderived hf]
        rfl
      observed := fun d s hs ↦ absurd (hsources d ▸ hs) List.not_mem_nil
      fresh := fun d f hf hstale _ ↦ by
        rw [World.derived, hderived hf] at hstale
        exact Bool.noConfusion hstale
      flushing_eq := rfl }

section Program

variable [Dispatch] (hruns : Runs) (hrounds : fs.length < Dispatch.rounds)
include hruns hrounds

theorem Abreast.ends_perform (h : Abreast fs w) (op : Pursuit) :
    op.perform.Ends w fun _ w' ↦ Abreast fs w' ∧ w'.depth = w.depth := by
  cases op with
  | call c => exact ((keeps_abreast hruns hrounds).ends_perform h c).bind fun _ _ h₁ ↦ ends_pure h₁
  | read d =>
    refine ends_get ?_
    split
    · rename_i hd
      have hlt : d < fs.length := h.size_eq ▸ hd
      exact (h.ends_read hruns hrounds (List.getElem?_eq_getElem hlt)).bind fun _ _ ⟨_, h₁, haside⟩ ↦
        ends_pure ⟨h₁, haside.depth_eq⟩
    · exact ends_pure ⟨h, rfl⟩

/-- Whatever code does, in batches or outside of them, the followers keep abreast. -/
theorem Abreast.ends_run (h : Abreast fs w) (p : Program Pursuit) :
    (Client.run Pursuit.perform p.code).Ends w fun _ w' ↦ Abreast fs w' ∧ w'.depth = w.depth := by
  induction p generalizing w with
  | done => exact ends_pure ⟨h, rfl⟩
  | act op next ih =>
    refine (h.ends_perform hruns hrounds op).bind fun _ w₁ ⟨h₁, hdepth₁⟩ ↦ ?_
    exact (ih h₁).mono fun _ w₂ ⟨h₂, hdepth₂⟩ ↦ ⟨h₂, hdepth₂.trans hdepth₁⟩
  | batch body next ihbody ihnext =>
    have hkeeps := keeps_abreast hruns hrounds
    have hbatch : (batch (Client.run Pursuit.perform body.code)).Ends w fun _ w' ↦
        Abreast fs w' ∧ w'.depth = w.depth := by
      refine (ihbody (hkeeps.enter h)).batch fun _ w₁ ⟨h₁, hdepth₁⟩ ↦ ?_
      have hopen : w₁.depth = w.depth + 1 := hdepth₁
      refine (hkeeps.leave h₁ (hopen ▸ Nat.succ_pos _)).mono fun _ w₂ h₂ ↦ ⟨h₂.holds, h₂.depth_eq.trans ?_⟩
      rw [depth_setDepth, hopen, Nat.add_sub_cancel]
    refine hbatch.bind fun _ w₁ ⟨h₁, hdepth₁⟩ ↦ ?_
    exact (ihnext h₁).mono fun _ w₂ ⟨h₂, hdepth₂⟩ ↦ ⟨h₂, hdepth₂.trans hdepth₁⟩

end Program

/-- Over any schema and stores, whatever code does to a focus that is new at first: no batch is open in the end, and
each derived value over the focus gives what its role holds for its scope by then. -/
theorem read_followers (schema : Schema) (stores : Array Store) (fs : List Follower) (p : Program Pursuit) (n : Nat) :
    letI := dispatch (fs.length + n + 2)
    (Client.run Pursuit.perform p.code).Ends ((withState .empty schema stores).withFollowers fs) fun _ w ↦
      w.depth = 0 ∧ ∀ d : Fin fs.length, (Derived.read d.val).Ends w fun answer w' ↦
        answer = .ok (.ofUri? ((read 0 (fs.get d).scope (fs.get d).role).value w)) ∧
          (read 0 (fs.get d).scope (fs.get d).role).value w' = (read 0 (fs.get d).scope (fs.get d).role).value w := by
  let _ : Dispatch := dispatch (fs.length + n + 2)
  have hruns : Runs := runs_dispatch (fs.length + n + 1)
  have hrounds : fs.length < Dispatch.rounds := by
    change fs.length < fs.length + n + 1
    omega
  have hdepth₀ : ((withState .empty schema stores).withFollowers fs).depth = 0 := by
    obtain ⟨signals, states, hw⟩ := withState_eq .empty schema stores
    rw [hw, World.withFollowers, foldl_addDerived_eq]
    rfl
  refine ((abreast_withFollowers schema stores fs).ends_run hruns hrounds p).mono fun _ w ⟨h, hdepth⟩ ↦
    ⟨hdepth.trans hdepth₀, fun d ↦ ?_⟩
  have hf : fs[d.val]? = some (fs.get d) := List.getElem?_eq_getElem d.isLt
  have hread (w : World) : read 0 (fs.get d).scope (fs.get d).role w = (fs.get d).reading w w :=
    read_eq_reading 0 _ _ w
  refine (h.ends_read hruns hrounds hf).mono fun answer w' ⟨hanswer, _, haside⟩ ↦ ⟨?_, ?_⟩
  · rw [hanswer, Follower.present, Reads.value, Reads.value, hread]
  · rw [Reads.value, Reads.value, hread, hread, haside.reading_eq]

end Focus

end LiveGraph
