import LiveGraph.Proofs.Network.Evaluation

/-!
# Recomputation

A derived value whose turn it is gets computed: it begins, evaluates its function, and ends with the sources
it has read. Then its value is settled. The network stays sound, by induction on what is below, and at great
depths nothing but a value that is not accepted keeps it from that.
-/

namespace LiveGraph

namespace World

variable {w w' w₃ : World} {d : DerivedId} {ss : List Source} {value : Option Datum}

/-- What is left alone by an evaluation as a whole, from what is left alone in its course. -/
theorem Beside.finished {n : Note} (h : ((w.begun d).note n).Beside w₃)
    (hidle : (w.derived d).evaluating = false) (hcloses : w₃.Closes w' d ss value)
    (hvalue : w.Evaluated d → value.isSome) : w.Beside w' := by
  have hother (j : DerivedId) (hj : j ≠ d) : ((w.begun d).note n).derived j = w.derived j :=
    w.derived_modifyDerived_of_ne hj _
  have hne (j : DerivedId) (hj : (w.derived j).evaluating = true) : j ≠ d := by
    rintro rfl
    exact Bool.noConfusion (hj.symm.trans hidle)
  obtain ⟨_, _, hw'⟩ := hcloses.others
  constructor
  · exact fun id ↦ (hcloses.signal_eq id).trans (h.signal_eq id)
  · intro j
    rw [hcloses.part_eq Derived.watchers (fun _ _ ↦ rfl) j, h.watchers_eq j]
    apply w.part_modifyDerived Derived.watchers
    exact fun _ ↦ rfl
  · intro j
    by_cases hj : j = d
    · subst hj
      exact (congrArg Derived.evaluating hcloses.derived_self :).trans hidle.symm
    · rw [(congrArg Derived.evaluating (hcloses.derived_other j hj) :), h.evaluating_eq j, hother j hj]
  · intro j hj
    have hjd := hne j hj
    rw [(congrArg Derived.value (hcloses.derived_other j hjd) :), h.value_eq j (hother j hjd ▸ hj),
      hother j hjd]
  · intro j hj
    by_cases hjd : j = d
    · subst hjd
      rw [Evaluated, hcloses.value_self]
      exact hvalue hj
    · have hj₃ : w₃.Evaluated j := h.evaluated j (by rw [Evaluated, hother j hjd]; exact hj)
      rw [Evaluated, (congrArg Derived.value (hcloses.derived_other j hjd) :)]
      exact hj₃
  · rw [hw']
    exact h.depth_eq
  · rw [hw']
    exact h.flushing_eq
  · rw [hw']
    exact h.pins_eq
  · rw [hw']
    exact h.session_eq

/-- Keeping a value leaves alone what evaluations leave alone. -/
theorem Beside.keep (hd : d < w.deriveds.size) (hidle : (w.derived d).evaluating = false) (v : Datum) :
    w.Beside (w.keep d v) := by
  obtain ⟨_, _, _, hkeep⟩ := w.keep_eq d v
  constructor
  · intro id
    rw [hkeep]
    rfl
  · intro j
    rw [w.derived_keep v hd]
  · intro j
    rw [w.derived_keep v hd]
  · intro j hj
    rw [w.derived_keep v hd]
    refine if_neg ?_
    rintro rfl
    exact Bool.noConfusion (hj.symm.trans hidle)
  · intro j hj
    rw [Evaluated, w.derived_keep v hd]
    dsimp only
    split
    · rfl
    · exact hj
  · rw [hkeep]
  · rw [hkeep]
  · rw [hkeep]
  · rw [hkeep]

/-- What is there stays so where a derived value is computed for the first time. -/
theorem Closes.content_eq (h : w.Closes w' d ss value) (hnone : (w.derived d).value = none) {s : Source}
    {v : Datum} (hs : w.content s = some v) : w'.content s = some v := by
  cases s with
  | signal id =>
    refine Eq.trans ?_ hs
    have hvalue : w'.valueOf id = w.valueOf id := (congrArg Signal.value (h.signal_eq id) :)
    exact congrArg (fun v ↦ some (Datum.value v)) hvalue
  | derived j =>
    have hj : j ≠ d := by
      rintro rfl
      exact Option.some_ne_none v (hs.symm.trans hnone)
    exact (congrArg Derived.value (h.derived_other j hj) :).trans hs

end World

namespace Network

variable {net : Network} {react : String → Event → Client Use} {w w' w₃ : World} {d : DerivedId}
variable {ss : List Source} {value : Option Datum}

/-- What follows an evaluation. A first value is kept, another one that differs is kept and passed on. -/
def settle (w : World) (d : DerivedId) (v : Datum) : Bool × World :=
  match (w.derived d).value with
  | none => (false, w.modifyDerived d fun x ↦ { x with value := some v })
  | some previous =>
    if (w.derived d).equality.holds previous v then (false, w) else (true, w.keep d v)

theorem recompute_run [Dispatch] {w w₃ : World} {v : Datum} {f : Frame} {fs : List Frame}
    (hundisposed : (w.derived d).disposed = false) (hstale : (w.derived d).stale = true)
    (hrun : Dispatch.compute d (w.begun d) = .ok v w₃) (hframes : w₃.frames = f :: fs)
    (hacyclic : f.cyclic = false)
    (hreap : (w₃.finished d f.sources).reap = w₃.finished d f.sources) :
    Derived.recompute d w =
      .ok (settle (w₃.finished d f.sources) d v).1 (settle (w₃.finished d f.sources) d v).2 := by
  have hevaluating : Act.evaluating d (Dispatch.compute d)
      (w.modifyDerived d fun x ↦ { x with stale := false, evaluating := true }) = .ok (v, f) w₃.popFrame := by
    have hcompute : (Dispatch.compute d).orElse (fun w ↦ w.popFrame.reap) (w.begun d) = .ok v w₃ := by
      simp only [Act.orElse, hrun]
    simp only [Act.evaluating, Act.bind_run, Act.modify_run, World.begun] at hcompute ⊢
    simp only [hcompute, Act.get_run, hframes, List.headD_cons, Act.pure_run]
  obtain ⟨w₄, hw₄⟩ : ∃ w₄, w₄ = w₃.finished d f.sources := ⟨_, rfl⟩
  have hfinished : ((w₃.popFrame.modifyDerived d fun x ↦ { x with evaluating := false }).retrack d
      f.sources).modifyDerived d (fun x ↦ { x with cyclic := false }) = w₄ := by
    rw [hw₄, World.finished]
  rw [← hw₄] at hreap ⊢
  simp only [Derived.recompute, Act.bind_run, Act.get_run, hundisposed, hstale, Bool.not_true, Bool.or_false,
    Bool.false_eq_true, if_false, Act.modify_run, hevaluating, hfinished, hreap, hacyclic, settle]
  cases (w₄.derived d).value with
  | none => rfl
  | some previous =>
    dsimp only
    split <;> rfl

theorem recompute_error [Dispatch] {w w'' : World}
    (hundisposed : (w.derived d).disposed = false) (hstale : (w.derived d).stale = true)
    (hrun : Dispatch.compute d (w.begun d) = .error .rounds w'') :
    ∃ w₃, Derived.recompute d w = .error .rounds w₃ := by
  have hcompute : (Dispatch.compute d).orElse (fun w ↦ w.popFrame.reap) (w.begun d) =
      .error .rounds w''.popFrame.reap := by
    simp only [Act.orElse, hrun]
  have hevaluating : Act.evaluating d (Dispatch.compute d)
      (w.modifyDerived d fun x ↦ { x with stale := false, evaluating := true }) =
        .error .rounds w''.popFrame.reap := by
    simp only [Act.evaluating, Act.bind_run, Act.modify_run, World.begun] at hcompute ⊢
    simp only [hcompute]
  refine ⟨w''.popFrame.reap, ?_⟩
  simp only [Derived.recompute, Act.bind_run, Act.get_run, hundisposed, hstale, Bool.not_true, Bool.or_false,
    Bool.false_eq_true, if_false, Act.modify_run, hevaluating]

theorem settle_none (h : (w.derived d).value = none) (v : Datum) :
    settle w d v = (false, w.modifyDerived d fun x ↦ { x with value := some v }) := by
  simp only [settle, h]

theorem settle_same {previous v : Datum} (h : (w.derived d).value = some previous)
    (hsame : (w.derived d).equality.holds previous v = true) : settle w d v = (false, w) := by
  simp only [settle, h, hsame, if_true]

theorem settle_changed {previous v : Datum} (h : (w.derived d).value = some previous)
    (hchanged : ¬(w.derived d).equality.holds previous v = true) : settle w d v = (true, w.keep d v) := by
  simp only [settle, h, hchanged, Bool.false_eq_true, if_false]

/-- A first evaluation is calm where what happens in its course is calm. -/
theorem Calm.finished (h : net.Calm ((w.begun d).note (.computed (net.name d))) w₃)
    (hcloses : w₃.Closes w' d ss value) (hnot : ¬w.Evaluated d)
    (hfresh : (w₃.derived d).stale = false) : net.Calm w w' := by
  have hother (j : DerivedId) (hj : j ≠ d) :
      ((w.begun d).note (.computed (net.name d))).derived j = w.derived j :=
    w.derived_modifyDerived_of_ne hj _
  have hsame (j : DerivedId) (hj : j ≠ d) : (w'.derived j).value = (w₃.derived j).value :=
    (congrArg Derived.value (hcloses.derived_other j hj) :)
  obtain ⟨_, _, hw'⟩ := hcloses.others
  constructor
  · rw [hw']
    exact h.queue_eq
  · rw [hw']
    exact h.effects_eq
  · intro j hj
    have hjd : j ≠ d := fun heq ↦ hnot (heq ▸ hj)
    rw [hsame j hjd, h.value_eq j (by rw [World.Evaluated, hother j hjd]; exact hj), hother j hjd]
  · intro j hj hstale
    have hstale₃ : (w'.derived j).stale = (w₃.derived j).stale :=
      hcloses.part_eq Derived.stale (fun _ _ ↦ rfl) j
    rw [hstale₃] at hstale
    have hjd : j ≠ d := by
      rintro rfl
      exact Bool.noConfusion (hstale.symm.trans hfresh)
    have hbefore := h.stale j (by rw [World.Evaluated, ← hsame j hjd]; exact hj) hstale
    rw [World.Evaluated, hother j hjd] at hbefore
    exact hbefore
  · obtain ⟨log, hlog, hcomputed⟩ := h.notes
    refine ⟨log ++ [.computed (net.name d)], ?_, fun n hn ↦ ?_⟩
    · rw [hw']
      exact hlog.trans (List.append_cons log _ _)
    · rcases List.mem_append.mp hn with hn | hn
      · obtain ⟨j, rfl, hj⟩ := hcomputed n hn
        refine ⟨j, rfl, fun hbefore ↦ hj ?_⟩
        rw [World.Evaluated, hother j fun heq ↦ hnot (heq ▸ hbefore)]
        exact hbefore
      · exact ⟨d, List.mem_singleton.mp hn, hnot⟩

/-- What is below another derived value is not touched as that begins. -/
theorem Ready.begun (h : net.Ready w d) (n : Note) : net.Ready ((w.begun d).note n) d := by
  intro e he e' he' hevaluated
  have hne : e' ≠ d := by
    rintro rfl
    exact below_irrefl (Relation.TransGen.tail' he' he)
  have hsame : ((w.begun d).note n).derived e' = w.derived e' := w.derived_modifyDerived_of_ne hne _
  rw [World.Evaluated, hsame] at hevaluated
  rw [hsame]
  exact h e he e' he' hevaluated

/-- Computing a derived value keeps the network sound, wherever it is its turn. -/
theorem computes (react : String → Event → Client Use) (d : DerivedId) : net.Computes react d := by
  induction d using net.acyclic.induction with | _ d ih
  intro w h hd hunder hstale hmode
  have hsize : d < w.deriveds.size := h.standing.deriveds_size.symm ▸ hd
  have hidle : (w.derived d).evaluating = false :=
    Bool.eq_false_iff.mpr fun hon ↦ below_irrefl (hunder d ((h.nested.evaluating_iff d).mp hon))
  obtain ⟨w₂, hw₂⟩ : ∃ w₂, w₂ = (w.begun d).note (.computed (net.name d)) := ⟨_, rfl⟩
  have hsound₂ : net.Sound none w₂ := by
    have hbegun := h.begun hd hunder
    rw [hw₂]
    exact hbegun.context _ _ _ hbegun.standing.held
  have hself₂ : w₂.derived d = { w.derived d with stale := false, evaluating := true } := by
    rw [hw₂]
    exact w.derived_modifyDerived_self hsize _
  have hframes₂ : w₂.frames = ⟨some d, [], false⟩ :: w.frames := by
    rw [hw₂]
    rfl
  have hready₂ (hready : net.Ready w d) : net.Ready w₂ d := hw₂ ▸ Ready.begun hready _
  have hbusy₂ (hbusy : w.Busy) : w₂.Busy := by
    rw [hw₂]
    exact hbusy
  obtain ⟨v, w₃, f, ss, hleads, hss, hsound₃, hrecorded, hsources, hbeside₃, hcalm₃⟩ :=
    run_leads ih hd w.frames (net.reading d) [] ⟨some d, [], false⟩ (fun _ hss ↦ hss) hsound₂
      ⟨hframes₂, rfl, fun _ ↦ Iff.rfl⟩ (hmode.imp hbusy₂ hready₂)
  have hmem (s : Source) : s ∈ f.sources ↔ s ∈ net.sources d :=
    (hrecorded.mem_iff s).trans (net.asks_iff d ss hss s)
  have hbelow (e : DerivedId) (he : net.Below e d) : w₃.Evaluated e :=
    hsources e ((net.asks_iff d ss hss _).mpr he)
  have hvalue₃ : (w₃.derived d).value = (w.derived d).value :=
    (hbeside₃.value_eq d (by rw [hself₂])).trans (by rw [hself₂])
  obtain ⟨w₄, hw₄⟩ : ∃ w₄, w₄ = w₃.finished d f.sources := ⟨_, rfl⟩
  have hcloses : w₃.Closes w₄ d f.sources (w₃.derived d).value := hw₄ ▸ hsound₃.closes hd hmem
  have hvalue₄ : (w₄.derived d).value = (w.derived d).value := hcloses.value_self.trans hvalue₃
  have hframes₄ : w₄.frames = w.frames := by
    obtain ⟨_, _, hothers⟩ := hcloses.others
    rw [hothers, hrecorded.frames_eq]
    rfl
  have hcompute : Leads (fun accept n ↦ (net.dispatch react accept n).compute d) (w.begun d) (.ok v w₃)
      (Good (net.Ready w₂ d) w₃) := by
    refine hleads.deeper (fun accept ↦ ⟨w.begun d, rfl⟩) fun accept n ↦ ?_
    rw [hw₂]
    rfl
  have hrecompute : Leads (fun accept n ↦ @Derived.recompute (net.dispatch react accept n) d) w
      (.ok (settle w₄ d v).1 (settle w₄ d v).2) (Good (net.Ready w₂ d) w₃) := by
    have hundisposed := h.standing.undisposed_derived hd
    refine hcompute.through (fun accept n hrun ↦ ?_) fun accept n w' hrun ↦ ?_
    · rw [hw₄]
      refine @recompute_run d (net.dispatch react accept n) w w₃ v f w.frames hundisposed hstale hrun
        hrecorded.frames_eq (hsound₃.nested.acyclic f ?_) ?_
      · rw [hrecorded.frames_eq]
        exact List.mem_cons_self
      · rw [← hw₄]
        exact (hcloses.standing hsound₃.standing hd).reap_eq
    · exact @recompute_error d (net.dispatch react accept n) w w' hundisposed hstale hrun
  have hbeside₂ : ((w.begun d).note (.computed (net.name d))).Beside w₃ := hw₂ ▸ hbeside₃
  by_cases hevaluated : w.Evaluated d
  · -- It had a value: that one stays, or another one is kept and passed on.
    obtain ⟨previous, hprevious⟩ := Option.isSome_iff_exists.mp hevaluated
    have hsome : (w₃.derived d).value.isSome := by rw [hvalue₃]; exact hevaluated
    have hsound₄ : net.Sound none w₄ :=
      hcloses.sound hsound₃ hrecorded.frames_eq hrecorded.owner_eq hmem hd hbelow hsome
    have hevaluated₄ : w₄.Evaluated d := by rw [World.Evaluated, hvalue₄]; exact hevaluated
    have hbeside₄ : w.Beside w₄ := hbeside₂.finished hidle hcloses fun _ ↦ hsome
    have hgood (accept : Acceptance) (w' : World)
        (hgood : Good (net.Ready w d ∧ ¬w.Evaluated d) w' accept) : Good (net.Ready w₂ d) w₃ accept :=
      hgood.imp_right fun hboth ↦ absurd hevaluated hboth.1.2
    by_cases hsame : (w₄.derived d).equality.holds previous v = true
    · rw [settle_same (hvalue₄.trans hprevious) hsame] at hrecompute
      exact ⟨false, w₄, hrecompute.mono fun accept hg ↦ hgood accept w₄ hg, hsound₄, hevaluated₄, hbeside₄,
        hframes₄, fun _ ↦ hevaluated, fun _ hnot ↦ absurd hevaluated hnot⟩
    · rw [settle_changed (hvalue₄.trans hprevious) hsame] at hrecompute
      have hkeep : w₄.Beside (w₄.keep d v) :=
        .keep hevaluated₄.lt_size ((hbeside₄.evaluating_eq d).trans hidle) v
      refine ⟨true, w₄.keep d v, hrecompute.mono fun accept hg ↦ hgood accept _ hg,
        hsound₄.keep hevaluated₄ v, hkeep.evaluated d hevaluated₄, hbeside₄.trans hkeep, ?_,
        fun _ ↦ hevaluated, fun _ hnot ↦ absurd hevaluated hnot⟩
      obtain ⟨_, _, _, heq⟩ := w₄.keep_eq d v
      rw [heq]
      exact hframes₄
  · -- It had none: the first value is kept, and nobody knows of it yet.
    have hnone : (w.derived d).value = none := Option.not_isSome_iff_eq_none.mp hevaluated
    obtain ⟨w₅, hw₅⟩ : ∃ w₅, w₅ = w₄.modifyDerived d fun x ↦ { x with value := some v } := ⟨_, rfl⟩
    rw [settle_none (hvalue₄.trans hnone), ← hw₅] at hrecompute
    have hsize₃ : d < w₃.deriveds.size := by
      rw [hsound₃.standing.deriveds_size]
      exact hd
    have hcloses₅ : w₃.Closes w₅ d f.sources (some v) := hw₅ ▸ hcloses.setValue hsize₃ v
    have hfresh : (w₃.derived d).stale = false := by
      have hon : (w₃.derived d).evaluating = true := by
        rw [hbeside₃.evaluating_eq d, hself₂]
      rw [hsound₃.queued.unevaluated d hd (by rw [World.Evaluated, hvalue₃]; exact hevaluated), hon]
      rfl
    have hgood (accept : Acceptance) (hgood : Good (net.Ready w d ∧ ¬w.Evaluated d) w₅ accept) :
        Good (net.Ready w₂ d) w₃ accept := by
      refine hgood.imp_right fun hboth ↦ ⟨hready₂ hboth.1.1, fun s x hs ↦ ?_⟩
      exact hboth.2 s x (hcloses₅.content_eq (hvalue₃.trans hnone) hs)
    refine ⟨false, w₅, hrecompute.mono hgood,
      hcloses₅.sound hsound₃ hrecorded.frames_eq hrecorded.owner_eq hmem hd hbelow rfl, ?_,
      hbeside₂.finished hidle hcloses₅ fun _ ↦ rfl, ?_, fun hfalse ↦ Bool.noConfusion hfalse, ?_⟩
    · rw [World.Evaluated, hcloses₅.value_self]
      rfl
    · rw [hw₅]
      exact hframes₄
    · intro hready hnot
      exact Calm.finished (hw₂ ▸ hcalm₃ (hready₂ hready)) hcloses₅ hnot hfresh

end Network

end LiveGraph
