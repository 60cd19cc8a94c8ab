import LiveGraph.Proofs.Network.Draining

/-!
# Settling a network

The whole queue is worked off in this way. With each turn one derived value more has nothing stale below it,
and from then on it keeps its value and is not computed again. So what was read on the way are the values that
are there in the end.
-/

namespace LiveGraph.Network

open Act

/-- A derived value is up to date, and nothing that is stale stands lower. -/
structure Past (w : World) (d : DerivedId) : Prop where
  evaluated : w.Evaluated d
  fresh : (w.derived d).stale = false
  le : ∀ y, w.Evaluated y → (w.derived y).stale = true → (w.derived d).height ≤ (w.derived y).height

/-- Nothing became of a derived value. -/
structure Untouched (net : Network) (log : List Note) (w w' : World) (d : DerivedId) : Prop where
  computations_eq : net.computations log d = 0
  value_eq : (w'.derived d).value = (w.derived d).value
  effects_iff : .derived d ∈ w'.effects ↔ .derived d ∈ w.effects

/-- A derived value was computed once. -/
structure Once (net : Network) (log : List Note) (w w' : World) (d : DerivedId) : Prop where
  computations_eq : net.computations log d = 1
  upshot : net.Upshot w w' d

/-- What turns one after the other come to. -/
structure Progress (net : Network) (log : List Note) (w w' : World) : Prop extends w.Level w' where
  valueOf_eq : ∀ id, w'.valueOf id = w.valueOf id
  watchers_eq : ∀ s : Source, w'.watchers s.channel = w.watchers s.channel
  evaluated_iff : ∀ d, w'.Evaluated d ↔ w.Evaluated d
  past : ∀ d, Past w d → Past w' d
  each : ∀ d, w.Evaluated d →
    net.Untouched log w w' d ∨ ¬Past w d ∧ Past w' d ∧ net.Once log w w' d
  effects : ∀ d, .derived d ∈ w'.effects → .derived d ∈ w.effects ∨ w.Evaluated d
  computed : ∀ n ∈ log, ∃ d, n = .computed (net.name d)
  notes : w'.session.notes = log ++ w.session.notes

variable {net : Network} {w w' w'' : World} {d x : DerivedId} {log log' : List Note}

@[simp] theorem computations_nil (d : DerivedId) : net.computations [] d = 0 := rfl

theorem computations_append (log log' : List Note) (d : DerivedId) :
    net.computations (log ++ log') d = net.computations log d + net.computations log' d := by
  rw [computations, List.filterMap_append, List.count_append]
  rfl

theorem computations_self (x : DerivedId) : net.computations [.computed (net.name x)] x = 1 := by
  simp [computations, Note.computed?]

theorem computations_other (h : d ≠ x) : net.computations [.computed (net.name x)] d = 0 := by
  have hname : net.name x ≠ net.name d := fun heq ↦ h (net.name_injective heq).symm
  simp [computations, Note.computed?, hname]

namespace Differs

theorem congr (h : net.Differs w w' d) {w₁ w₁' : World} (hvalue : (w₁.derived d).value = (w.derived d).value)
    (hvalue' : (w₁'.derived d).value = (w'.derived d).value) : net.Differs w₁ w₁' d := by
  obtain ⟨a, b, ha, hb, hab⟩ := h
  exact ⟨a, b, hvalue.trans ha, hvalue'.trans hb, hab⟩

end Differs

namespace Untouched

theorem refl (w : World) (d : DerivedId) : net.Untouched [] w w d :=
  ⟨rfl, rfl, Iff.rfl⟩

theorem trans (h : net.Untouched log w w' d) (h' : net.Untouched log' w' w'' d) :
    net.Untouched (log' ++ log) w w'' d := by
  refine ⟨?_, h'.value_eq.trans h.value_eq, h'.effects_iff.trans h.effects_iff⟩
  rw [computations_append, h.computations_eq, h'.computations_eq]

/-- What was computed once stays so where nothing more becomes of it. -/
theorem trans_once (h : net.Untouched log w w' d) (h' : net.Once log' w' w'' d)
    (hwatchers : (w'.derived d).watchers = (w.derived d).watchers) : net.Once (log' ++ log) w w'' d := by
  refine ⟨by rw [computations_append, h.computations_eq, h'.computations_eq], ?_⟩
  refine h'.upshot.imp (fun ⟨hvalue, hdiffers, heffects⟩ ↦ ?_) fun ⟨hdiffers, heffects⟩ ↦ ?_
  · exact ⟨hvalue.trans h.value_eq, fun hd ↦ hdiffers (hd.congr h.value_eq rfl), heffects.trans h.effects_iff⟩
  · refine ⟨hdiffers.congr h.value_eq.symm rfl, ?_⟩
    rw [heffects, h.effects_iff, hwatchers]

theorem once_trans (h : net.Once log w w' d) (h' : net.Untouched log' w' w'' d) :
    net.Once (log' ++ log) w w'' d := by
  refine ⟨by rw [computations_append, h.computations_eq, h'.computations_eq], ?_⟩
  refine h.upshot.imp (fun ⟨hvalue, hdiffers, heffects⟩ ↦ ?_) fun ⟨hdiffers, heffects⟩ ↦ ?_
  · exact ⟨h'.value_eq.trans hvalue, fun hd ↦ hdiffers (hd.congr rfl h'.value_eq.symm),
      h'.effects_iff.trans heffects⟩
  · exact ⟨hdiffers.congr rfl h'.value_eq, h'.effects_iff.trans heffects⟩

end Untouched

namespace Progress

theorem refl (w : World) : net.Progress [] w w :=
  ⟨.refl w, fun _ ↦ rfl, fun _ ↦ rfl, fun _ ↦ Iff.rfl, fun _ h ↦ h, fun d _ ↦ .inl (.refl w d),
    fun _ h ↦ .inl h, fun _ h ↦ absurd h List.not_mem_nil, rfl⟩

theorem trans (h : net.Progress log w w') (h' : net.Progress log' w' w'') :
    net.Progress (log' ++ log) w w'' := by
  refine ⟨h.toLevel.trans h'.toLevel, fun id ↦ (h'.valueOf_eq id).trans (h.valueOf_eq id),
    fun s ↦ (h'.watchers_eq s).trans (h.watchers_eq s), fun d ↦ (h'.evaluated_iff d).trans (h.evaluated_iff d),
    fun d hd ↦ h'.past d (h.past d hd), fun d hd ↦ ?_, fun d hd ↦ ?_, fun n hn ↦ ?_, ?_⟩
  · have hwatchers : (w'.derived d).watchers = (w.derived d).watchers := h.watchers_eq (.derived d)
    rcases h.each d hd with hsame | ⟨hnot, hpast, honce⟩
    · rcases h'.each d ((h.evaluated_iff d).mpr hd) with hsame' | ⟨hnot', hpast', honce'⟩
      · exact .inl (hsame.trans hsame')
      · exact .inr ⟨fun hpast ↦ hnot' (h.past d hpast), hpast', hsame.trans_once honce' hwatchers⟩
    · rcases h'.each d ((h.evaluated_iff d).mpr hd) with hsame' | ⟨hnot', -, -⟩
      · exact .inr ⟨hnot, h'.past d hpast, Untouched.once_trans honce hsame'⟩
      · exact absurd hpast hnot'
  · rcases h'.effects d hd with hd | hd
    · exact h.effects d hd
    · exact .inr ((h.evaluated_iff d).mp hd)
  · rcases List.mem_append.mp hn with hn | hn
    · exact h'.computed n hn
    · exact h.computed n hn
  · rw [h'.notes, h.notes, List.append_assoc]

/-- What has nothing stale below it keeps its value. -/
theorem content_eq (h : net.Progress log w w') {s : Source} {v : Datum} (hs : w.content s = some v)
    (hpast : ∀ d, s = .derived d → Past w d) : w'.content s = some v := by
  cases s with
  | signal id =>
    refine Eq.trans ?_ hs
    exact congrArg (fun v ↦ some (Datum.value v)) (h.valueOf_eq id)
  | derived d =>
    rcases h.each d (Option.isSome_iff_exists.mpr ⟨v, hs⟩) with hsame | ⟨hnot, -, -⟩
    · exact hsame.value_eq.trans hs
    · exact absurd (hpast d rfl) hnot

end Progress

/-- The turn of what nothing stale stands below is progress. -/
theorem Turned.progress (h : net.Turned w w' x) (hupshot : net.Upshot w w' x) (hx : w.Evaluated x)
    (hstale : (w.derived x).stale = true)
    (hlow : ∀ y, w.Evaluated y → (w.derived y).stale = true → (w.derived x).height ≤ (w.derived y).height) :
    net.Progress [.computed (net.name x)] w w' ∧ ¬Past w x ∧ Past w' x := by
  have hnot : ¬Past w x := fun hpast ↦ Bool.noConfusion (hpast.fresh.symm.trans hstale)
  have hpast : Past w' x := by
    refine ⟨(h.evaluated_iff x).mpr hx, h.fresh, fun y hy hy' ↦ ?_⟩
    rw [h.height_eq, h.height_eq]
    rcases h.stale y hy hy' with hy' | hlt
    · exact hlow y ((h.evaluated_iff y).mp hy) hy'
    · exact Nat.le_of_lt hlt
  refine ⟨⟨h.toLevel, h.valueOf_eq, h.watchers_eq, h.evaluated_iff, fun d hd ↦ ?_, fun d hd ↦ ?_, fun d hd ↦ ?_,
    fun n hn ↦ ⟨x, List.mem_singleton.mp hn⟩, h.notes⟩, hnot, hpast⟩
  · have hle : (w.derived d).height ≤ (w.derived x).height := hd.le x hx hstale
    have hevaluated : w'.Evaluated d := (h.evaluated_iff d).mpr hd.evaluated
    refine ⟨hevaluated, Bool.eq_false_iff.mpr fun hstale' ↦ ?_, fun y hy hy' ↦ ?_⟩
    · rcases h.stale d hevaluated hstale' with hstale' | hlt
      · exact Bool.noConfusion (hd.fresh.symm.trans hstale')
      · exact Nat.not_lt.mpr hle hlt
    · rw [h.height_eq, h.height_eq]
      rcases h.stale y hy hy' with hy' | hlt
      · exact hd.le y ((h.evaluated_iff y).mp hy) hy'
      · exact Nat.le_trans hle (Nat.le_of_lt hlt)
  · by_cases hdx : d = x
    · subst hdx
      exact .inr ⟨hnot, hpast, computations_self d, hupshot⟩
    · exact .inl ⟨computations_other hdx, h.value_eq d hdx, h.effects_iff d hdx⟩
  · by_cases hdx : d = x
    · exact .inr (hdx ▸ hx)
    · exact .inl ((h.effects_iff d hdx).mp hd)

/-- What is queued first stands lowest of all that is stale. -/
theorem Sound.lowest (h : net.Sound none w) {entry : Nat × DerivedId} {rest : List (Nat × DerivedId)}
    (hqueue : w.queue = entry :: rest) (y : DerivedId) (hy : w.Evaluated y) (hstale : (w.derived y).stale = true) :
    (w.derived entry.2).height ≤ (w.derived y).height := by
  have hmem := h.queued.queued y (Option.some_ne_none y).symm hy hstale
  have hsorted := h.queued.sorted
  have hat := (h.queued.sound entry (hqueue ▸ List.mem_cons_self)).2
  rw [hqueue] at hmem hsorted
  rcases List.mem_cons.mp hmem with heq | hmem
  · rw [← heq]
  · rw [← hat]
    exact (List.pairwise_cons.mp hsorted).1 _ hmem

section Round

variable {entry : Nat × DerivedId} {rest : List (Nat × DerivedId)}

end Round

end LiveGraph.Network
