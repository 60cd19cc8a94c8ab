import LiveGraph.Proofs.Network.Glancing

/-!
# Working off the queue

Without writes meanwhile, a flush computes a derived value when all its sources have their last values: the
one that is queued lowest has no stale source, and what it makes stale stands higher. So each derived value
is computed once at most.
-/

namespace LiveGraph

/-- What equals anything equals itself. -/
theorem Equality.holds_self {equality : Equality} {a b : Datum} (h : equality.holds a b = true) :
    equality.holds a a = true := by
  cases equality with
  | never => exact h
  | same | always => simp [Equality.holds]
  | tens => unfold Equality.holds; split <;> simp_all

namespace Network

open Act

/-- How often it is written down that a derived value is computed. -/
def computations (net : Network) (log : List Note) (d : DerivedId) : Nat :=
  (log.filterMap Note.computed?).count (net.name d)

/-- A derived value had one value and has another one, which differs from it by its own equality. -/
def Differs (net : Network) (w w' : World) (d : DerivedId) : Prop :=
  ∃ a b, (w.derived d).value = some a ∧ (w'.derived d).value = some b ∧ (net.equality d).holds a b = false

/-- What a computation comes to. A derived value keeps the value it has, or it gets another one, of which its
callbacks are to be told. -/
def Upshot (net : Network) (w w' : World) (x : DerivedId) : Prop :=
  (w'.derived x).value = (w.derived x).value ∧ ¬net.Differs w w' x ∧
      (.derived x ∈ w'.effects ↔ .derived x ∈ w.effects) ∨
    net.Differs w w' x ∧
      (.derived x ∈ w'.effects ↔ .derived x ∈ w.effects ∨ (w.derived x).watchers.isEmpty = false)

/-- What the turn of a derived value leaves as it is, and what it makes stale. -/
structure Turned (net : Network) (w w' : World) (x : DerivedId) : Prop extends w.Level w' where
  valueOf_eq : ∀ id, w'.valueOf id = w.valueOf id
  watchers_eq : ∀ s : Source, w'.watchers s.channel = w.watchers s.channel
  height_eq : ∀ d, (w'.derived d).height = (w.derived d).height
  evaluated_iff : ∀ d, w'.Evaluated d ↔ w.Evaluated d
  fresh : (w'.derived x).stale = false
  stale : ∀ y, w'.Evaluated y → (w'.derived y).stale = true →
    (w.derived y).stale = true ∨ (w.derived x).height < (w.derived y).height
  value_eq : ∀ y ≠ x, (w'.derived y).value = (w.derived y).value
  effects_iff : ∀ y ≠ x, .derived y ∈ w'.effects ↔ .derived y ∈ w.effects
  notes : w'.session.notes = .computed (net.name x) :: w.session.notes

/-- The world where a derived value is computed, which is written down, and what was read so far is known. -/
def computing (net : Network) (w : World) (x : DerivedId) (f : Frame) : World :=
  { (w.begun x).note (.computed (net.name x)) with frames := f :: w.frames }

variable {net : Network} {w w' : World} {d x : DerivedId}

/-- An evaluation whose sources are up to date does no more than to read them. -/
theorem run_fresh (fs : List Frame)
    (hfresh : ∀ e, net.Below e d → w.Evaluated e ∧ (w.derived e).stale = false) (r : Reading) (seen : List Source)
    (f : Frame) (hasks : ∀ ss, r.Asks ss → (net.reading d).Asks (seen ++ ss)) (h : net.Sound none w)
    (hrecorded : Recorded w d fs seen f) :
    ∃ v f' ss, r.Asks ss ∧ net.Sound none { w with frames := f' :: fs } ∧
      Recorded { w with frames := f' :: fs } d fs (seen ++ ss) f' ∧
      ∀ D accept, (∀ s ∈ ss, ∀ x, w.content s = some x → accept s (.ok x) = true) →
        @Reading.run D accept r w = .ok v { w with frames := f' :: fs } := by
  induction r generalizing w seen f with
  | done v =>
    have hsame : { w with frames := f :: fs } = w := by rw [← hrecorded.frames_eq]
    refine ⟨v, f, [], .done v, ?_, ?_, fun D accept _ ↦ ?_⟩
    · rw [hsame]
      exact h
    · rw [hsame, List.append_nil]
      exact hrecorded
    · rw [hsame]
      rfl
  | signal id next ih =>
    have htrack : w.track (.signal id) = { w with frames := f.read (.signal id) :: fs } := by
      rw [World.track, hrecorded.frames_eq]
    have hasks₁ : ∀ ss, (next (w.valueOf id)).Asks ss → (net.reading d).Asks (seen ++ [.signal id] ++ ss) := by
      intro ss hss
      rw [List.append_assoc]
      exact hasks _ (.signal _ hss)
    obtain ⟨v, f', ss, hss, hsound, hrecorded', hrun⟩ :=
      ih (w.valueOf id) (w := w.track (.signal id)) (by rw [htrack]; exact hfresh) (seen ++ [.signal id]) _ hasks₁
        (h.track _) (hrecorded.track (.signal id) rfl)
    rw [htrack] at hsound hrecorded' hrun
    refine ⟨v, f', .signal id :: ss, .signal _ hss, hsound, ?_, fun D accept haccept ↦ ?_⟩
    · rw [← List.append_cons] at hrecorded'
      exact hrecorded'
    · have hthere : accept (.signal id) (.ok (.value (w.valueOf id))) = true :=
        haccept _ List.mem_cons_self _ rfl
      have hrest := hrun D accept fun s hs ↦ haccept s (List.mem_cons_of_mem _ hs)
      have hvalue : World.valueOf { w with frames := f.read (.signal id) :: fs } id = w.valueOf id := rfl
      simp only [Reading.run, Signal.read, peek, bind_run, modify_run, get_run, pure_run, htrack, hvalue, hthere,
        if_true, hrest]
  | derived e next ih =>
    have he : net.Below e d := below_of_asks hasks
    obtain ⟨hevaluated, hefresh⟩ := hfresh e he
    obtain ⟨v₁, hv₁⟩ := Option.isSome_iff_exists.mp hevaluated
    have htrack : w.track (.derived e) = { w with frames := f.read (.derived e) :: fs } := by
      rw [World.track, hrecorded.frames_eq]
    have hasks₁ : ∀ ss, (next (.ok v₁)).Asks ss → (net.reading d).Asks (seen ++ [.derived e] ++ ss) := by
      intro ss hss
      rw [List.append_assoc]
      exact hasks _ (.derived _ hss)
    obtain ⟨v, f', ss, hss, hsound, hrecorded', hrun⟩ :=
      ih (.ok v₁) (w := w.track (.derived e)) (by rw [htrack]; exact hfresh) (seen ++ [.derived e]) _ hasks₁
        (h.track _) (hrecorded.track (.derived e) rfl)
    rw [htrack] at hsound hrecorded' hrun
    refine ⟨v, f', .derived e :: ss, .derived _ hss, hsound, ?_, fun D accept haccept ↦ ?_⟩
    · rw [← List.append_cons] at hrecorded'
      exact hrecorded'
    · have hread := @read_fresh _ _ _ D v₁ h (hrecorded.under h he) hv₁ hefresh
      have hthere : accept (.derived e) (.ok v₁) = true := haccept _ List.mem_cons_self _ hv₁
      have hrest := hrun D accept fun s hs ↦ haccept s (List.mem_cons_of_mem _ hs)
      simp only [Reading.run, bind_run, hread, hthere, if_true, htrack, hrest]

section Keeping

variable (hsound : net.Sound none w') (hx : w'.Evaluated x) (v : Datum)
include hsound hx

/-- Of a value that is kept those are to be told who are told of the value at all. -/
theorem mem_effects_keep (y : DerivedId) : .derived y ∈ (w'.keep x v).effects ↔
    .derived y ∈ w'.effects ∨ y = x ∧ (w'.derived x).watchers.isEmpty = false := by
  rw [w'.effects_keep v hx.lt_size]
  split
  · rename_i htold
    refine (or_iff_left_of_imp ?_).symm
    rintro ⟨rfl, hsome⟩
    rw [hsome, Bool.false_or] at htold
    exact (hsound.pending.derived_iff y).mpr htold
  · rename_i htold
    rw [Bool.or_eq_true, not_or, Bool.not_eq_true] at htold
    rw [List.mem_append, List.mem_singleton, Effect.derived.injEq, and_iff_left htold.1]

/-- A value that is kept makes stale what stands higher. -/
theorem stale_keep {y : DerivedId} (hy : w'.Evaluated y) (hstale : ((w'.keep x v).derived y).stale = true) :
    (w'.derived y).stale = true ∨ (w'.derived x).height < (w'.derived y).height := by
  rw [w'.derived_keep v hx.lt_size] at hstale
  refine ((Bool.or_eq_true _ _).mp hstale).imp_right fun hmarked ↦ ?_
  have hobserves : y ∈ w'.observersOf (.derived x) := of_decide_eq_true ((Bool.and_eq_true _ _).mp hmarked).1
  obtain ⟨-, hbelow⟩ := (hsound.wired.observers_iff y (.derived x)).mp hobserves
  exact hsound.wired.heightOf_lt hy hbelow

theorem not_stale_keep (hfresh : (w'.derived x).stale = false) : ((w'.keep x v).derived x).stale = false := by
  have hnoself : x ∉ w'.observersOf (.derived x) := fun hmem ↦
    below_irrefl (.single ((hsound.wired.observers_iff x (.derived x)).mp hmem).2)
  rw [w'.derived_keep v hx.lt_size]
  simp [hfresh, hnoself]

end Keeping

/-- Where another value is kept, the callbacks are to be told and what stands higher gets stale. -/
theorem Turned.keep (h : net.Turned w w' x) (hsound : net.Sound none w') {previous v : Datum}
    (hprevious : (w.derived x).value = some previous) (hdiffers : (net.equality x).holds previous v = false)
    (heffects : w'.effects = w.effects) :
    net.Turned w (w'.keep x v) x ∧ net.Upshot w (w'.keep x v) x := by
  have hx : w'.Evaluated x := (h.evaluated_iff x).mpr (by rw [World.Evaluated, hprevious]; rfl)
  have hderived := w'.derived_keep v hx.lt_size
  have hvalue (y : DerivedId) (hy : y ≠ x) : ((w'.keep x v).derived y).value = (w'.derived y).value := by
    rw [hderived y]
    exact if_neg hy
  have hvalue_self : ((w'.keep x v).derived x).value = some v := by
    rw [hderived x]
    exact if_pos rfl
  have hevaluated (y : DerivedId) : (w'.keep x v).Evaluated y ↔ w'.Evaluated y := by
    by_cases hy : y = x
    · subst hy
      refine iff_of_true ?_ hx
      rw [World.Evaluated, hvalue_self]
      rfl
    · rw [World.Evaluated, hvalue y hy]
      rfl
  have hmem (y : DerivedId) : .derived y ∈ (w'.keep x v).effects ↔
      .derived y ∈ w.effects ∨ y = x ∧ (w.derived x).watchers.isEmpty = false := by
    have hwatchers : (w'.derived x).watchers = (w.derived x).watchers := h.watchers_eq (.derived x)
    rw [mem_effects_keep hsound hx, hwatchers, heffects]
  obtain ⟨deriveds, _, _, hkeep⟩ := w'.keep_eq x v
  refine ⟨⟨?_, fun id ↦ ?_, fun s ↦ ?_, fun y ↦ ?_, fun y ↦ ?_, ?_, fun y hy hstale ↦ ?_, fun y hy ↦ ?_,
    fun y hy ↦ ?_, ?_⟩, .inr ⟨⟨previous, v, hprevious, hvalue_self, hdiffers⟩, ?_⟩⟩
  · rw [hkeep]
    exact ⟨h.depth_eq, h.flushing_eq, h.frames_eq, h.pins_eq⟩
  · rw [hkeep]
    exact h.valueOf_eq id
  · rw [← h.watchers_eq s]
    cases s with
    | signal id =>
      rw [hkeep]
      rfl
    | derived y => exact (congrArg Derived.watchers (hderived y) :)
  · rw [hderived y]
    exact h.height_eq y
  · exact (hevaluated y).trans (h.evaluated_iff y)
  · exact not_stale_keep hsound hx v h.fresh
  · have hy' : w'.Evaluated y := (hevaluated y).mp hy
    rcases stale_keep hsound hx v hy' hstale with hstale | hlt
    · exact h.stale y hy' hstale
    · exact .inr (h.height_eq x ▸ h.height_eq y ▸ hlt)
  · rw [hvalue y hy]
    exact h.value_eq y hy
  · rw [hmem, or_iff_left fun hyx ↦ hy hyx.1]
  · rw [hkeep]
    exact h.notes
  · rw [hmem, and_iff_right rfl]

/-- What a computation comes to is settled: it is the value that there was, or another one is kept. -/
theorem Turned.settle (h : net.Turned w w' x) (hsound : net.Sound none w') (hx : w.Evaluated x)
    (hvalue : (w'.derived x).value = (w.derived x).value) (heffects : w'.effects = w.effects) (v : Datum) :
    net.Sound none (settle w' x v).2 ∧ net.Turned w (settle w' x v).2 x ∧ net.Upshot w (settle w' x v).2 x := by
  have hx' : w'.Evaluated x := (h.evaluated_iff x).mpr hx
  have hequality := hsound.standing.equality_eq (hsound.standing.lt_count hx')
  obtain ⟨previous, hprevious⟩ := Option.isSome_iff_exists.mp hx
  by_cases hsame : (w'.derived x).equality.holds previous v = true
  · rw [settle_same (hvalue.trans hprevious) hsame]
    have hnodiffer : ¬net.Differs w w' x := by
      rintro ⟨a, b, ha, hb, hab⟩
      obtain rfl : previous = a := Option.some.inj (hprevious.symm.trans ha)
      obtain rfl : previous = b := Option.some.inj ((hvalue.trans hprevious).symm.trans hb)
      rw [← hequality, Equality.holds_self hsame] at hab
      exact Bool.noConfusion hab
    exact ⟨hsound, h, .inl ⟨hvalue, hnodiffer, by rw [heffects]⟩⟩
  · rw [settle_changed (hvalue.trans hprevious) hsame]
    rw [hequality, Bool.not_eq_true] at hsame
    exact ⟨hsound.keep hx' v, h.keep hsound hprevious hsame heffects⟩

section Computing

variable {f : Frame} {value : Option Datum}

theorem derived_computing_self (hx : w.Evaluated x) (f : Frame) :
    (net.computing w x f).derived x = { w.derived x with stale := false, evaluating := true } :=
  w.derived_modifyDerived_self hx.lt_size _

theorem derived_computing_of_ne {j : DerivedId} (hj : j ≠ x) (f : Frame) :
    (net.computing w x f).derived j = w.derived j :=
  w.derived_modifyDerived_of_ne hj _

/-- What a computation reads of its sources is what they had before. -/
theorem content_computing {s : Source} (hs : s ∈ net.sources x) (f : Frame) :
    (net.computing w x f).content s = w.content s := by
  cases s with
  | signal id => rfl
  | derived e =>
    have hne : e ≠ x := by
      rintro rfl
      exact below_irrefl (.single hs)
    exact congrArg Derived.value (derived_computing_of_ne hne f)

theorem Sound.computing (h : net.Sound (some x) w) (hd : x < net.count) (howners : w.owners = []) :
    net.Sound none (net.computing w x ⟨some x, [], false⟩) := by
  have hbegun := h.begun hd (by rw [howners]; exact fun _ ho ↦ absurd ho List.not_mem_nil)
  exact hbegun.context _ _ _ hbegun.standing.held

/-- Where nothing stale stands below a derived value, what it is computed from is up to date. -/
theorem Sound.fresh_computing (h : net.Sound (some x) w) (hx : w.Evaluated x)
    (hlow : ∀ y, w.Evaluated y → (w.derived y).stale = true → (w.derived x).height ≤ (w.derived y).height)
    (f : Frame) (e : DerivedId) (he : net.Below e x) :
    (net.computing w x f).Evaluated e ∧ ((net.computing w x f).derived e).stale = false := by
  have hne : e ≠ x := by
    rintro rfl
    exact below_irrefl (.single he)
  have hevaluated := h.wired.below x e hx he
  rw [World.Evaluated, derived_computing_of_ne hne]
  refine ⟨hevaluated, Bool.eq_false_iff.mpr fun hstale ↦ ?_⟩
  exact Nat.not_lt.mpr (hlow e hevaluated hstale) (h.wired.heightOf_lt hx he)

variable (hcloses : (net.computing w x f).Closes w' x f.sources value)
include hcloses

theorem effects_closes : w'.effects = w.effects := by
  obtain ⟨_, _, hothers⟩ := hcloses.others
  rw [hothers]
  rfl

/-- What neither the beginning nor the end of a computation sets. -/
theorem part_closes {α : Type} (hx : w.Evaluated x) (part : Derived → α)
    (hclosed : ∀ x y : Derived, part { x with
      observers := []
      evaluating := false
      cyclic := false
      sources := y.sources
      height := y.height
      value := y.value } = part x)
    (hbegun : ∀ x : Derived, part { x with stale := false, evaluating := true } = part x) (j : DerivedId) :
    part (w'.derived j) = part (w.derived j) := by
  rw [hcloses.part_eq part hclosed j]
  by_cases hj : j = x
  · rw [hj, derived_computing_self hx, hbegun]
  · rw [derived_computing_of_ne hj]

/-- A turn that comes to the value that there was leaves everything else as it is. -/
theorem Turned.of_closes (hx : w.Evaluated x) (hstale : (w.derived x).stale = true)
    (hheight : (w'.derived x).height = (w.derived x).height) (hvalue : value = (w.derived x).value) :
    net.Turned w w' x := by
  have heffects : w'.effects = w.effects := effects_closes hcloses
  obtain ⟨_, _, hothers⟩ := hcloses.others
  refine ⟨?_, fun id ↦ ?_, fun s ↦ ?_, fun j ↦ ?_, fun j ↦ ?_, ?_, fun y hy hstale' ↦ .inl ?_, fun y hy ↦ ?_,
    fun y _ ↦ by rw [heffects], ?_⟩
  · refine ⟨?_, ?_, ?_, ?_⟩ <;> rw [hothers] <;> rfl
  · exact (congrArg Signal.value (hcloses.signal_eq id) :)
  · cases s with
    | signal id => exact (congrArg Signal.watchers (hcloses.signal_eq id) :)
    | derived j => exact part_closes hcloses hx Derived.watchers (fun _ _ ↦ rfl) (fun _ ↦ rfl) j
  · by_cases hj : j = x
    · exact hj ▸ hheight
    · rw [(congrArg Derived.height (hcloses.derived_other j hj) :), derived_computing_of_ne hj]
  · rw [hcloses.evaluated_iff (hvalue ▸ hx)]
    by_cases hj : j = x
    · exact iff_of_true (.inr hj) (hj ▸ hx)
    · rw [or_iff_left hj, World.Evaluated, derived_computing_of_ne hj]
      rfl
  · rw [hcloses.part_eq Derived.stale (fun _ _ ↦ rfl) x, derived_computing_self hx]
  · rw [hcloses.part_eq Derived.stale (fun _ _ ↦ rfl) y] at hstale'
    by_cases hyx : y = x
    · rw [hyx]
      exact hstale
    · rwa [derived_computing_of_ne hyx] at hstale'
  · rw [(congrArg Derived.value (hcloses.derived_other y hy) :), derived_computing_of_ne hy]
  · rw [hothers]
    rfl

end Computing

/-- The turn of a stale derived value that nothing stale stands below. It reads the values that its sources
have, and no others. -/
theorem Sound.turn (h : net.Sound (some x) w) (hx : w.Evaluated x) (hstale : (w.derived x).stale = true)
    (howners : w.owners = []) (hlow : ∀ y, w.Evaluated y → (w.derived y).stale = true →
      (w.derived x).height ≤ (w.derived y).height) :
    ∃ w', net.Sound none w' ∧ net.Turned w w' x ∧ net.Upshot w w' x ∧ ∀ react accept,
      (∀ s ∈ net.sources x, ∀ v, w.content s = some v → accept s (.ok v) = true) →
        ∀ n, ∃ b, @Derived.recompute (net.dispatch react accept (n + 1)) x w = .ok b w' := by
  have hd : x < net.count := h.standing.lt_count hx
  -- The function is evaluated, and reads its sources.
  obtain ⟨v, f, ss, hss, hsound, hrecorded, hrun⟩ := run_fresh w.frames
    (h.fresh_computing hx hlow ⟨some x, [], false⟩) (net.reading x) [] ⟨some x, [], false⟩ (fun _ hss ↦ hss)
    (h.computing hd howners) ⟨rfl, rfl, fun _ ↦ Iff.rfl⟩
  change net.Sound none (net.computing w x f) at hsound
  change Recorded (net.computing w x f) x w.frames ([] ++ ss) f at hrecorded
  have hmem (s : Source) : s ∈ f.sources ↔ s ∈ net.sources x :=
    (hrecorded.mem_iff s).trans (net.asks_iff x ss hss s)
  have hself : (net.computing w x f).derived x = { w.derived x with stale := false, evaluating := true } :=
    derived_computing_self hx f
  have hx₁ : (net.computing w x f).Evaluated x := by
    rw [World.Evaluated, hself]
    exact hx
  -- The evaluation is over, and nothing else is different from before.
  obtain ⟨w', hw'⟩ : ∃ w', w' = (net.computing w x f).finished x f.sources := ⟨_, rfl⟩
  have hcloses : (net.computing w x f).Closes w' x f.sources ((net.computing w x f).derived x).value :=
    hw' ▸ hsound.closes hd hmem
  have hsound' : net.Sound none w' := hcloses.sound hsound hrecorded.frames_eq hrecorded.owner_eq hmem hd
    (fun e he ↦ hsound.wired.below x e hx₁ he) hx₁
  have hvalue : (w'.derived x).value = (w.derived x).value := by
    rw [hcloses.value_self, hself]
  have hheight : (w'.derived x).height = (w.derived x).height := by
    refine (congrArg Derived.height hcloses.derived_self :).trans ?_
    rw [World.Closes.height_self hsound hmem hx₁, hself]
  have heffects : w'.effects = w.effects := effects_closes hcloses
  have hturned : net.Turned w w' x := .of_closes hcloses hx hstale hheight (by rw [hself])
  have hrecompute (react : String → Event → Client Use) (accept : Acceptance)
      (haccept : ∀ s ∈ net.sources x, ∀ v, w.content s = some v → accept s (.ok v) = true) (n : Nat) :
      @Derived.recompute (net.dispatch react accept (n + 1)) x w = .ok (settle w' x v).1 (settle w' x v).2 := by
    have hcompute : (net.dispatch react accept (n + 1)).compute x (w.begun x) = .ok v (net.computing w x f) := by
      refine hrun (net.dispatch react accept n) accept fun s hs v hv ↦ ?_
      have hsource := (net.asks_iff x ss hss s).mp hs
      exact haccept s hsource v ((content_computing hsource _).symm.trans hv)
    have hreap : w'.reap = w' := hsound'.standing.reap_eq
    rw [hw'] at hreap ⊢
    refine @recompute_run x (net.dispatch react accept (n + 1)) w (net.computing w x f) v f w.frames
      (h.standing.undisposed_derived hd) hstale hcompute hrecorded.frames_eq (hsound.nested.acyclic f ?_) hreap
    rw [hrecorded.frames_eq]
    exact List.mem_cons_self
  obtain ⟨hsettled, hturned', hupshot⟩ := hturned.settle hsound' hx hvalue heffects v
  exact ⟨(settle w' x v).2, hsettled, hturned', hupshot,
    fun react accept haccept n ↦ ⟨_, hrecompute react accept haccept n⟩⟩

end Network

end LiveGraph
