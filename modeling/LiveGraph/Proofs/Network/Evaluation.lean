import LiveGraph.Proofs.Network.Leading
import LiveGraph.Proofs.Reactive.Within

/-!
# Evaluations in networks

An evaluation reads its sources one after the other, and brings those up to date that are stale. It leaves
alone whom it does not concern, and so the network stays sound. Where nothing below is stale an evaluation is
calm: it does no more than to compute what was never computed, and what it reads stays so.
-/

namespace LiveGraph

namespace World

/-- What evaluations leave alone. -/
structure Beside (w w' : World) : Prop where
  signal_eq : ∀ id, { w'.signal id with observers := [] } = { w.signal id with observers := [] }
  watchers_eq : ∀ d, (w'.derived d).watchers = (w.derived d).watchers
  evaluating_eq : ∀ d, (w'.derived d).evaluating = (w.derived d).evaluating
  value_eq : ∀ d, (w.derived d).evaluating = true → (w'.derived d).value = (w.derived d).value
  evaluated : ∀ d, w.Evaluated d → w'.Evaluated d
  depth_eq : w'.depth = w.depth
  flushing_eq : w'.flushing = w.flushing
  pins_eq : w'.pins = w.pins
  session_eq : { w'.session with notes := [] } = { w.session with notes := [] }

namespace Beside

variable {w w' w'' : World}

theorem refl (w : World) : w.Beside w :=
  ⟨fun _ ↦ rfl, fun _ ↦ rfl, fun _ ↦ rfl, fun _ _ ↦ rfl, fun _ h ↦ h, rfl, rfl, rfl, rfl⟩

theorem trans (h : w.Beside w') (h' : w'.Beside w'') : w.Beside w'' where
  signal_eq id := (h'.signal_eq id).trans (h.signal_eq id)
  watchers_eq d := (h'.watchers_eq d).trans (h.watchers_eq d)
  evaluating_eq d := (h'.evaluating_eq d).trans (h.evaluating_eq d)
  value_eq d hd := (h'.value_eq d ((h.evaluating_eq d).trans hd)).trans (h.value_eq d hd)
  evaluated d hd := h'.evaluated d (h.evaluated d hd)
  depth_eq := h'.depth_eq.trans h.depth_eq
  flushing_eq := h'.flushing_eq.trans h.flushing_eq
  pins_eq := h'.pins_eq.trans h.pins_eq
  session_eq := h'.session_eq.trans h.session_eq

theorem setFrames (w : World) (frames : List Frame) : w.Beside { w with frames := frames } :=
  ⟨fun _ ↦ rfl, fun _ ↦ rfl, fun _ ↦ rfl, fun _ _ ↦ rfl, fun _ h ↦ h, rfl, rfl, rfl, rfl⟩

theorem valueOf_eq (h : w.Beside w') (id : SignalId) : w'.valueOf id = w.valueOf id :=
  (congrArg Signal.value (h.signal_eq id) :)

theorem busy (h : w.Beside w') (hw : w.Busy) : w'.Busy := by
  rw [Busy, h.depth_eq, h.flushing_eq]
  exact hw

end Beside

end World

namespace Network

variable (net : Network)

/-- Nothing that this derived value rests on, and that was computed, is stale. -/
def Settled (w : World) (d : DerivedId) : Prop :=
  ∀ e, Relation.ReflTransGen net.Below e d → w.Evaluated e → (w.derived e).stale = false

/-- No source is stale, nor anything that a source rests on. -/
def Ready (w : World) (d : DerivedId) : Prop :=
  ∀ e, net.Below e d → net.Settled w e

/-- What happens where nothing is stale: derived values are computed for the first time, and that is
written down. -/
structure Calm (w w' : World) : Prop where
  queue_eq : w'.queue = w.queue
  effects_eq : w'.effects = w.effects
  value_eq : ∀ d, w.Evaluated d → (w'.derived d).value = (w.derived d).value
  stale : ∀ d, w'.Evaluated d → (w'.derived d).stale = true → w.Evaluated d ∧ (w.derived d).stale = true
  notes : ∃ log, w'.session.notes = log ++ w.session.notes ∧
    ∀ n ∈ log, ∃ d, n = .computed (net.name d) ∧ ¬w.Evaluated d

/-- Everything is accepted, or where it is calm at least what is there in the end. -/
def Good (calm : Prop) (w : World) (accept : Acceptance) : Prop :=
  accept = acceptAll ∨ calm ∧ w.Accepted accept

variable {net} {w w' w'' : World} {d e : DerivedId}

namespace Calm

theorem refl (w : World) : net.Calm w w :=
  ⟨rfl, rfl, fun _ _ ↦ rfl, fun _ h h' ↦ ⟨h, h'⟩, [], rfl, fun _ h ↦ absurd h List.not_mem_nil⟩

theorem evaluated (h : net.Calm w w') (hd : w.Evaluated d) : w'.Evaluated d := by
  rw [World.Evaluated, h.value_eq d hd]
  exact hd

theorem trans (h : net.Calm w w') (h' : net.Calm w' w'') : net.Calm w w'' := by
  refine ⟨h'.queue_eq.trans h.queue_eq, h'.effects_eq.trans h.effects_eq, fun d hd ↦ ?_,
    fun d hd hstale ↦ ?_, ?_⟩
  · exact (h'.value_eq d (h.evaluated hd)).trans (h.value_eq d hd)
  · obtain ⟨hd', hstale'⟩ := h'.stale d hd hstale
    exact h.stale d hd' hstale'
  · obtain ⟨log, hlog, hcomputed⟩ := h.notes
    obtain ⟨log', hlog', hcomputed'⟩ := h'.notes
    refine ⟨log' ++ log, ?_, fun n hn ↦ ?_⟩
    · rw [hlog', hlog, List.append_assoc]
    · rcases List.mem_append.mp hn with hn | hn
      · obtain ⟨d, rfl, hd⟩ := hcomputed' n hn
        exact ⟨d, rfl, fun h₀ ↦ hd (h.evaluated h₀)⟩
      · exact hcomputed n hn

theorem setFrames (w : World) (frames : List Frame) : net.Calm w { w with frames := frames } :=
  ⟨rfl, rfl, fun _ _ ↦ rfl, fun _ h h' ↦ ⟨h, h'⟩, [], rfl, fun _ h ↦ absurd h List.not_mem_nil⟩

theorem settled (h : net.Calm w w') (hd : net.Settled w d) : net.Settled w' d := by
  intro e he hevaluated
  refine Bool.eq_false_iff.mpr fun hstale ↦ ?_
  obtain ⟨hbefore, hstale'⟩ := h.stale e hevaluated hstale
  rw [hd e he hbefore] at hstale'
  exact Bool.noConfusion hstale'

theorem ready (h : net.Calm w w') (hd : net.Ready w d) : net.Ready w' d := fun e he ↦
  h.settled (hd e he)

theorem content_eq (h : net.Calm w w') (hbeside : w.Beside w') {s : Source} {v : Datum}
    (hs : w.content s = some v) : w'.content s = some v := by
  cases s with
  | signal id =>
    refine Eq.trans ?_ hs
    exact congrArg (fun v ↦ some (Datum.value v)) (hbeside.valueOf_eq id)
  | derived d =>
    have hd : w.Evaluated d := Option.isSome_iff_exists.mpr ⟨v, hs⟩
    exact (h.value_eq d hd).trans hs

theorem accepted (h : net.Calm w w') (hbeside : w.Beside w') {accept : Acceptance}
    (haccept : w'.Accepted accept) : w.Accepted accept := fun s v hs ↦
  haccept s v (h.content_eq hbeside hs)

end Calm

theorem Good.accepts {calm : Prop} {accept : Acceptance} (h : Good calm w accept)
    {s : Source} {v : Datum} (hs : w.content s = some v) : accept s (.ok v) = true := by
  rcases h with rfl | ⟨-, h⟩
  · rfl
  · exact h s v hs

/-- What is good in the end is good before. -/
theorem Good.before {calm calm' : Prop} {accept : Acceptance} (h : Good calm w' accept)
    (hcalm : calm → calm' ∧ net.Calm w w') (hbeside : w.Beside w') : Good calm' w accept := by
  rcases h with h | ⟨h, haccept⟩
  · exact .inl h
  · exact .inr ⟨(hcalm h).1, (hcalm h).2.accepted hbeside haccept⟩

theorem Sound.weaken (h : net.Sound none w) (d : Option DerivedId) : net.Sound d w :=
  { h with queued := { h.queued with
      queued := fun e _ he hstale ↦ h.queued.queued e (Option.some_ne_none e).symm he hstale } }

theorem track_eq (w : World) (s : Source) : ∃ frames, w.track s = { w with frames := frames } := by
  unfold World.track
  cases hframes : w.frames with
  | nil => exact ⟨w.frames, rfl⟩
  | cons f rest => exact ⟨f.read s :: rest, rfl⟩

theorem owner_read (f : Frame) (s : Source) : (f.read s).owner = f.owner := by
  unfold Frame.read
  split <;> rfl

theorem cyclic_read (f : Frame) (s : Source) : (f.read s).cyclic = f.cyclic := by
  unfold Frame.read
  split <;> rfl

theorem owners_track (w : World) (s : Source) : (w.track s).owners = w.owners := by
  unfold World.track
  cases hframes : w.frames with
  | nil => rfl
  | cons f rest => rw [World.owners, World.owners, hframes, List.filterMap_cons, List.filterMap_cons, owner_read]

/-- Recording a read. -/
theorem Sound.track {except : Option DerivedId} (h : net.Sound except w) (s : Source) :
    net.Sound except (w.track s) := by
  have howners := owners_track w s
  unfold World.track at howners ⊢
  cases hframes : w.frames with
  | nil => exact h
  | cons f rest =>
    rw [hframes] at howners
    refine h.setFrames _ howners fun f' hf' ↦ ?_
    rcases List.mem_cons.mp hf' with rfl | hf'
    · exact (cyclic_read f s).trans (h.nested.acyclic f (hframes ▸ List.mem_cons_self))
    · exact h.nested.acyclic f' (hframes ▸ List.mem_cons_of_mem f hf')

/-- Where nothing waits, nothing that was computed is stale. -/
theorem Sound.fresh_of_queue (h : net.Sound none w) (hqueue : w.queue = []) (hd : w.Evaluated d) :
    (w.derived d).stale = false := by
  refine Bool.eq_false_iff.mpr fun hstale ↦ ?_
  have hmem := h.queued.queued d (Option.some_ne_none d).symm hd hstale
  rw [hqueue] at hmem
  exact List.not_mem_nil hmem

section

variable (net) (react : String → Event → Client Use)

/-- What computing a derived value leads to, wherever it is its turn. -/
def Computes (d : DerivedId) : Prop :=
  ∀ w, net.Sound (some d) w → d < net.count → (∀ o ∈ w.owners, Relation.TransGen net.Below d o) →
    (w.derived d).stale = true → w.Busy ∨ net.Ready w d → ∃ b w',
      Leads (fun accept n ↦ @Derived.recompute (net.dispatch react accept n) d) w (.ok b w')
        (Good (net.Ready w d ∧ ¬w.Evaluated d) w') ∧
      net.Sound none w' ∧ w'.Evaluated d ∧ w.Beside w' ∧ w'.frames = w.frames ∧
      (b = true → w.Evaluated d) ∧ (net.Ready w d → ¬w.Evaluated d → net.Calm w w')

end

variable {react : String → Event → Client Use}

/-- Bringing a stale derived value up to date. -/
theorem refresh_leads (hcomputes : net.Computes react e) (h : net.Sound none w) (he : e < net.count)
    (hunder : ∀ o ∈ w.owners, Relation.TransGen net.Below e o) (hstale : (w.derived e).stale = true)
    (hmode : w.Busy ∨ net.Settled w e) :
    ∃ w', Leads (fun accept n ↦ @Derived.refresh (net.dispatch react accept n) e) w (.ok () w')
        (Good (net.Settled w e) w') ∧
      net.Sound none w' ∧ w'.Evaluated e ∧ w.Beside w' ∧ w'.frames = w.frames ∧
      (net.Settled w e → net.Calm w w') := by
  have hready (hsettled : net.Settled w e) : net.Ready w e ∧ ¬w.Evaluated e := by
    refine ⟨fun e' he' e'' he'' ↦ hsettled e'' (he''.tail he'), fun hevaluated ↦ ?_⟩
    exact Bool.noConfusion (hstale.symm.trans (hsettled e .refl hevaluated))
  obtain ⟨b, w', hleads, hsound, hevaluated, hbeside, hframes, hb, hcalm⟩ :=
    hcomputes w (h.weaken (some e)) he hunder hstale (hmode.imp_right fun hsettled ↦ (hready hsettled).1)
  refine ⟨w', ?_, hsound, hevaluated, hbeside, hframes, fun hsettled ↦
    hcalm (hready hsettled).1 (hready hsettled).2⟩
  have hgood := hleads.mono fun accept (hgood : Good (net.Settled w e) w' accept) ↦
    hgood.imp_right (And.imp_left hready)
  refine hgood.bind_eq fun accept n ↦ ?_
  cases b with
  | false => rfl
  | true =>
    refine @Act.flushOutside_busy w' (net.dispatch react accept n) (hbeside.busy ?_)
    exact hmode.resolve_right fun hsettled ↦ (hready hsettled).2 (hb rfl)

/-- Reading a derived value that is up to date. -/
theorem read_fresh [Dispatch] {v : Datum} (h : net.Sound none w)
    (hunder : ∀ o ∈ w.owners, Relation.TransGen net.Below e o) (hvalue : (w.derived e).value = some v)
    (hfresh : (w.derived e).stale = false) : Derived.read e w = .ok (.ok v) (w.track (.derived e)) := by
  have hidle : (w.derived e).evaluating = false :=
    Bool.eq_false_iff.mpr fun hon ↦ below_irrefl (hunder e ((h.nested.evaluating_iff e).mp hon))
  have he : e < net.count := h.standing.lt_count (Option.isSome_iff_exists.mpr ⟨v, hvalue⟩)
  have hundisposed := h.standing.undisposed_derived he
  have hcyclic := h.standing.acyclic he
  have hderived : (w.track (.derived e)).derived e = w.derived e := by
    obtain ⟨frames, htrack⟩ := track_eq w (.derived e)
    rw [htrack]
    rfl
  simp [Derived.read, hidle, hundisposed, hfresh, hderived, hcyclic, hvalue]

/-- Reading a derived value, which is brought up to date first. -/
theorem read_leads (hcomputes : net.Computes react e) (h : net.Sound none w) (he : e < net.count)
    (hunder : ∀ o ∈ w.owners, Relation.TransGen net.Below e o) (hmode : w.Busy ∨ net.Settled w e) :
    ∃ v w', Leads (fun accept n ↦ @Derived.read (net.dispatch react accept n) e) w (.ok (.ok v) w')
        (Good (net.Settled w e) w') ∧
      net.Sound none w' ∧ (w'.derived e).value = some v ∧ w.Beside w' ∧
      w'.frames = (w.track (.derived e)).frames ∧ (net.Settled w e → net.Calm w w') := by
  have hidle : (w.derived e).evaluating = false := by
    refine Bool.eq_false_iff.mpr fun hon ↦ ?_
    exact below_irrefl (hunder e ((h.nested.evaluating_iff e).mp hon))
  have hundisposed := h.standing.undisposed_derived he
  obtain ⟨w₁, hw₁⟩ : ∃ w₁, w₁ = w.track (.derived e) := ⟨_, rfl⟩
  have hsound₁ : net.Sound none w₁ := hw₁ ▸ h.track (.derived e)
  obtain ⟨frames, htrack⟩ := track_eq w (.derived e)
  have hbeside₁ : w.Beside w₁ := by
    rw [hw₁, htrack]
    exact .setFrames w frames
  have hcalm₁ : net.Calm w w₁ := by
    rw [hw₁, htrack]
    exact .setFrames w frames
  have hderived₁ : w₁.derived e = w.derived e := by
    rw [hw₁, htrack]
    rfl
  by_cases hstale : (w.derived e).stale = true
  · have hunder₁ : ∀ o ∈ w₁.owners, Relation.TransGen net.Below e o := by
      rw [hw₁, owners_track]
      exact hunder
    obtain ⟨w₂, hleads, hsound₂, hevaluated₂, hbeside₂, hframes₂, hcalm₂⟩ :=
      refresh_leads hcomputes hsound₁ he hunder₁ (hderived₁ ▸ hstale) (hmode.imp hbeside₁.busy hcalm₁.settled)
    obtain ⟨v, hv⟩ := Option.isSome_iff_exists.mp hevaluated₂
    have hcyclic₂ := hsound₂.standing.acyclic he
    refine ⟨v, w₂, ?_, hsound₂, hv, hbeside₁.trans hbeside₂, hframes₂.trans (by rw [hw₁]),
      fun hsettled ↦ hcalm₁.trans (hcalm₂ (hcalm₁.settled hsettled))⟩
    have hgood := hleads.mono fun accept (hgood : Good (net.Settled w e) w₂ accept) ↦
      hgood.imp_right (And.imp_left hcalm₁.settled)
    refine hgood.through (fun accept n hrun ↦ ?_) fun accept n w'' hrun ↦ ⟨w'', ?_⟩
    · simp [Derived.read, hidle, hundisposed, hstale, ← hw₁, hrun, hcyclic₂, hv]
    · simp [Derived.read, hidle, hundisposed, hstale, ← hw₁, hrun]
  · have hevaluated : w.Evaluated e := by
      by_contra hnot
      rw [h.queued.unevaluated e he hnot, hidle] at hstale
      exact hstale rfl
    obtain ⟨v, hv⟩ := Option.isSome_iff_exists.mp hevaluated
    refine ⟨v, w₁, .of_eq fun accept n ↦ ?_, hsound₁, hderived₁ ▸ hv, hbeside₁, by rw [hw₁],
      fun _ ↦ hcalm₁⟩
    rw [hw₁]
    exact @read_fresh _ _ _ (net.dispatch react accept n) v h hunder hv (Bool.eq_false_iff.mpr hstale)

/-- What a frame has recorded after some reads. -/
structure Recorded (w : World) (d : DerivedId) (fs : List Frame) (seen : List Source) (f : Frame) : Prop where
  frames_eq : w.frames = f :: fs
  owner_eq : f.owner = some d
  mem_iff : ∀ s, s ∈ f.sources ↔ s ∈ seen

theorem Recorded.track {fs : List Frame} {seen : List Source} {f : Frame} (h : Recorded w d fs seen f)
    (s : Source) {w' : World} (hw' : w'.frames = (w.track s).frames) :
    Recorded w' d fs (seen ++ [s]) (f.read s) := by
  refine ⟨?_, (owner_read f s).trans h.owner_eq, fun s' ↦ ?_⟩
  · rw [hw', World.track, h.frames_eq]
  · rw [List.mem_append, List.mem_singleton, ← h.mem_iff]
    unfold Frame.read
    rw [h.owner_eq]
    by_cases hmem : s ∈ f.sources
    · rw [if_neg (by simp [hmem])]
      refine (or_iff_left_of_imp ?_).symm
      rintro rfl
      exact hmem
    · rw [if_pos (by simp [hmem]), List.mem_append, List.mem_singleton]

/-- What is below a derived value that is being computed is below all that are. -/
theorem Recorded.under {fs : List Frame} {seen : List Source} {f : Frame} (hrecorded : Recorded w d fs seen f)
    (h : net.Sound none w) (he : net.Below e d) : ∀ o ∈ w.owners, Relation.TransGen net.Below e o := by
  have hbelow := h.nested.below
  rw [World.owners, hrecorded.frames_eq, List.filterMap_cons, hrecorded.owner_eq] at hbelow ⊢
  intro o ho
  rcases List.mem_cons.mp ho with rfl | ho
  · exact .single he
  · exact .head he ((List.pairwise_cons.mp hbelow).1 o ho)

/-- One that an evaluation reads at some point is below. -/
theorem below_of_asks {seen : List Source} {next : Except Fault Datum → Reading}
    (hasks : ∀ ss, (Reading.derived e next).Asks ss → (net.reading d).Asks (seen ++ ss)) : net.Below e d := by
  obtain ⟨ss, hss⟩ := (next (.ok default)).exists_asks
  have hmem : Source.derived e ∈ seen ++ .derived e :: ss := List.mem_append_right seen List.mem_cons_self
  exact (net.asks_iff d _ (hasks _ (.derived default hss)) _).mp hmem

/-- Evaluating a function, from the point where some sources have been read. -/
theorem run_leads (hcomputes : ∀ e, net.Below e d → net.Computes react e) (hd : d < net.count)
    (fs : List Frame) (r : Reading) (seen : List Source) (f : Frame)
    (hasks : ∀ ss, r.Asks ss → (net.reading d).Asks (seen ++ ss)) (h : net.Sound none w)
    (hrecorded : Recorded w d fs seen f) (hmode : w.Busy ∨ net.Ready w d) :
    ∃ v w' f' ss, Leads (fun accept n ↦ @Reading.run (net.dispatch react accept n) accept r) w (.ok v w')
        (Good (net.Ready w d) w') ∧
      r.Asks ss ∧ net.Sound none w' ∧ Recorded w' d fs (seen ++ ss) f' ∧
      (∀ e, .derived e ∈ ss → w'.Evaluated e) ∧ w.Beside w' ∧ (net.Ready w d → net.Calm w w') := by
  induction r generalizing w seen f with
  | done v =>
    refine ⟨v, w, f, [], .of_eq fun accept n ↦ rfl, .done v, h, ?_, fun e he ↦ ?_, .refl w,
      fun _ ↦ .refl w⟩
    · rw [List.append_nil]
      exact hrecorded
    · exact absurd he List.not_mem_nil
  | signal id next ih =>
    obtain ⟨w₁, hw₁⟩ : ∃ w₁, w₁ = w.track (.signal id) := ⟨_, rfl⟩
    obtain ⟨frames, htrack⟩ := track_eq w (.signal id)
    have hbeside₁ : w.Beside w₁ := by
      rw [hw₁, htrack]
      exact .setFrames w frames
    have hcalm₁ : net.Calm w w₁ := by
      rw [hw₁, htrack]
      exact .setFrames w frames
    have hasks₁ : ∀ ss, (next (w₁.valueOf id)).Asks ss →
        (net.reading d).Asks (seen ++ [.signal id] ++ ss) := by
      intro ss hss
      rw [List.append_assoc]
      exact hasks _ (.signal _ hss)
    obtain ⟨v, w', f', ss, hleads, hss, hsound, hrecorded', hevaluated, hbeside, hcalm⟩ :=
      ih (w₁.valueOf id) (seen ++ [.signal id]) (f.read (.signal id)) hasks₁ (hw₁ ▸ h.track _)
        (hrecorded.track (.signal id) (by rw [hw₁])) (hmode.imp hbeside₁.busy hcalm₁.ready)
    refine ⟨v, w', f', .signal id :: ss, ?_, .signal _ hss, hsound, ?_, fun e he ↦ ?_,
      hbeside₁.trans hbeside, fun hready ↦ hcalm₁.trans (hcalm (hcalm₁.ready hready))⟩
    · have haccepted := hleads.mono fun accept (hgood : Good (net.Ready w d) w' accept) ↦
        hgood.imp_right (And.imp_left hcalm₁.ready)
      have hthere (accept : Acceptance) (hgood : Good (net.Ready w d) w' accept) :
          accept (.signal id) (.ok (.value (w₁.valueOf id))) = true := by
        refine hgood.accepts (s := .signal id) ?_
        exact congrArg (fun v ↦ some (Datum.value v)) (hbeside.valueOf_eq id)
      refine (haccepted.accepted hthere).congr fun accept n ↦ ?_
      simp only [Reading.run, Signal.read, Act.bind_run, Act.modify_run, Act.peek, Act.get_run, Act.pure_run,
        ← hw₁]
    · rw [← List.append_cons] at hrecorded'
      exact hrecorded'
    · exact hevaluated e ((List.mem_cons.mp he).resolve_left Source.noConfusion)
  | derived e next ih =>
    have he : net.Below e d := below_of_asks hasks
    have hunder := hrecorded.under h he
    obtain ⟨v₁, w₁, hleads₁, hsound₁, hv₁, hbeside₁, hframes₁, hcalm₁⟩ :=
      read_leads (hcomputes e he) h (net.derived_lt d hd e he) hunder (hmode.imp_right fun hready ↦ hready e he)
    have hasks₁ : ∀ ss, (next (.ok v₁)).Asks ss → (net.reading d).Asks (seen ++ [.derived e] ++ ss) := by
      intro ss hss
      rw [List.append_assoc]
      exact hasks _ (.derived _ hss)
    obtain ⟨v, w', f', ss, hleads, hss, hsound, hrecorded', hevaluated, hbeside, hcalm⟩ :=
      ih (.ok v₁) (seen ++ [.derived e]) (f.read (.derived e)) hasks₁ hsound₁
        (hrecorded.track (.derived e) hframes₁)
        (hmode.imp hbeside₁.busy fun hready ↦ (hcalm₁ (hready e he)).ready hready)
    have hcalm' (hready : net.Ready w d) : net.Calm w₁ w' := hcalm ((hcalm₁ (hready e he)).ready hready)
    have hevaluated₁ : w₁.Evaluated e := Option.isSome_iff_exists.mpr ⟨v₁, hv₁⟩
    refine ⟨v, w', f', .derived e :: ss, ?_, .derived _ hss, hsound, ?_, fun e' he' ↦ ?_,
      hbeside₁.trans hbeside, fun hready ↦ (hcalm₁ (hready e he)).trans (hcalm' hready)⟩
    · have hbefore (accept : Acceptance) (hgood : Good (net.Ready w d) w' accept) :
          Good (net.Settled w e) w₁ accept :=
        hgood.before (fun hready ↦ ⟨hready e he, hcalm' hready⟩) hbeside
      have hthere (accept : Acceptance) (hgood : Good (net.Ready w d) w' accept) :
          accept (.derived e) (.ok v₁) = true := (hbefore accept hgood).accepts (s := .derived e) hv₁
      have hrest := (hleads.mono fun accept (hgood : Good (net.Ready w d) w' accept) ↦
        hgood.imp_right fun ⟨hready, haccept⟩ ↦
          ⟨(hcalm₁ (hready e he)).ready hready, haccept⟩).accepted hthere
      unfold Reading.run
      refine Leads.bind hleads₁ ?_ fun accept hgood ↦ ⟨hbefore accept hgood, hgood⟩
      exact hrest
    · rw [← List.append_cons] at hrecorded'
      exact hrecorded'
    · rcases List.mem_cons.mp he' with heq | he'
      · exact Source.derived.inj heq ▸ hbeside.evaluated e hevaluated₁
      · exact hevaluated e' he'

end Network

end LiveGraph
