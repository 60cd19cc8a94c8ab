import LiveGraph.Proofs.Network.Recomputation

/-!
# Glances

Reading and watching in code that belongs to no evaluation. The network stays sound. Where nothing is queued
it is quiet too: what was computed stays as it is, and at most the callbacks are others afterwards.
-/

namespace LiveGraph

namespace Note

/-- The derived value whose computation is written down. -/
def computed? : Note → Option String
  | computed name => some name
  | _ => none

/-- Who was told a value, and which one. -/
def told? : Note → Option (String × Datum)
  | value name d => some (name, d)
  | _ => none

end Note

/-- Since then callbacks may have been added or taken out. -/
structure Watchers.Later (ws ws' : Watchers) : Prop where
  issued_le : ws.issued ≤ ws'.issued
  mem_or_lt : ∀ e ∈ ws'.entries, e ∈ ws.entries ∨ ws.issued < e.1

namespace Watchers.Later

variable {ws ws' ws'' : Watchers}

theorem refl (ws : Watchers) : ws.Later ws :=
  ⟨Nat.le_refl _, fun _ he ↦ .inl he⟩

theorem trans (h : ws.Later ws') (h' : ws'.Later ws'') : ws.Later ws'' := by
  refine ⟨Nat.le_trans h.issued_le h'.issued_le, fun e he ↦ ?_⟩
  rcases h'.mem_or_lt e he with he | hlt
  · exact h.mem_or_lt e he
  · exact .inr (Nat.lt_of_le_of_lt h.issued_le hlt)

theorem add (ws : Watchers) (callback : Callback) : ws.Later (ws.add callback) := by
  refine ⟨Nat.le_succ _, fun e he ↦ ?_⟩
  rcases List.mem_append.mp he with he | he
  · exact .inl he
  · rw [List.mem_singleton.mp he]
    exact .inr (Nat.lt_succ_self _)

theorem remove (ws : Watchers) (id : Nat) : ws.Later (ws.remove id) :=
  ⟨Nat.le_refl _, fun _ he ↦ .inl (List.mem_filter.mp he).1⟩

end Watchers.Later

namespace World

/-- Two worlds within the same batches, flushes and evaluations. -/
structure Level (w w' : World) : Prop where
  depth_eq : w'.depth = w.depth
  flushing_eq : w'.flushing = w.flushing
  frames_eq : w'.frames = w.frames
  pins_eq : w'.pins = w.pins

namespace Level

variable {w w' w'' : World}

theorem refl (w : World) : w.Level w :=
  ⟨rfl, rfl, rfl, rfl⟩

theorem trans (h : w.Level w') (h' : w'.Level w'') : w.Level w'' :=
  ⟨h'.depth_eq.trans h.depth_eq, h'.flushing_eq.trans h.flushing_eq, h'.frames_eq.trans h.frames_eq,
    h'.pins_eq.trans h.pins_eq⟩

theorem owners_eq (h : w.Level w') : w'.owners = w.owners := by
  rw [owners, owners, h.frames_eq]

theorem busy (h : w.Level w') (hw : w.Busy) : w'.Busy := by
  rw [Busy, h.depth_eq, h.flushing_eq]
  exact hw

theorem of_beside (h : w.Beside w') (hframes : w'.frames = w.frames) : w.Level w' :=
  ⟨h.depth_eq, h.flushing_eq, hframes, h.pins_eq⟩

theorem modifyWatchers (w : World) (s : Source) (f : Watchers → Watchers) :
    w.Level (w.modifyWatchers s.channel f) := by
  cases s <;> exact ⟨rfl, rfl, rfl, rfl⟩

end Level

/-- Reads are recorded in evaluations only. -/
theorem track_of_owners {w : World} (h : w.owners = []) (s : Source) : w.track s = w := by
  unfold track
  cases hframes : w.frames with
  | nil => rfl
  | cons f rest =>
    have howner : f.owner = none := by
      rw [owners, hframes, List.filterMap_cons] at h
      cases hf : f.owner with
      | none => rfl
      | some o =>
        rw [hf] at h
        exact absurd h (List.cons_ne_nil _ _)
    have hread : f.read s = f := by
      rw [Frame.read, howner]
      rfl
    dsimp only
    rw [hread, ← hframes]

end World

namespace Network

/-- What happens where nothing is queued and nothing is written: some are told values, and at most derived
values are computed for the first time, and callbacks are added or taken out. -/
structure Quiet (net : Network) (told : List (String × Datum)) (w w' : World) : Prop extends w.Level w' where
  queue_eq : w'.queue = w.queue
  effects_eq : w'.effects = w.effects
  valueOf_eq : ∀ id, w'.valueOf id = w.valueOf id
  value_eq : ∀ d, w.Evaluated d → (w'.derived d).value = (w.derived d).value
  later : ∀ s : Source, (w.watchers s.channel).Later (w'.watchers s.channel)
  notes : ∃ log, w'.session.notes = log ++ w.session.notes ∧ log.reverse.filterMap Note.told? = told ∧
    ∀ n ∈ log, ∀ name, n.computed? = some name → ∃ d, name = net.name d ∧ ¬w.Evaluated d

variable {net : Network} {w w' w'' : World} {d : DerivedId}

namespace Quiet

variable {told told' : List (String × Datum)}

theorem refl (w : World) : net.Quiet [] w w :=
  ⟨.refl w, rfl, rfl, fun _ ↦ rfl, fun _ _ ↦ rfl, fun _ ↦ .refl _, [], rfl, rfl,
    fun _ h ↦ absurd h List.not_mem_nil⟩

theorem evaluated (h : net.Quiet told w w') (hd : w.Evaluated d) : w'.Evaluated d := by
  rw [World.Evaluated, h.value_eq d hd]
  exact hd

theorem trans (h : net.Quiet told w w') (h' : net.Quiet told' w' w'') : net.Quiet (told ++ told') w w'' := by
  refine ⟨h.toLevel.trans h'.toLevel, h'.queue_eq.trans h.queue_eq, h'.effects_eq.trans h.effects_eq,
    fun id ↦ (h'.valueOf_eq id).trans (h.valueOf_eq id),
    fun d hd ↦ (h'.value_eq d (h.evaluated hd)).trans (h.value_eq d hd),
    fun s ↦ (h.later s).trans (h'.later s), ?_⟩
  obtain ⟨log, hlog, htold, hcomputed⟩ := h.notes
  obtain ⟨log', hlog', htold', hcomputed'⟩ := h'.notes
  refine ⟨log' ++ log, ?_, ?_, fun n hn name hname ↦ ?_⟩
  · rw [hlog', hlog, List.append_assoc]
  · rw [List.reverse_append, List.filterMap_append, htold, htold']
  · rcases List.mem_append.mp hn with hn | hn
    · obtain ⟨d, rfl, hd⟩ := hcomputed' n hn name hname
      exact ⟨d, rfl, fun h₀ ↦ hd (h.evaluated h₀)⟩
    · exact hcomputed n hn name hname

theorem of_calm (h : net.Calm w w') (hbeside : w.Beside w') (hframes : w'.frames = w.frames) :
    net.Quiet [] w w' := by
  obtain ⟨log, hlog, hcomputed⟩ := h.notes
  refine ⟨.of_beside hbeside hframes, h.queue_eq, h.effects_eq, hbeside.valueOf_eq, h.value_eq,
    fun s ↦ ?_, log, hlog, List.filterMap_eq_nil_iff.mpr fun n hn ↦ ?_, fun n hn name hname ↦ ?_⟩
  · have hwatchers : w'.watchers s.channel = w.watchers s.channel := by
      cases s with
      | signal id => exact (congrArg Signal.watchers (hbeside.signal_eq id) :)
      | derived id => exact hbeside.watchers_eq id
    rw [hwatchers]
    exact .refl _
  · obtain ⟨d, rfl, -⟩ := hcomputed n (List.mem_reverse.mp hn)
    rfl
  · obtain ⟨d, rfl, hd⟩ := hcomputed n hn
    exact ⟨d, (Option.some.inj hname).symm, hd⟩

/-- Telling somebody a value is written down. -/
theorem note (w : World) (name : String) (v : Datum) : net.Quiet [(name, v)] w (w.note (.value name v)) := by
  refine ⟨⟨rfl, rfl, rfl, rfl⟩, rfl, rfl, fun _ ↦ rfl, fun _ _ ↦ rfl, fun _ ↦ .refl _, [.value name v], rfl, rfl,
    fun n hn name hname ↦ ?_⟩
  rw [List.mem_singleton.mp hn] at hname
  exact absurd hname (Option.some_ne_none _).symm

theorem modifyWatchers (w : World) (s : Source) {f : Watchers → Watchers} (hf : ∀ ws : Watchers, ws.Later (f ws)) :
    net.Quiet [] w (w.modifyWatchers s.channel f) := by
  cases s with
  | signal id =>
    refine ⟨.modifyWatchers w _ f, rfl, rfl, fun j ↦ ?_, fun _ _ ↦ rfl, fun s ↦ ?_, [], rfl, rfl,
      fun _ h ↦ absurd h List.not_mem_nil⟩
    · apply w.part_modifySignal Signal.value
      exact fun _ ↦ rfl
    · cases s with
      | signal j =>
        change (w.signal j).watchers.Later
          ((w.modifySignal id fun x ↦ { x with watchers := f x.watchers }).signal j).watchers
        rw [World.signal_modifySignal]
        split
        · exact hf _
        · exact .refl _
      | derived j => exact .refl _
  | derived id =>
    refine ⟨.modifyWatchers w _ f, rfl, rfl, fun _ ↦ rfl, fun j _ ↦ ?_, fun s ↦ ?_, [], rfl, rfl,
      fun _ h ↦ absurd h List.not_mem_nil⟩
    · apply w.part_modifyDerived Derived.value
      exact fun _ ↦ rfl
    · cases s with
      | signal j => exact .refl _
      | derived j =>
        change (w.derived j).watchers.Later
          ((w.modifyDerived id fun x ↦ { x with watchers := f x.watchers }).derived j).watchers
        rw [World.derived_modifyDerived]
        split
        · exact hf _
        · exact .refl _

theorem content_eq (h : net.Quiet told w w') {s : Source} {v : Datum} (hs : w.content s = some v) :
    w'.content s = some v := by
  cases s with
  | signal id =>
    refine Eq.trans ?_ hs
    exact congrArg (fun v ↦ some (Datum.value v)) (h.valueOf_eq id)
  | derived d =>
    have hd : w.Evaluated d := Option.isSome_iff_exists.mpr ⟨v, hs⟩
    exact (h.value_eq d hd).trans hs

theorem accepted (h : net.Quiet told w w') {accept : Acceptance} (haccept : w'.Accepted accept) :
    w.Accepted accept := fun s v hs ↦
  haccept s v (h.content_eq hs)

end Quiet

/-- Where nothing is queued, nothing that a derived value rests on is stale. -/
theorem Sound.settled (h : net.Sound none w) (hqueue : w.queue = []) (d : DerivedId) : net.Settled w d :=
  fun _ _ he ↦ h.fresh_of_queue hqueue he

variable (react : String → Event → Client Use)

/-- Watching a derived value, which is computed first if it is stale. -/
theorem watch_leads (h : net.Sound none w) (hd : d < net.count) (howners : w.owners = [])
    (hmode : w.Busy ∨ w.queue = []) (callback : Callback) :
    ∃ w₁, Leads (fun accept n ↦ @Derived.watch (net.dispatch react accept n) d callback) w
        (.ok (w₁.subscribe (.derived d) callback).1 (w₁.subscribe (.derived d) callback).2)
        (Good (w.queue = []) w₁) ∧
      net.Sound none w₁ ∧ w.Level w₁ ∧ (w.queue = [] → net.Quiet [] w w₁) := by
  have hidle : (w.derived d).evaluating = false := by
    refine Bool.eq_false_iff.mpr fun hon ↦ ?_
    have hmem := (h.nested.evaluating_iff d).mp hon
    rw [howners] at hmem
    exact List.not_mem_nil hmem
  have hundisposed := h.standing.undisposed_derived hd
  by_cases hstale : (w.derived d).stale = true
  · obtain ⟨w₀, hw₀⟩ : ∃ w₀, w₀ = w.pushFrame none := ⟨_, rfl⟩
    have howners₀ : w₀.owners = [] := by
      rw [hw₀]
      exact howners
    have hacyclic₀ : ∀ f ∈ (w.pushFrame none).frames, f.cyclic = false := by
      intro f hf
      rcases List.mem_cons.mp hf with rfl | hf
      · rfl
      · exact h.nested.acyclic f hf
    have hsound₀ : net.Sound none w₀ := by
      rw [hw₀]
      exact h.setFrames (w.pushFrame none).frames rfl hacyclic₀
    have hcalm₀ : net.Calm w w₀ := hw₀ ▸ .setFrames w _
    have hbeside₀ : w.Beside w₀ := hw₀ ▸ .setFrames w _
    have hderived₀ : w₀.derived d = w.derived d := by
      rw [hw₀]
      rfl
    have hsettled (hqueue : w.queue = []) : net.Settled w₀ d := hcalm₀.settled (h.settled hqueue d)
    obtain ⟨w₁, hleads, hsound₁, -, hbeside₁, hframes₁, hcalm₁⟩ :=
      refresh_leads (computes react d) hsound₀ hd (by rw [howners₀]; exact fun _ ho ↦ absurd ho List.not_mem_nil)
        (hderived₀ ▸ hstale) (hmode.imp hbeside₀.busy hsettled)
    obtain ⟨w₂, hw₂⟩ : ∃ w₂, w₂ = w₁.popFrame := ⟨_, rfl⟩
    have hframes₂ : w₂.frames = w.frames := by
      rw [hw₂]
      refine (congrArg List.tail hframes₁).trans ?_
      rw [hw₀]
      rfl
    have hsound₂ : net.Sound none w₂ := by
      rw [hw₂]
      refine hsound₁.setFrames _ ?_ fun f hf ↦ hsound₁.nested.acyclic f (List.mem_of_mem_tail hf)
      rw [World.owners, hframes₁, hw₀]
      rfl
    have hbeside₂ : w₁.Beside w₂ := hw₂ ▸ .setFrames w₁ _
    have hcalm₂ : net.Calm w₁ w₂ := hw₂ ▸ .setFrames w₁ _
    have hbeside : w.Beside w₂ := (hbeside₀.trans hbeside₁).trans hbeside₂
    refine ⟨w₂, ?_, hsound₂, .of_beside hbeside hframes₂, fun hqueue ↦
      .of_calm ((hcalm₀.trans (hcalm₁ (hsettled hqueue))).trans hcalm₂) hbeside hframes₂⟩
    have hgood := hleads.mono fun accept (hgood : Good (w.queue = []) w₂ accept) ↦
      hgood.before (fun hqueue ↦ ⟨hsettled hqueue, hcalm₂⟩) hbeside₂
    rw [hw₀] at hgood
    have huntracked := hgood.untracked (hw₂ ▸ hsound₂.standing.reap_eq)
    rw [← hw₂] at huntracked
    refine huntracked.through (fun accept n hrun ↦ ?_) fun accept n w'' hrun ↦ ⟨w'', ?_⟩
    · simp [Derived.watch, hundisposed, hstale, hidle, hrun]
    · simp [Derived.watch, hundisposed, hstale, hidle, hrun]
  · refine ⟨w, .of_eq fun accept n ↦ ?_, h, .refl w, fun _ ↦ .refl w⟩
    simp [Derived.watch, hundisposed, hstale]

/-- Glances lead on to sound networks. -/
theorem glance_leads (h : net.Sound none w) (howners : w.owners = []) (hmode : w.Busy ∨ w.queue = [])
    (g : Glance) :
    ∃ w', Leads (fun accept n ↦ @Glance.perform (net.dispatch react accept n) g) w (.ok () w')
        (Good (w.queue = []) w') ∧
      net.Sound none w' ∧ w.Level w' ∧ (w.queue = [] → net.Quiet [] w w') := by
  by_cases hhas : w.has g.target = true
  · have hperform {w' : World} {good : Acceptance → Prop}
        (hleads : Leads (fun accept n ↦ @Glance.carryOut (net.dispatch react accept n) g) w (.ok () w') good) :
        Leads (fun accept n ↦ @Glance.perform (net.dispatch react accept n) g) w (.ok () w') good :=
      hleads.congr fun accept n ↦ by simp only [Glance.perform, Act.bind_run, Act.get_run, hhas, if_true]
    cases g with
    | read s =>
      cases s with
      | signal id =>
        refine ⟨w, hperform (.of_eq fun accept n ↦ ?_), h, .refl w, fun _ ↦ .refl w⟩
        simp only [Glance.carryOut, Signal.read, Act.peek, Act.bind_run, Act.modify_run, Act.get_run,
          Act.pure_run, World.track_of_owners howners]
      | derived d =>
        have hd : d < net.count := h.standing.deriveds_size ▸ of_decide_eq_true hhas
        have hsettled (hqueue : w.queue = []) := h.settled hqueue d
        obtain ⟨v, w', hleads, hsound, -, hbeside, hframes, hcalm⟩ :=
          read_leads (computes react d) h hd (by rw [howners]; exact fun _ ho ↦ absurd ho List.not_mem_nil)
            (hmode.imp_right hsettled)
        rw [World.track_of_owners howners] at hframes
        refine ⟨w', hperform ?_, hsound, .of_beside hbeside hframes, fun hqueue ↦
          .of_calm (hcalm (hsettled hqueue)) hbeside hframes⟩
        have hgood := hleads.mono fun accept (hgood : Good (w.queue = []) w' accept) ↦
          hgood.imp_right (And.imp_left hsettled)
        exact hgood.bind_eq fun _ _ ↦ rfl
    | watch s name =>
      have htidy (ws : Watchers) (hws : ws.Tidy) : (ws.add (.script name .every [])).Tidy := hws.add name
      have hlater (ws : Watchers) : ws.Later (ws.add (.script name .every [])) := .add ws _
      cases s with
      | signal id =>
        refine ⟨w.modifyWatchers (Source.signal id).channel (·.add (.script name .every [])),
          hperform (.of_eq fun accept n ↦ ?_), h.modifyWatchers (.signal id) htidy, .modifyWatchers w _ _,
          fun _ ↦ .modifyWatchers w (.signal id) hlater⟩
        simp only [Glance.carryOut, Signal.watch, Act.bind_run, Act.get_run, h.standing.undisposed id,
          Bool.false_eq_true, if_false, Act.modifyGet_run, Act.pure_run]
        rfl
      | derived d =>
        have hd : d < net.count := h.standing.deriveds_size ▸ of_decide_eq_true hhas
        obtain ⟨w₁, hleads, hsound₁, hlevel, hquiet⟩ :=
          watch_leads react h hd howners hmode (.script name .every [])
        refine ⟨w₁.modifyWatchers (Source.derived d).channel (·.add (.script name .every [])), hperform ?_,
          hsound₁.modifyWatchers (.derived d) htidy, hlevel.trans (.modifyWatchers w₁ _ _),
          fun hqueue ↦ (hquiet hqueue).trans (.modifyWatchers w₁ (.derived d) hlater)⟩
        have hwatch : net.Quiet [] w₁
            (w₁.modifyWatchers (Source.derived d).channel (·.add (.script name .every []))) :=
          .modifyWatchers w₁ (.derived d) hlater
        have hgood := hleads.mono fun accept (hg : Good (w.queue = []) _ accept) ↦
          hg.imp_right (And.imp_right hwatch.accepted)
        exact hgood.bind_eq fun _ _ ↦ rfl
    | unwatch s id =>
      refine ⟨w.modifyWatchers s.channel (·.remove id), hperform (.of_eq fun accept n ↦ rfl),
        h.modifyWatchers s fun ws hws ↦ hws.remove id, .modifyWatchers w s _,
        fun _ ↦ .modifyWatchers w s fun ws ↦ .remove ws id⟩
  · refine ⟨w, .of_eq fun accept n ↦ ?_, h, .refl w, fun _ ↦ .refl w⟩
    simp only [Glance.perform, Act.bind_run, Act.get_run, hhas, Bool.false_eq_true, if_false, Act.pure_run]

end Network

end LiveGraph

/-!
## Rounds of a flush

What one round of a flush is about: the derived value that is queued first, or the callbacks of what is to
be told first. Around it the network is sound, outside of all evaluations, and holds on to the same things.
-/

namespace LiveGraph.Network

open Act

/-- What is true of a network wherever code is carried out that belongs to no evaluation. -/
structure Kept (net : Network) (pins : List Pin) (w : World) : Prop where
  sound : net.Sound none w
  owners_eq : w.owners = []
  pins_eq : w.pins = pins

variable {net : Network} {react : String → Event → Client Use} {w w' : World} {pins : List Pin}

theorem Sound.unpin_eq {except : Option DerivedId} {p : Pin} (h : net.Sound except w) (hpins : w.pins = p :: pins)
    (hheld : net.handles ⊆ pins) : w.unpin p = { w with pins := pins } := by
  have hstanding : net.Standing { w with pins := pins } := { h.standing with held := hheld }
  rw [World.unpin, hpins, List.erase_cons_head]
  exact hstanding.reap_eq

namespace Kept

theorem context (h : net.Kept pins w) (depth : Nat) (flushing : Bool) (session : Session) :
    net.Kept pins { w with depth := depth, flushing := flushing, session := session } :=
  ⟨h.sound.context depth flushing session h.sound.standing.held, h.owners_eq, h.pins_eq⟩

theorem depthFree : DepthFree (net.Kept pins) := fun w d h ↦
  h.context d w.flushing w.session

theorem level (h : net.Kept pins w) (hsound : net.Sound none w') (hlevel : w.Level w') : net.Kept pins w' :=
  ⟨hsound, hlevel.owners_eq.trans h.owners_eq, hlevel.pins_eq.trans h.pins_eq⟩

theorem pushFrame (h : net.Kept pins w) : net.Kept pins (w.pushFrame none) := by
  refine ⟨h.sound.setFrames (w.pushFrame none).frames rfl fun f hf ↦ ?_, h.owners_eq, h.pins_eq⟩
  rcases List.mem_cons.mp hf with rfl | hf
  · rfl
  · exact h.sound.nested.acyclic f hf

theorem popFrame (h : net.Kept pins w) : net.Kept pins w.popFrame ∧ w.popFrame.reap = w.popFrame := by
  have howners : w.popFrame.owners = [] := by
    have hnone := h.owners_eq
    unfold World.owners World.popFrame at *
    cases hframes : w.frames with
    | nil => rfl
    | cons f rest =>
      rw [hframes] at hnone
      exact List.filterMap_eq_nil_iff.mpr fun g hg ↦
        List.filterMap_eq_nil_iff.mp hnone g (List.mem_cons_of_mem f hg)
  have hsound : net.Sound none w.popFrame :=
    h.sound.setFrames w.frames.tail (howners.trans h.owners_eq.symm) fun f hf ↦
      h.sound.nested.acyclic f (List.mem_of_mem_tail hf)
  exact ⟨⟨hsound, howners, h.pins_eq⟩, hsound.standing.reap_eq⟩

/-- Holding on to one thing more. -/
theorem pin (h : net.Kept pins w) (p : Pin) : net.Kept (p :: pins) (w.pin p) :=
  ⟨h.sound.context w.depth w.flushing w.session (List.subset_cons_of_subset p h.sound.standing.held),
    h.owners_eq, congrArg (p :: ·) h.pins_eq⟩

theorem unpin {p : Pin} (h : net.Kept (p :: pins) w) (hheld : net.handles ⊆ pins) :
    net.Kept pins (w.unpin p) := by
  rw [h.sound.unpin_eq h.pins_eq hheld]
  exact ⟨h.sound.context w.depth w.flushing w.session hheld, h.owners_eq, rfl⟩

end Kept

theorem popQueued?_nil (hqueue : w.queue = []) : w.popQueued? = none := by
  rw [World.popQueued?, hqueue]
  rfl

/-- What is queued first is the next to be computed. -/
theorem Sound.popQueued?_cons (h : net.Sound none w) {entry : Nat × DerivedId} {rest : List (Nat × DerivedId)}
    (hqueue : w.queue = entry :: rest) : w.popQueued? = some (entry.2, { w with queue := rest }) := by
  have hmem : entry ∈ w.queue := hqueue ▸ List.mem_cons_self
  have hundropped := h.standing.undropped (h.standing.lt_count (h.queued.sound entry hmem).1)
  rw [World.popQueued?, hqueue, List.dropWhile_cons_of_neg (by simp [hundropped])]

/-- It is the turn of what was queued first. -/
theorem Sound.pop (h : net.Sound none w) {entry : Nat × DerivedId} {rest : List (Nat × DerivedId)}
    (hqueue : w.queue = entry :: rest) : net.Sound (some entry.2) { w with queue := rest } where
  standing := { h.standing with }
  wired := h.wired.congr (fun _ ↦ rfl) fun _ ↦ rfl
  pending := h.pending.congr (fun _ ↦ rfl) (fun _ ↦ rfl) rfl
  nested := h.nested.congr (fun _ ↦ rfl) rfl h.nested.acyclic
  queued :=
    { unevaluated := h.queued.unevaluated
      queued := fun d hne hd hstale ↦ by
        have hmem : ((w.derived d).height, d) ∈ entry :: rest :=
          hqueue ▸ h.queued.queued d (Option.some_ne_none d).symm hd hstale
        refine (List.mem_cons.mp hmem).resolve_left fun heq ↦ hne ?_
        rw [← heq]
      sound := fun e he ↦ h.queued.sound e (hqueue ▸ List.mem_cons_of_mem entry he)
      sorted := (List.pairwise_cons.mp (hqueue ▸ h.queued.sorted)).2 }

theorem Sound.of_fresh {d : DerivedId} (h : net.Sound (some d) w) (hfresh : (w.derived d).stale = false) :
    net.Sound none w :=
  { h with queued := { h.queued with
      queued := fun e _ he hstale ↦ h.queued.queued e (fun heq ↦ by
        rw [← Option.some.inj heq, hfresh] at hstale
        exact Bool.noConfusion hstale) he hstale } }

/-- An effect of a signal tells its callbacks the value. -/
theorem run_signal [Dispatch] {id : SignalId} (hpin : .signal id ∈ w.pins)
    (hundisposed : (w.signal id).disposed = false) :
    Effect.run (.signal id) w = notify (.signal id) (.value (.value (w.valueOf id)))
      (w.modifySignal id fun s ↦ { s with notifying := false }) := by
  have hheld : w.isSignalHeld id = true := by simp [World.isSignalHeld, hpin]
  have hdisposed : ((w.modifySignal id fun s ↦ { s with notifying := false }).signal id).disposed =
      (w.signal id).disposed := by
    apply w.part_modifySignal Signal.disposed
    exact fun _ ↦ rfl
  have hvalue : ((w.modifySignal id fun s ↦ { s with notifying := false }).signal id).value =
      w.valueOf id := by
    apply w.part_modifySignal Signal.value
    exact fun _ ↦ rfl
  simp only [Effect.run, bind_run, get_run, hheld, if_true, modify_run, hdisposed, hundisposed, Bool.not_false,
    hvalue]

/-- An effect of a derived value tells its callbacks the value, if there is one. -/
theorem run_derived [Dispatch] {id : DerivedId} (hundropped : (w.derived id).dropped = false)
    (hundisposed : (w.derived id).disposed = false) :
    Effect.run (.derived id) w =
      ((((w.derived id).value.elim (pure ()) fun v ↦ notify (.derived id) (.value v) : Act Unit)).followedBy
        (·.unpin (.derived id)))
          ((w.modifyDerived id fun d ↦ { d with notifying := false }).pin (.derived id)) := by
  have hpart {α : Type} (part : Derived → α) (hpart : ∀ x : Derived, part { x with notifying := false } = part x) :
      part (((w.pin (.derived id)).modifyDerived id fun d ↦ { d with notifying := false }).derived id) =
        part (w.derived id) := w.part_modifyDerived part hpart id id
  have hdisposed := hpart Derived.disposed fun _ ↦ rfl
  have hvalue := hpart Derived.value fun _ ↦ rfl
  simp only [Effect.run, holding, followedBy, bind_run, get_run, hundropped, Bool.not_false, if_true, modify_run,
    hdisposed, hundisposed, hvalue]
  cases (w.derived id).value with
  | none => rfl
  | some v => rfl

/-- What waits to be told is there. -/
theorem Sound.signal_lt {except : Option DerivedId} (h : net.Sound except w) {id : SignalId}
    (hid : .signal id ∈ w.effects) : id < net.initial.length := by
  rw [← h.standing.signals_size]
  refine Nat.lt_of_not_le fun hle ↦ ?_
  have hnotifying := (h.pending.signal_iff id).mp hid
  rw [w.signal_of_size_le hle] at hnotifying
  exact Bool.noConfusion hnotifying

theorem Sound.derived_lt {except : Option DerivedId} (h : net.Sound except w) {id : DerivedId}
    (hid : .derived id ∈ w.effects) : id < net.count := by
  rw [← h.standing.deriveds_size]
  refine Nat.lt_of_not_le fun hle ↦ ?_
  have hnotifying := (h.pending.derived_iff id).mp hid
  rw [w.derived_of_size_le hle] at hnotifying
  exact Bool.noConfusion hnotifying

end LiveGraph.Network
