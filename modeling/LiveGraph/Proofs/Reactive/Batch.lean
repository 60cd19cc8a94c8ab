import LiveGraph.Proofs.Act.Agreement
import LiveGraph.Reactive.Signal

/-!
# Batches, notifications and flushes

What is kept by a batch, by telling the callbacks of a channel and by a flush, from what is kept by
the acts they consist of. Between acts outside of all batches and flushes nothing is left to be done.
-/

namespace LiveGraph

namespace World

variable (w : World) (d : Nat)

/-- The world with another number of open batches. -/
def setDepth : World := { w with depth := d }

@[simp] theorem setDepth_setDepth (d' : Nat) : (w.setDepth d).setDepth d' = w.setDepth d' := rfl

@[simp] theorem depth_setDepth : (w.setDepth d).depth = d := rfl

@[simp] theorem flushing_setDepth : (w.setDepth d).flushing = w.flushing := rfl

@[simp] theorem setDepth_depth : w.setDepth w.depth = w := rfl

/-- Outside of batches and flushes nothing waits to be refreshed or told. -/
def Idle : Prop :=
  w.depth = 0 → w.flushing = false → w.queue = [] ∧ w.effects = []

theorem markStale_of_stale {id : DerivedId}
    (h : ((w.derived id).disposed || (w.derived id).stale) = true) : w.markStale id = w :=
  if_pos h

theorem markStale_of_fresh {id : DerivedId}
    (h : ¬((w.derived id).disposed || (w.derived id).stale) = true) :
    w.markStale id = { w.modifyDerived id fun d ↦ { d with stale := true } with
      queue := insertQueued ((w.derived id).height, id) w.queue } :=
  if_neg h

theorem deferSignal_of_told {id : SignalId}
    (h : ((w.signal id).watchers.isEmpty || (w.signal id).notifying) = true) :
    w.deferSignal id = w :=
  if_pos h

theorem deferSignal_of_untold {id : SignalId}
    (h : ¬((w.signal id).watchers.isEmpty || (w.signal id).notifying) = true) :
    w.deferSignal id = { w.modifySignal id fun s ↦ { s with notifying := true } with
      effects := w.effects ++ [.signal id] } :=
  if_neg h

theorem markStale_eq (id : DerivedId) :
    ∃ deriveds queue, w.markStale id = { w with deriveds := deriveds, queue := queue } := by
  by_cases h : ((w.derived id).disposed || (w.derived id).stale) = true
  · exact ⟨w.deriveds, w.queue, markStale_of_stale w h⟩
  · exact ⟨_, _, markStale_of_fresh w h⟩

/-- Marking changes derived values and the queue, nothing else. -/
theorem foldl_markStale_eq (ids : List DerivedId) :
    ∃ deriveds queue, ids.foldl markStale w = { w with deriveds := deriveds, queue := queue } := by
  induction ids generalizing w with
  | nil => exact ⟨w.deriveds, w.queue, rfl⟩
  | cons id rest ih =>
    obtain ⟨deriveds, queue, hid⟩ := markStale_eq w id
    obtain ⟨deriveds', queue', hrest⟩ := ih (w.markStale id)
    exact ⟨deriveds', queue', by rw [List.foldl_cons, hrest, hid]⟩

/-- Putting off changes signals and the effects, nothing else. -/
theorem deferSignal_eq (id : SignalId) :
    ∃ signals effects, w.deferSignal id = { w with signals := signals, effects := effects } := by
  by_cases h : ((w.signal id).watchers.isEmpty || (w.signal id).notifying) = true
  · exact ⟨w.signals, w.effects, deferSignal_of_told w h⟩
  · exact ⟨_, _, deferSignal_of_untold w h⟩

/-- A write changes signals, derived values and what waits, nothing else. -/
theorem write_eq (id : SignalId) (v : Value) :
    ∃ signals deriveds queue effects, w.write id v =
      { w with signals := signals, deriveds := deriveds, queue := queue, effects := effects } := by
  obtain ⟨deriveds, queue, hmark⟩ := foldl_markStale_eq (w.modifySignal id fun s ↦
    { s with value := v }) ((w.modifySignal id fun s ↦ { s with value := v }).observersOf (.signal id))
  obtain ⟨signals, effects, hdefer⟩ := deferSignal_eq ((w.modifySignal id fun s ↦
    { s with value := v }).markObservers (.signal id)) id
  refine ⟨signals, deriveds, queue, effects, ?_⟩
  rw [write, hdefer, markObservers, hmark]
  rfl

section Write

variable (id : SignalId) (v : Value)

@[simp] theorem depth_write : (w.write id v).depth = w.depth := by
  obtain ⟨_, _, _, _, h⟩ := write_eq w id v
  rw [h]

@[simp] theorem flushing_write : (w.write id v).flushing = w.flushing := by
  obtain ⟨_, _, _, _, h⟩ := write_eq w id v
  rw [h]

@[simp] theorem stores_write : (w.write id v).stores = w.stores := by
  obtain ⟨_, _, _, _, h⟩ := write_eq w id v
  rw [h]

@[simp] theorem views_write : (w.write id v).views = w.views := by
  obtain ⟨_, _, _, _, h⟩ := write_eq w id v
  rw [h]

@[simp] theorem states_write : (w.write id v).states = w.states := by
  obtain ⟨_, _, _, _, h⟩ := write_eq w id v
  rw [h]

@[simp] theorem frames_write : (w.write id v).frames = w.frames := by
  obtain ⟨_, _, _, _, h⟩ := write_eq w id v
  rw [h]

@[simp] theorem pins_write : (w.write id v).pins = w.pins := by
  obtain ⟨_, _, _, _, h⟩ := write_eq w id v
  rw [h]

@[simp] theorem session_write : (w.write id v).session = w.session := by
  obtain ⟨_, _, _, _, h⟩ := write_eq w id v
  rw [h]

end Write

theorem session_deferView (id : ViewId) : (w.deferView id).session = w.session := by
  unfold deferView
  split <;> rfl

theorem markStale_setDepth (id : DerivedId) :
    (w.setDepth d).markStale id = (w.markStale id).setDepth d := by
  by_cases h : ((w.derived id).disposed || (w.derived id).stale) = true
  · rw [markStale_of_stale w h]
    exact markStale_of_stale (w.setDepth d) h
  · rw [markStale_of_fresh w h]
    exact markStale_of_fresh (w.setDepth d) h

theorem foldl_markStale_setDepth (ids : List DerivedId) :
    ids.foldl markStale (w.setDepth d) = (ids.foldl markStale w).setDepth d := by
  induction ids generalizing w with
  | nil => rfl
  | cons id rest ih => rw [List.foldl_cons, markStale_setDepth, ih, List.foldl_cons]

theorem deferSignal_setDepth (id : SignalId) :
    (w.setDepth d).deferSignal id = (w.deferSignal id).setDepth d := by
  by_cases h : ((w.signal id).watchers.isEmpty || (w.signal id).notifying) = true
  · rw [deferSignal_of_told w h]
    exact deferSignal_of_told (w.setDepth d) h
  · rw [deferSignal_of_untold w h]
    exact deferSignal_of_untold (w.setDepth d) h

/-- A write does the same at any depth. -/
theorem write_setDepth (id : SignalId) (v : Value) :
    (w.setDepth d).write id v = (w.write id v).setDepth d := by
  have hmodify : (w.setDepth d).modifySignal id (fun s ↦ { s with value := v }) =
      (w.modifySignal id fun s ↦ { s with value := v }).setDepth d := rfl
  rw [write, hmodify, markObservers, foldl_markStale_setDepth, deferSignal_setDepth]
  rfl

end World

/-- What is true of the world, with the number of open batches and whether a flush is under way. -/
structure Held (I : World → Prop) (d : Nat) (f : Bool) (w : World) : Prop where
  holds : I w
  depth_eq : w.depth = d
  flushing_eq : w.flushing = f

/-- The same between two acts, where nothing is left to be done outside of batches and flushes. -/
structure At (I : World → Prop) (d : Nat) (f : Bool) (w : World) : Prop extends Held I d f w where
  idle : w.Idle

/-- A condition that does not depend on the number of open batches. -/
def DepthFree (I : World → Prop) : Prop :=
  ∀ w d, I w → I (w.setDepth d)

variable {I I' : World → Prop} {d : Nat} {f : Bool} {w : World}

theorem Held.mono (h : Held I d f w) (hI : ∀ w, I w → I' w) : Held I' d f w :=
  ⟨hI w h.holds, h.depth_eq, h.flushing_eq⟩

theorem At.mono (h : At I d f w) (hI : ∀ w, I w → I' w) : At I' d f w :=
  ⟨h.toHeld.mono hI, h.idle⟩

/-- Within a batch or a flush there is nothing more to it. -/
theorem Held.at_busy (h : Held I d f w) (hbusy : 0 < d ∨ f = true) : At I d f w := by
  refine ⟨h, fun hdepth hflushing ↦ ?_⟩
  rw [h.depth_eq] at hdepth
  rw [h.flushing_eq] at hflushing
  rcases hbusy with hd | hf
  · omega
  · simp [hf] at hflushing

theorem Held.setDepth (hI : DepthFree I) (h : Held I d f w) (d' : Nat) :
    Held I d' f (w.setDepth d') :=
  ⟨hI w d' h.holds, rfl, h.flushing_eq⟩

namespace Act

variable {α : Type} {D D' : Dispatch} {a b : Act α} {C : World → Prop}

/-- A flush, where it is due, for the end of a batch. -/
theorem agree_flushOutside
    (hflush : d = 0 → f = false →
      Agree (Held I 0 false) (@flush D) (@flush D') (fun _ ↦ At I 0 false) C) :
    Agree (Held I d f) (@flushOutside D) (@flushOutside D') (fun _ ↦ At I d f) C := by
  refine agree_get fun w hw ↦ ?_
  rw [hw.depth_eq]
  refine agree_ite (fun hd ↦ ?_) fun hd ↦ ?_
  · subst hd
    cases f with
    | false => exact (hflush rfl rfl).pre fun w' hw' ↦ hw' ▸ hw
    | true =>
      refine agree_get fun w' hw' ↦ ?_
      subst hw'
      simp only [hw.flushing_eq, Bool.not_true, Bool.false_eq_true, if_false]
      exact agree_pure fun w'' hw'' ↦ hw'' ▸ hw.at_busy (.inr rfl)
  · exact agree_pure fun w' hw' ↦ hw' ▸ hw.at_busy (.inl (Nat.pos_of_ne_zero hd))

/-- A batch takes on what its act keeps, once the flush after it keeps that too. -/
theorem agree_batch_result {C' : World → Prop} {R : α → Prop} (hI : DepthFree I)
    (hI' : DepthFree I')
    (hbody : Agree (Held I (d + 1) f) a b (fun x w ↦ R x ∧ Held I' (d + 1) f w) C')
    (hflush : d = 0 → f = false →
      Agree (Held I' 0 false) (@flush D) (@flush D') (fun _ ↦ At I' 0 false) C)
    (hC : ∀ w, C' w → C (w.setDepth (w.depth - 1))) :
    Agree (Held I d f) (@batch D α a) (@batch D' α b) (fun x w ↦ R x ∧ At I' d f w) C := by
  refine agree_bind (agree_modify (Q := fun _ ↦ Held I (d + 1) f) fun w hw ↦ ?_) fun _ ↦ ?_
  · rw [← hw.depth_eq]
    exact ⟨hI w (w.depth + 1) hw.holds, rfl, hw.flushing_eq⟩
  · refine agree_bind (Q := fun x w ↦ R x ∧ Held I' d f w)
      (agree_followedBy hbody (fun x w hw ↦ ⟨hw.1, ?_⟩) hC) fun x ↦ ?_
    · have hdepth : w.depth - 1 = d := by rw [hw.2.depth_eq, Nat.add_sub_cancel]
      rw [hdepth]
      exact hw.2.setDepth hI' d
    · intro w hw
      exact agree_bind (P := Held I' d f) (agree_flushOutside hflush)
        (fun _ ↦ agree_pure fun w' hw' ↦ ⟨hw.1, hw'⟩) w hw.2

theorem agree_batch {C' : World → Prop} (hI : DepthFree I) (hI' : DepthFree I')
    (hbody : Agree (Held I (d + 1) f) a b (fun _ ↦ Held I' (d + 1) f) C')
    (hflush : d = 0 → f = false →
      Agree (Held I' 0 false) (@flush D) (@flush D') (fun _ ↦ At I' 0 false) C)
    (hC : ∀ w, C' w → C (w.setDepth (w.depth - 1))) :
    Agree (Held I d f) (@batch D α a) (@batch D' α b) (fun _ ↦ At I' d f) C :=
  (agree_batch_result (R := fun _ ↦ True) hI hI' (hbody.post fun _ _ h ↦ ⟨trivial, h⟩) hflush
    hC).post fun _ _ h ↦ h.2

/-- A flush does nothing where nothing is left to be done. -/
theorem flushOutside_idle [Dispatch] (hidle : w.Idle) (hrounds : 0 < Dispatch.rounds) :
    flushOutside w = .ok () w := by
  obtain ⟨n, hn⟩ := Nat.exists_eq_succ_of_ne_zero (Nat.ne_of_gt hrounds)
  by_cases hdepth : w.depth = 0
  · cases hflushing : w.flushing with
    | true => simp [flushOutside, flush, hdepth, hflushing]
    | false =>
      obtain ⟨hqueue, heffects⟩ := hidle hdepth hflushing
      have hw : { w with queue := [], effects := [], flushing := false } = w := by
        rw [← hqueue, ← heffects, ← hflushing]
      simp only [hdepth] at hw
      simp [flushOutside, flush, followedBy, hn, drain, World.popQueued?, hdepth, hflushing,
        hqueue, heffects, hw]
  · simp [flushOutside, hdepth]

/-- A batch that changes nothing, where nothing is left to be done. -/
theorem batch_unchanged [Dispatch] {x : α} (hidle : w.Idle) (hrounds : 0 < Dispatch.rounds)
    (h : a (w.setDepth (w.depth + 1)) = .ok x (w.setDepth (w.depth + 1))) :
    batch a w = .ok x w := by
  have hbody : (a.followedBy fun w ↦ { w with depth := w.depth - 1 })
      (w.setDepth (w.depth + 1)) = .ok x w := by
    simp only [followedBy, h]
    rfl
  have hmodify : { w with depth := w.depth + 1 } = w.setDepth (w.depth + 1) := rfl
  simp only [batch, bind_run, modify_run, hmodify, hbody, flushOutside_idle hidle hrounds, pure_run]

/-- Telling some callbacks, from what holds while there are still some left to be told. Only those are told that
are still there. -/
theorem agree_notifyEach_there {channel : Channel} {event : Event}
    {P : List (Nat × Callback) → World → Prop} (callbacks : List (Nat × Callback))
    (hskip : ∀ id callback rest w, P ((id, callback) :: rest) w →
      (w.watchers channel).contains id = false → P rest w)
    (hcall : ∀ id callback rest, Agree (fun w ↦ P ((id, callback) :: rest) w ∧
        (w.watchers channel).contains id = true)
      (D.call callback event) (D'.call callback event) (fun _ ↦ P rest) (P rest)) :
    Agree (P callbacks) (@notifyEach D channel event callbacks)
      (@notifyEach D' channel event callbacks) (fun _ ↦ P []) C := by
  induction callbacks with
  | nil => exact agree_pure fun _ h ↦ h
  | cons entry rest ih =>
    obtain ⟨id, callback⟩ := entry
    refine agree_get fun w hw ↦ ?_
    refine agree_ite (fun hthere ↦ ?_) fun hgone ↦ ?_
    · have hrest := (hcall id callback rest).pre fun w' (hw' : w' = w) ↦ hw' ▸ ⟨hw, hthere⟩
      exact agree_bind (agree_contained hrest fun _ h ↦ h) fun _ ↦ ih
    · exact ih.pre fun w' hw' ↦ hskip id callback rest w' (hw' ▸ hw) (by simpa [hw'] using hgone)

theorem agree_notifyEach {channel : Channel} {event : Event}
    {P : List (Nat × Callback) → World → Prop} (callbacks : List (Nat × Callback))
    (hskip : ∀ id callback rest w, P ((id, callback) :: rest) w →
      (w.watchers channel).contains id = false → P rest w)
    (hcall : ∀ id callback rest, Agree (P ((id, callback) :: rest)) (D.call callback event)
      (D'.call callback event) (fun _ ↦ P rest) (P rest)) :
    Agree (P callbacks) (@notifyEach D channel event callbacks)
      (@notifyEach D' channel event callbacks) (fun _ ↦ P []) C :=
  agree_notifyEach_there callbacks hskip fun id callback rest ↦ (hcall id callback rest).pre fun _ h ↦ h.1

/-- Telling the callbacks of a channel keeps what each of them keeps. -/
theorem agree_notify {channel : Channel} {event : Event} {P : World → Prop}
    (hcall : ∀ callback, Agree P (D.call callback event) (D'.call callback event)
      (fun _ ↦ P) P) :
    Agree P (@notify D channel event) (@notify D' channel event) (fun _ ↦ P) C :=
  agree_get fun w hw ↦
    (agree_notifyEach (P := fun _ ↦ P) (w.watchers channel).entries (fun _ _ _ _ h _ ↦ h)
      fun _ callback _ ↦ hcall callback).pre fun _ hw' ↦ hw' ▸ hw

/-- Telling a channel that has one callback. -/
theorem agree_notify_single {channel : Channel} {event : Event} {n : Nat} {callback : Callback}
    {P Q : World → Prop} (hentries : ∀ w, P w → (w.watchers channel).entries = [(n, callback)])
    (hcall : Agree P (D.call callback event) (D'.call callback event) (fun _ ↦ Q) Q) :
    Agree P (@notify D channel event) (@notify D' channel event) (fun _ ↦ Q) C := by
  refine agree_get fun w hw ↦ ?_
  rw [hentries w hw]
  refine agree_get fun w' hw' ↦ ?_
  subst hw'
  have hthere : (w'.watchers channel).contains n = true := by
    simp [Watchers.contains, hentries w' hw]
  refine agree_ite (fun _ ↦ ?_) fun hgone ↦ absurd hthere hgone
  have hcalled := hcall.pre fun w (hw' : w = w') ↦ hw' ▸ hw
  exact agree_bind (agree_contained hcalled fun _ h ↦ h) fun _ ↦ agree_pure fun _ h ↦ h

/-- What one round of a flush keeps: computing what is queued first, or telling what is to be told
first. -/
structure Rounds (D D' : Dispatch) (I C : World → Prop) : Prop where
  rounds_eq : D.rounds = D'.rounds
  compute : ∀ w id w', Held I 0 true w → w.popQueued? = some (id, w') →
    Agree (· = w') (Act.holding (.derived id) do let _ ← @Derived.recompute D id)
      (Act.holding (.derived id) do let _ ← @Derived.recompute D' id)
      (fun _ ↦ Held I 0 true) C
  tell : ∀ w effect rest, Held I 0 true w → w.popQueued? = none → w.effects = effect :: rest →
    Agree (· = { w with queue := [], effects := rest }) (@Effect.run D effect).untracked
      (@Effect.run D' effect).untracked (fun _ ↦ Held I 0 true) C
  settled : ∀ w, Held I 0 true w → w.popQueued? = none → w.effects = [] →
    I { w with queue := [], flushing := false }

/-- The rounds of a flush, up to a world where nothing is left. -/
theorem Rounds.agree_drain {I C : World → Prop} (h : Rounds D D' I C) (n : Nat) :
    Agree (Held I 0 true) (@drain D n) (@drain D' n)
      (fun _ w ↦ At I 0 false { w with flushing := false }) C := by
  induction n with
  | zero => exact fun w _ ↦ ⟨rfl, trivial⟩
  | succ n ih =>
    refine agree_get fun w hw ↦ ?_
    match hpop : w.popQueued? with
    | some (id, w') =>
      refine agree_bind (agree_set (Q := fun _ ↦ (· = w')) fun _ _ ↦ rfl) fun _ ↦ ?_
      exact agree_bind (h.compute w id w' hw hpop) fun _ ↦ ih
    | none =>
      refine agree_get fun w' hw' ↦ ?_
      obtain rfl : w = w' := hw'.symm
      match heffects : w.effects with
      | [] =>
        refine agree_modify fun w' hw' ↦ ?_
        subst hw'
        exact ⟨⟨h.settled w' hw hpop heffects, hw.depth_eq, rfl⟩, fun _ _ ↦ ⟨rfl, heffects⟩⟩
      | effect :: rest =>
        refine agree_bind (agree_modify
          (Q := fun _ ↦ (· = { w with queue := [], effects := rest })) fun w' hw' ↦ ?_) fun _ ↦ ?_
        · rw [hw']
        · exact agree_bind (h.tell w effect rest hw hpop heffects) fun _ ↦ ih

/-- A flush keeps what its rounds keep, and leaves nothing to be done. -/
theorem Rounds.agree_flush {I C C' : World → Prop} (h : Rounds D D' I C)
    (hI : ∀ w, Held I 0 false w → I { w with flushing := true })
    (hC : ∀ w, C w → C' { w with flushing := false }) :
    Agree (Held I 0 false) (@flush D) (@flush D') (fun _ ↦ At I 0 false) C' := by
  refine agree_get fun w hw ↦ ?_
  simp only [hw.flushing_eq, Bool.not_false, if_true]
  refine agree_bind (agree_modify (Q := fun _ ↦ Held I 0 true) fun w' hw' ↦ ?_) fun _ ↦ ?_
  · subst hw'
    exact ⟨hI w' hw, hw.depth_eq, rfl⟩
  · rw [← h.rounds_eq]
    exact agree_followedBy (h.agree_drain _) (fun _ _ h ↦ h) hC

/-- A flush where nothing is to be computed and nobody is to be told. -/
theorem agree_flush_quiet {P : World → Prop} (hrounds : D.rounds = D'.rounds)
    (hquiet : ∀ w, P w → w.queue = [] ∧ w.effects = [])
    (hP : ∀ w f, P w → P { w with flushing := f }) :
    Agree (Held P 0 false) (@flush D) (@flush D') (fun _ ↦ At P 0 false) C := by
  have hround : Rounds D D' P fun _ ↦ False :=
    { rounds_eq := hrounds
      compute := fun w id w' hw hpop ↦ by
        simp [World.popQueued?, (hquiet w hw.holds).1] at hpop
      tell := fun w effect rest hw _ heffects ↦ by
        rw [(hquiet w hw.holds).2] at heffects
        exact nomatch heffects
      settled := fun w hw _ _ ↦ by
        have hdone := hP w false hw.holds
        rwa [← (hquiet w hw.holds).1] }
  exact hround.agree_flush (fun w hw ↦ hP w true hw.holds) fun _ h ↦ h.elim

end Act

end LiveGraph
