import LiveGraph.Proofs.Reactive.Wiring

/-!
# What evaluations record

Whatever code over signals and derived values does, both ends of an observation say the same, wherever anybody looks.
And what an evaluation leaves as the sources of a derived value is what its own code has read in it, nothing of what
was read meanwhile.
-/

namespace LiveGraph

namespace Frame

/-- What a frame has recorded, be it in a circle or not. -/
def unflagged (f : Frame) : Frame :=
  { f with cyclic := false }

/-- The frame with some more sources. -/
def reads (f : Frame) (ss : List Source) : Frame :=
  ss.foldl read f

variable {f : Frame}

theorem unflagged_read (f : Frame) (s : Source) : (f.read s).unflagged = f.unflagged.read s := by
  unfold read
  exact apply_ite unflagged ..

theorem read_of_unowned (h : f.owner = none) (s : Source) : f.read s = f := by
  unfold read
  rw [h]
  rfl

theorem reads_of_unowned (h : f.owner = none) (ss : List Source) : f.reads ss = f := by
  induction ss with
  | nil => rfl
  | cons s rest ih => rw [reads, List.foldl_cons, read_of_unowned h, ← reads, ih]

theorem reads_append (f : Frame) (ss ss' : List Source) : f.reads (ss ++ ss') = (f.reads ss).reads ss' :=
  List.foldl_append

theorem owner_reads (f : Frame) (ss : List Source) : (f.reads ss).owner = f.owner := by
  induction ss generalizing f with
  | nil => rfl
  | cons s rest ih => exact (ih (f.read s)).trans (Network.owner_read f s)

theorem mem_read {id : DerivedId} (h : f.owner = some id) (s s' : Source) :
    s' ∈ (f.read s).sources ↔ s' ∈ f.sources ∨ s' = s := by
  unfold read
  rw [h]
  by_cases hs : s ∈ f.sources
  · rw [if_neg (by simp [hs]), or_iff_left_of_imp fun heq ↦ heq ▸ hs]
  · rw [if_pos (by simp [hs]), List.mem_append, List.mem_singleton]

/-- A frame lists what was read before and what was read since. -/
theorem mem_reads {id : DerivedId} (h : f.owner = some id) (ss : List Source) (s : Source) :
    s ∈ (f.reads ss).sources ↔ s ∈ f.sources ∨ s ∈ ss := by
  induction ss generalizing f with
  | nil => exact (or_iff_left List.not_mem_nil).symm
  | cons first rest ih =>
    have howner : (f.read first).owner = some id := (Network.owner_read f first).trans h
    rw [reads, List.foldl_cons, ← reads, ih howner, mem_read h, List.mem_cons, or_assoc]

/-- To be read in a circle changes nothing of what is recorded. -/
theorem map_unflagged_flagUpTo (id : DerivedId) (fs : List Frame) :
    ((flagUpTo? id fs).getD fs).map unflagged = fs.map unflagged := by
  have hflagged (fs' : List Frame) (h : flagUpTo? id fs = some fs') : fs'.map unflagged = fs.map unflagged := by
    induction fs generalizing fs' with
    | nil => exact nomatch h
    | cons f rest ih =>
      unfold flagUpTo? at h
      split at h
      · obtain rfl := Option.some.inj h
        rfl
      · obtain ⟨rest', hrest, rfl⟩ := Option.map_eq_some_iff.mp h
        exact congrArg (unflagged f :: ·) (ih rest' hrest)
  cases h : flagUpTo? id fs with
  | none => rfl
  | some fs' => exact hflagged fs' h

end Frame

namespace World

theorem Rewired.frames_eq {w w' : World} (h : w.Rewired w') : w'.frames = w.frames := by
  obtain ⟨_, _, rfl⟩ := h.others
  rfl

theorem frames_reap (w : World) : w.reap.frames = w.frames := by
  have hdrop (n : Nat) (w : World) : (reapDeriveds n w).frames = w.frames := by
    induction n generalizing w with
    | zero => rfl
    | succ n ih =>
      unfold reapDeriveds
      split
      · rename_i id _
        exact (ih _).trans (rewired_foldl w (fun w s ↦ rewired_removeObserver w id s) _).frames_eq
      · rfl
  exact (hdrop _ _).trans (SameLinks.reapViews w).frames_eq

theorem sources_dropDerived {w : World} {id j : DerivedId} (h : ((w.dropDerived j).derived id).dropped = false) :
    (w.derived id).dropped = false ∧ ((w.dropDerived j).derived id).sources = (w.derived id).sources := by
  have hrewired := rewired_foldl w (fun w s ↦ rewired_removeObserver w j s) (w.derived j).sources
  have hsources := congrArg Derived.sources (hrewired.derived_eq id)
  have hdropped := congrArg Derived.dropped (hrewired.derived_eq id)
  revert h
  unfold dropDerived
  dsimp only
  rw [derived_modifyDerived]
  split
  · exact fun h ↦ Bool.noConfusion h
  · exact fun h ↦ ⟨hdropped.symm.trans h, hsources⟩

/-- A derived value that is still in being observes what it did. -/
theorem sources_reap (w : World) (id : DerivedId) (h : (w.reap.derived id).dropped = false) :
    (w.reap.derived id).sources = (w.derived id).sources := by
  have hdrops (n : Nat) (w : World) (h : ((reapDeriveds n w).derived id).dropped = false) :
      (w.derived id).dropped = false ∧ ((reapDeriveds n w).derived id).sources = (w.derived id).sources := by
    induction n generalizing w with
    | zero => exact ⟨h, rfl⟩
    | succ n ih =>
      revert h
      unfold reapDeriveds
      split
      · intro h
        obtain ⟨hrest, hsources⟩ := ih _ h
        obtain ⟨hbefore, hsame⟩ := sources_dropDerived hrest
        exact ⟨hbefore, hsources.trans hsame⟩
      · exact fun h ↦ ⟨h, rfl⟩
  exact (hdrops _ _ h).2.trans ((SameLinks.reapViews w).sources_eq id)

theorem deriveds_track (w : World) (s : Source) : (w.track s).deriveds = w.deriveds := by
  unfold track
  split <;> rfl

/-- The world where the sources and the outcome of an evaluation are written down. -/
def closed (w : World) (id : DerivedId) (ss : List Source) (cyclic : Bool) : World :=
  ((w.modifyDerived id fun d ↦ { d with evaluating := false }).retrack id ss).modifyDerived id fun d ↦
    { d with cyclic := cyclic }

theorem frames_retrack (w : World) (id : DerivedId) (ss : List Source) : (w.retrack id ss).frames = w.frames := by
  let w₁ := ((w.derived id).sources.filter fun s ↦ !ss.contains s).foldl (fun w s ↦ w.removeObserver id s) w
  have hremoved : w.Rewired w₁ := rewired_foldl w (fun w s ↦ rewired_removeObserver w id s) _
  have hadded := rewired_foldl w₁ (fun w s ↦ rewired_addObserver w id s)
    (ss.filter fun s ↦ !(w.derived id).sources.contains s)
  exact hadded.frames_eq.trans hremoved.frames_eq

/-- Both ends of every observation say the same, and these are the frames, as far as anything is recorded in them. -/
structure Framed (fs : List Frame) (w : World) : Prop where
  wired : w.Wired
  frames_eq : w.frames.map Frame.unflagged = fs

/-- Something more was read within the innermost frame. -/
def Grown (fs : List Frame) (w : World) : Prop :=
  ∃ ss, w.Framed (fs.modifyHead (·.reads ss))

variable {fs : List Frame} {w w' : World}

theorem modifyHead_reads_nil (fs : List Frame) : fs.modifyHead (·.reads []) = fs := by
  cases fs <;> rfl

theorem modifyHead_reads_append (fs : List Frame) (ss ss' : List Source) :
    fs.modifyHead (·.reads (ss ++ ss')) = (fs.modifyHead (·.reads ss)).modifyHead (·.reads ss') := by
  cases fs with
  | nil => rfl
  | cons f fs => exact congrArg (· :: fs) (f.reads_append ss ss')

theorem Framed.grown (h : w.Framed fs) : w.Grown fs :=
  ⟨[], (modifyHead_reads_nil fs).symm ▸ h⟩

theorem Grown.of_reads {ss : List Source} (h : w.Grown (fs.modifyHead (·.reads ss))) : w.Grown fs := by
  obtain ⟨ss', hss'⟩ := h
  exact ⟨ss ++ ss', modifyHead_reads_append fs ss ss' ▸ hss'⟩

/-- Nothing is recorded outside of all evaluations, and where reads are not tracked. -/
def Untracked (fs : List Frame) : Prop :=
  ∀ f ∈ fs.head?, f.owner = none

theorem Untracked.reads_eq (h : Untracked fs) (ss : List Source) : fs.modifyHead (·.reads ss) = fs := by
  cases fs with
  | nil => rfl
  | cons f fs => exact congrArg (· :: fs) (Frame.reads_of_unowned (h f rfl) ss)

theorem Grown.framed (h : w.Grown fs) (hfs : Untracked fs) : w.Framed fs := by
  obtain ⟨ss, hss⟩ := h
  rwa [hfs.reads_eq] at hss

namespace Framed

theorem sameLinks (h : w.Framed fs) (hlinks : w.SameLinks w') : w'.Framed fs :=
  ⟨h.wired.sameLinks hlinks, by rw [hlinks.frames_eq, h.frames_eq]⟩

theorem reap (h : w.Framed fs) : w.reap.Framed fs :=
  ⟨h.wired.reap, by rw [w.frames_reap, h.frames_eq]⟩

theorem unpin (h : w.Framed fs) (p : Pin) : (w.unpin p).Framed fs := by
  have hpins : ({ w with pins := w.pins.erase p } : World).Framed fs := h.sameLinks (.of_eq rfl rfl rfl)
  exact hpins.reap

theorem closed {id : DerivedId} (h : w.Framed fs) (hid : id < w.deriveds.size) {ss : List Source} (hss : w.Listed ss)
    (cyclic : Bool) : (w.closed id ss cyclic).Framed fs ∧ ((w.closed id ss cyclic).derived id).sources = ss := by
  let w₁ := w.modifyDerived id fun d ↦ { d with evaluating := false }
  have hlinks : w.SameLinks w₁ := by
    apply SameLinks.modifyDerived
    exact fun _ ↦ rfl
  have hflag : (w₁.retrack id ss).SameLinks (w.closed id ss cyclic) := by
    apply SameLinks.modifyDerived
    exact fun _ ↦ rfl
  have hframed := h.sameLinks hlinks
  obtain ⟨hretrack, hsources⟩ := hframed.wired.retrack (hlinks.deriveds_size ▸ hid)
    (hss.mono fun s hs ↦ (hlinks.has_eq s).trans hs)
  refine ⟨⟨hretrack.sameLinks hflag, ?_⟩, (hflag.sources_eq id).trans hsources⟩
  rw [hflag.frames_eq, frames_retrack, hframed.frames_eq]

theorem pushFrame (h : w.Framed fs) {owner : Option DerivedId} (howner : ∀ id, owner = some id → id < w.deriveds.size) :
    (w.pushFrame owner).Framed (⟨owner, [], false⟩ :: fs) := by
  refine ⟨h.wired.setFrames (fun f hf ↦ ?_) fun f hf ↦ ?_, congrArg (_ :: ·) h.frames_eq⟩
  · rcases List.mem_cons.mp hf with rfl | hf
    · exact .nil w
    · exact h.wired.frames_listed f hf
  · rcases List.mem_cons.mp hf with rfl | hf
    · exact howner
    · exact h.wired.owners_lt f hf

theorem popFrame {f : Frame} (h : w.Framed (f :: fs)) : w.popFrame.Framed fs := by
  refine ⟨h.wired.setFrames (fun f hf ↦ ?_) fun f hf ↦ ?_, ?_⟩
  · exact h.wired.frames_listed f (List.mem_of_mem_tail hf)
  · exact h.wired.owners_lt f (List.mem_of_mem_tail hf)
  · have htail := congrArg List.tail h.frames_eq
    rwa [← List.map_tail] at htail

theorem disposeSignal (h : w.Framed fs) (id : SignalId) : (w.disposeSignal id).Framed fs := by
  refine ⟨h.wired.disposeSignal id, ?_⟩
  rw [← h.frames_eq]
  unfold World.disposeSignal
  split <;> rfl

theorem disposeDerived (h : w.Framed fs) (id : DerivedId) :
    (let w' := w.modifyDerived id fun d ↦
        { d with disposed := true, watchers := d.watchers.clear, observers := [] }
      let w' := (w'.derived id).sources.foldl (fun w s ↦ w.removeObserver id s) w'
      (w'.modifyDerived id fun d ↦ { d with sources := [] }).reap).Framed fs := by
  refine ⟨h.wired.disposeDerived id, ?_⟩
  dsimp only
  rw [frames_reap, ← h.frames_eq]
  exact congrArg _ (rewired_foldl _ (fun w s ↦ rewired_removeObserver w id s) _).frames_eq

theorem track (h : w.Framed fs) {s : Source} (hs : w.has s = true) :
    (w.track s).Framed (fs.modifyHead (·.reads [s])) := by
  have hframes := h.frames_eq
  unfold World.track
  cases hw : w.frames with
  | nil =>
    rw [hw] at hframes
    subst hframes
    exact ⟨h.wired, congrArg _ hw⟩
  | cons f rest =>
    rw [hw] at hframes
    subst hframes
    have hlisted := hw ▸ h.wired.frames_listed
    have howners := hw ▸ h.wired.owners_lt
    refine ⟨h.wired.setFrames (fun f' hf' ↦ ?_) fun f' hf' ↦ ?_, congrArg (· :: _) (Frame.unflagged_read f s)⟩
    · rcases List.mem_cons.mp hf' with rfl | hf'
      · have hf := hlisted f List.mem_cons_self
        unfold Frame.read
        split
        · rename_i hnew
          have hnot : s ∉ f.sources := fun hmem ↦ by simp [hmem] at hnew
          refine ⟨List.concat_eq_append ▸ hf.nodup.concat hnot, fun s' hs' ↦ ?_⟩
          rcases List.mem_append.mp hs' with hs' | hs'
          · exact hf.has s' hs'
          · exact List.mem_singleton.mp hs' ▸ hs
        · exact hf
      · exact hlisted f' (List.mem_cons_of_mem _ hf')
    · rcases List.mem_cons.mp hf' with rfl | hf'
      · rw [Network.owner_read]
        exact howners f List.mem_cons_self
      · exact howners f' (List.mem_cons_of_mem _ hf')

/-- What a frame that is flagged has recorded, and for whom, it has recorded before. -/
theorem flagCycle (h : w.Framed fs) (id : DerivedId) : (w.flagCycle id).Framed fs := by
  have hsame := Frame.map_unflagged_flagUpTo id w.frames
  have hbefore (f : Frame) (hf : f ∈ (w.flagCycle id).frames) : ∃ f' ∈ w.frames, f'.unflagged = f.unflagged :=
    List.mem_map.mp (hsame ▸ List.mem_map_of_mem hf)
  refine ⟨h.wired.setFrames (fun f hf ↦ ?_) fun f hf ↦ ?_, hsame.trans h.frames_eq⟩
  · obtain ⟨f', hf', heq⟩ := hbefore f hf
    have hsources : f'.sources = f.sources := (congrArg Frame.sources heq :)
    exact hsources ▸ h.wired.frames_listed f' hf'
  · obtain ⟨f', hf', heq⟩ := hbefore f hf
    have howner : f'.owner = f.owner := (congrArg Frame.owner heq :)
    exact howner ▸ h.wired.owners_lt f' hf'

/-- What the innermost frame has recorded. -/
theorem headD {f : Frame} (h : w.Framed (f :: fs)) : w.Listed f.sources ∧ (w.frames.headD default).sources = f.sources ∧
    ∀ id, f.owner = some id → id < w.deriveds.size := by
  have hframes := h.frames_eq
  cases hw : w.frames with
  | nil => exact nomatch hw ▸ hframes
  | cons f' rest =>
    rw [hw, List.map_cons, List.cons.injEq] at hframes
    have hf' : f' ∈ w.frames := hw ▸ List.mem_cons_self
    obtain ⟨rfl, -⟩ := hframes
    exact ⟨h.wired.frames_listed f' hf', rfl, h.wired.owners_lt f' hf'⟩

end Framed

theorem Framed.begun {id : DerivedId} (h : w.Framed fs) (hid : id < w.deriveds.size) :
    (w.begun id).Framed (⟨some id, [], false⟩ :: fs) := by
  have hlinks : w.SameLinks (w.modifyDerived id fun d ↦ { d with stale := false, evaluating := true }) := by
    apply SameLinks.modifyDerived
    exact fun _ ↦ rfl
  exact (h.sameLinks hlinks).pushFrame fun j hj ↦ Option.some.inj hj ▸ hlinks.deriveds_size ▸ hid

/-- A derived value in being observes exactly what was read, if that is what these sources are. -/
def Observing (w : World) (id : DerivedId) (Read : List Source → Prop) : Prop :=
  (w.derived id).dropped = false → ∃ ss, Read ss ∧ ∀ s, s ∈ (w.derived id).sources ↔ s ∈ ss

theorem Observing.sameLinks {id : DerivedId} {Read : List Source → Prop} (h : w.Observing id Read)
    (hlinks : w.SameLinks w') : w'.Observing id Read := by
  unfold Observing
  rw [hlinks.dropped_eq, hlinks.sources_eq]
  exact h

end World

/-- Reads a source that there is. -/
def Source.answer [Dispatch] (s : Source) : Act (Except Fault Datum) := do
  if (← get).has s then
    match s with
    | signal id => do
      let v ← Signal.read id
      return .ok (.value v)
    | derived id => Derived.read id
  else throw .crash

/-- What is recorded of a read. To read a derived value in a circle, or one that was disposed of, is not recorded. -/
def World.recorded (w : World) : Source → List Source
  | .signal id => [.signal id]
  | .derived id => if (w.derived id).evaluating || (w.derived id).disposed then [] else [.derived id]

/-- What code can do with signals and derived values apart from reading them. A derived value that it makes is held
until it is let go. -/
inductive Doing
  | write (id : SignalId) (v : Value)
  | watch (s : Source) (callback : Callback)
  | unwatch (s : Source) (id : Nat)
  | dispose (s : Source)
  | signal (v : Value) (equality : Equality)
  | derived (compute : Compute) (equality : Equality)
  | hold (p : Pin)
  | letGo (p : Pin)

/-- Code can only watch what there is. -/
def Doing.perform [Dispatch] : Doing → Act Unit
  | write id v => do let _ ← Signal.set id v
  | watch s callback => do
    if (← get).has s then
      let _ ← s.watch callback
  | unwatch s id => modify (·.unsubscribe (some (s.channel, id)))
  | dispose s => s.dispose
  | signal v equality => modify fun w ↦ (w.addSignal v equality .handles).2
  | derived compute equality => modify fun w ↦
    (w.addDerived compute equality).2.pin (.derived w.deriveds.size)
  | hold p => modify (·.pin p)
  | letGo p => modify (·.unpin p)

/-- Any code over signals and derived values, as a tree of what it does. -/
inductive Procedure
  | done (d : Datum)
  | halt (why : Halt)
  | look (next : World → Procedure)
  | read (s : Source) (next : Except Fault Datum → Procedure)
  | act (m : Doing) (next : Procedure)
  | untracked (body : Procedure) (next : Datum → Procedure)
  | batch (body : Procedure) (next : Datum → Procedure)

namespace Procedure

/-- Carries out some code, and tells what it comes to, and which reads of its own are to be recorded. -/
def run [Dispatch] : Procedure → Act (Datum × List Source)
  | done d => return (d, [])
  | halt why => throw why
  | look next => do run (next (← get))
  | read s next => do
    let w ← get
    let answer ← s.answer
    let (d, ss) ← run (next answer)
    return (d, w.recorded s ++ ss)
  | act m next => do
    m.perform
    run next
  | untracked body next => do
    let (d, _) ← (run body).untracked
    run (next d)
  | batch body next => do
    let (d, ss) ← LiveGraph.batch (run body)
    let (d, ss') ← run (next d)
    return (d, ss ++ ss')

open Classical in
/-- The same code under observation: it never comes back from a look at a world that is not as it should be. -/
noncomputable def checked (sound : World → Prop) : Procedure → Procedure
  | done d => done d
  | halt why => halt why
  | look next => look fun w ↦ if sound w then (next w).checked sound else halt .rounds
  | read s next => read s fun answer ↦ (next answer).checked sound
  | act m next => act m (next.checked sound)
  | untracked body next => untracked (body.checked sound) fun d ↦ (next d).checked sound
  | batch body next => batch (body.checked sound) fun d ↦ (next d).checked sound

/-- Calls and computations to a given depth. Whoever is called carries out some code, and so does whatever derived
value is computed. -/
@[reducible]
def dispatch (react : Callback → Event → Procedure) (function : DerivedId → Procedure) : Nat → Dispatch
  | 0 => ⟨0, fun _ _ ↦ throw .rounds, fun _ ↦ throw .rounds⟩
  | n + 1 =>
    { rounds := n
      call := fun callback event ↦
        letI := dispatch react function n
        do let _ ← (react callback event).run
      compute := fun id ↦
        letI := dispatch react function n
        do
          let (d, _) ← (function id).run
          return d }

end Procedure

/-- What is queued first is a derived value that is there. -/
theorem World.sameLinks_popQueued {w w' : World} {id : DerivedId} (h : w.popQueued? = some (id, w')) :
    w.SameLinks w' ∧ id < w.deriveds.size := by
  unfold popQueued? at h
  split at h
  · exact nomatch h
  · rename_i entry id' rest hqueue
    obtain ⟨rfl, rfl⟩ := Prod.mk.inj (Option.some.inj h)
    refine ⟨.of_eq rfl rfl rfl, Nat.lt_of_not_le fun hle ↦ ?_⟩
    -- what is not there counts as dropped, and what is dropped is passed over
    have hhead := List.head?_dropWhile_not (fun e : Nat × DerivedId ↦ (w.derived e.2).dropped) w.queue
    rw [hqueue, List.head?_cons] at hhead
    have hundropped : (w.derived id').dropped = false := hhead
    rw [w.derived_of_size_le hle] at hundropped
    exact Bool.noConfusion hundropped

namespace Act

open World

/-- Calls leave alone what is recorded where reads are not tracked, and computations at most add to it. -/
structure Recording (D D' : Dispatch) : Prop where
  rounds_eq : D.rounds = D'.rounds
  call : ∀ callback event fs, Untracked fs → Agree (Framed fs) (D.call callback event) (D'.call callback event)
    (fun _ ↦ Framed fs) (Framed fs)
  compute : ∀ id f fs, f.owner = some id → Agree (Framed (f :: fs)) (D.compute id) (D'.compute id)
    (fun _ ↦ Grown (f :: fs)) (Grown (f :: fs))

namespace Recording

variable {D D' : Dispatch} {fs : List Frame} {w : World} {id : DerivedId} {α : Type}

/-- A change that links nobody anew and records nothing. -/
theorem agree_same {C : World → Prop} {f : World → World} (hf : ∀ w : World, w.SameLinks (f w)) :
    Agree (Framed fs) (modify f : Act PUnit) (modify f) (fun _ ↦ Framed fs) C :=
  agree_modify fun w hw ↦ hw.sameLinks (hf w)

theorem agree_untracked {a b : Act α}
    (h : ∀ fs, Untracked fs → Agree (Framed fs) a b (fun _ ↦ Framed fs) (Framed fs)) :
    Agree (Framed fs) a.untracked b.untracked (fun _ ↦ Framed fs) (Framed fs) := by
  have hnone : Untracked (⟨none, [], false⟩ :: fs) := fun f hf ↦ Option.some.inj hf ▸ rfl
  exact Act.agree_untracked (fun _ hw ↦ hw.pushFrame fun id hid ↦ nomatch hid) (h _ hnone)
    (fun _ _ hw ↦ hw.popFrame.reap) fun _ hw ↦ hw.popFrame.reap

theorem agree_holding {a b : Act α} {p : Pin} (hw : w.Framed fs)
    (h : (w.pin p).Framed fs → Agree (· = w.pin p) a b (fun _ ↦ Framed fs) (Framed fs)) :
    Agree (· = w) (a.holding p) (b.holding p) (fun _ ↦ Framed fs) (Framed fs) :=
  agree_holding_known (h (hw.sameLinks (.of_eq rfl rfl rfl))) (fun _ _ hw ↦ hw.unpin p) fun _ hw ↦ hw.unpin p

theorem agree_dispose (s : Source) : Agree (Framed fs) s.dispose s.dispose (fun _ ↦ Framed fs) (Framed fs) := by
  cases s with
  | signal id => exact agree_modify fun w hw ↦ hw.disposeSignal id
  | derived id =>
    refine agree_get fun w hw ↦ agree_ite (fun _ ↦ ?_) fun _ ↦ agree_pure fun w' hw' ↦ hw' ▸ hw
    exact agree_modify fun w' hw' ↦ hw' ▸ hw.disposeDerived id

section Evaluating

variable {Read : List Source → Prop}

/-- Around an evaluation nothing more is recorded, and what it has recorded are sources that there are. -/
theorem agree_evaluating (hcompute : Agree (· = w.pushFrame (some id)) (D.compute id) (D'.compute id)
      (fun _ w' ↦ ∃ ss, Read ss ∧ w'.Framed (Frame.reads ⟨some id, [], false⟩ ss :: fs))
      (Grown (⟨some id, [], false⟩ :: fs))) :
    Agree (· = w) (evaluating id (D.compute id)) (evaluating id (D'.compute id)) (fun r w' ↦ w'.Framed fs ∧
      id < w'.deriveds.size ∧ w'.Listed r.2.sources ∧ ∃ ss, Read ss ∧ ∀ s, s ∈ r.2.sources ↔ s ∈ ss) (Framed fs) := by
  refine agree_bind (agree_change _) fun _ ↦ ?_
  refine agree_bind (agree_orElse hcompute fun w' ⟨ss, hw'⟩ ↦ hw'.popFrame.reap) fun v ↦ ?_
  refine agree_get fun w' ⟨ss, hread, hw'⟩ ↦ ?_
  obtain ⟨hlisted, hsources, hlt⟩ := hw'.headD
  refine agree_bind (agree_change _) fun _ ↦ agree_pure fun w'' hw'' ↦ ?_
  subst hw''
  refine ⟨hw'.popFrame, hlt id (Frame.owner_reads _ ss), hsources ▸ ⟨hlisted.nodup, hlisted.has⟩, ss, hread, fun s ↦ ?_⟩
  rw [hsources, Frame.mem_reads rfl]
  exact or_iff_right List.not_mem_nil

/-- An evaluation that is over links what it has recorded, and leaves the frames around it alone. -/
theorem agree_recompute_due (hdue : ¬((w.derived id).disposed || !(w.derived id).stale) = true)
    (hcompute : Agree (· = w.begun id) (D.compute id) (D'.compute id)
      (fun _ w' ↦ ∃ ss, Read ss ∧ w'.Framed (Frame.reads ⟨some id, [], false⟩ ss :: fs))
      (Grown (⟨some id, [], false⟩ :: fs))) :
    Agree (· = w) (@Derived.recompute D id) (@Derived.recompute D' id)
      (fun _ w' ↦ w'.Framed fs ∧ w'.Observing id Read) (Framed fs) := by
  refine agree_get fun w' hw' ↦ ?_
  subst hw'
  rw [if_neg hdue, if_neg hdue]
  refine agree_bind (agree_change _) fun _ ↦ ?_
  refine agree_bind (agree_evaluating hcompute) fun r ↦ ?_
  -- the sources are linked whatever the outcome; from here on only the value is kept
  refine agree_bind (Q := fun _ w' ↦ w'.Framed fs ∧ w'.Observing id Read) (agree_modify fun w' hw' ↦ ?_) fun _ ↦ ?_
  · obtain ⟨hframed, hlt, hlisted, ss, hread, hss⟩ := hw'
    obtain ⟨hclosed, hsources⟩ := hframed.closed hlt hlisted r.2.cyclic
    refine ⟨hclosed.reap, fun hdropped ↦ ⟨ss, hread, fun s ↦ ?_⟩⟩
    have hkept := sources_reap _ id hdropped
    exact (hkept.trans hsources).symm ▸ hss s
  refine agree_ite (fun _ ↦ agree_pure fun _ hw' ↦ hw') fun _ ↦ agree_get fun w' hw' ↦ ?_
  dsimp only
  cases (w'.derived id).value with
  | none =>
    refine agree_bind (agree_change _) fun _ ↦ agree_pure fun w'' hw'' ↦ ?_
    have hvalue : w'.SameLinks (w'.modifyDerived id fun d ↦ { d with value := some r.1 }) := by
      apply SameLinks.modifyDerived
      exact fun _ ↦ rfl
    exact hw'' ▸ ⟨hw'.1.sameLinks hvalue, hw'.2.sameLinks hvalue⟩
  | some previous =>
    refine agree_ite (fun _ ↦ agree_pure fun w'' hw'' ↦ hw'' ▸ hw') fun _ ↦ ?_
    refine agree_bind (agree_change _) fun _ ↦ agree_pure fun w'' hw'' ↦ ?_
    exact hw'' ▸ ⟨hw'.1.sameLinks (.keep w' id r.1), hw'.2.sameLinks (.keep w' id r.1)⟩

end Evaluating

variable (h : Recording D D')
include h

theorem agree_recompute : Agree (fun w ↦ w.Framed fs ∧ id < w.deriveds.size) (@Derived.recompute D id)
    (@Derived.recompute D' id) (fun _ ↦ Framed fs) (Framed fs) := by
  rintro w ⟨hw, hid⟩
  by_cases hdue : ((w.derived id).disposed || !(w.derived id).stale) = true
  · have hnothing : Agree (· = w) (@Derived.recompute D id) (@Derived.recompute D' id) (fun _ ↦ Framed fs)
        (Framed fs) := by
      refine agree_get fun w' hw' ↦ ?_
      subst hw'
      dsimp only
      rw [if_pos hdue, if_pos hdue]
      exact agree_pure fun w'' hw'' ↦ hw'' ▸ hw
    exact hnothing w rfl
  · have hbegun := hw.begun hid
    have hcompute : Agree (· = w.begun id) (D.compute id) (D'.compute id)
        (fun _ w' ↦ ∃ ss, True ∧ w'.Framed (Frame.reads ⟨some id, [], false⟩ ss :: fs))
        (Grown (⟨some id, [], false⟩ :: fs)) :=
      (h.compute id _ fs rfl).mono (fun _ hw' ↦ hw' ▸ hbegun) (fun _ _ ⟨ss, hw'⟩ ↦ ⟨ss, trivial, hw'⟩) fun _ hw' ↦ hw'
    exact ((agree_recompute_due hdue hcompute).post fun _ _ hw' ↦ hw'.1) w rfl

/-- Telling what was put off, where nothing is tracked. -/
theorem agree_effect (hfs : Untracked fs) (effect : Effect) : Agree (Framed fs) (@Effect.run D effect)
    (@Effect.run D' effect) (fun _ ↦ Framed fs) (Framed fs) := by
  have hnotify (channel : Channel) (event : Event) : Agree (Framed fs) (@notify D channel event)
      (@notify D' channel event) (fun _ ↦ Framed fs) (Framed fs) :=
    agree_notify fun callback ↦ h.call callback event fs hfs
  cases effect with
  | signal id =>
    refine agree_get fun w hw ↦ agree_ite (fun _ ↦ ?_) fun _ ↦ agree_pure fun w' hw' ↦ hw' ▸ hw
    refine agree_bind (Q := fun _ ↦ Framed fs) (agree_modify fun w' hw' ↦ hw' ▸ hw.sameLinks ?_) fun _ ↦ ?_
    · apply SameLinks.modifySignal
      exact fun _ ↦ rfl
    · refine agree_get fun w hw ↦ agree_ite (fun _ ↦ ?_) fun _ ↦ agree_pure fun w' hw' ↦ hw' ▸ hw
      exact (hnotify _ _).pre fun w' hw' ↦ hw' ▸ hw
  | derived id =>
    refine agree_get fun w hw ↦ agree_ite (fun _ ↦ ?_) fun _ ↦ agree_pure fun w' hw' ↦ hw' ▸ hw
    refine agree_holding hw fun hpinned ↦ ?_
    refine agree_bind (Q := fun _ ↦ Framed fs) (agree_modify fun w' hw' ↦ hw' ▸ hpinned.sameLinks ?_) fun _ ↦ ?_
    · apply SameLinks.modifyDerived
      exact fun _ ↦ rfl
    · refine agree_get fun w hw ↦ ?_
      dsimp only
      split
      · exact (hnotify _ _).pre fun w' hw' ↦ hw' ▸ hw
      · exact agree_pure fun w' hw' ↦ hw' ▸ hw
  | view id =>
    refine agree_get fun w hw ↦ agree_ite (fun _ ↦ ?_) fun _ ↦ agree_pure fun w' hw' ↦ hw' ▸ hw
    refine agree_holding hw fun hpinned ↦ ?_
    refine agree_bind (Q := fun _ ↦ Framed fs) (agree_modify fun w' hw' ↦ ?_) fun _ ↦ ?_
    · exact hw' ▸ hpinned.sameLinks (.of_eq rfl rfl rfl)
    · refine agree_get fun w hw ↦ agree_ite (fun _ ↦ ?_) fun _ ↦ agree_pure fun w' hw' ↦ hw' ▸ hw
      exact (hnotify _ _).pre fun w' hw' ↦ hw' ▸ hw

theorem agree_drain (n : Nat) :
    Agree (Framed fs) (@drain D n) (@drain D' n) (fun _ ↦ Framed fs) (Framed fs) := by
  induction n with
  | zero => exact fun _ _ ↦ ⟨rfl, trivial⟩
  | succ n ih =>
    refine agree_get fun w hw ↦ ?_
    match hpop : w.popQueued? with
    | some (id, w') =>
      obtain ⟨hlinks, hid⟩ := sameLinks_popQueued hpop
      refine agree_bind (agree_set (Q := fun _ ↦ (· = w')) fun _ _ ↦ rfl) fun _ ↦ agree_bind ?_ fun _ ↦ ih
      refine agree_holding (hw.sameLinks hlinks) fun hpinned ↦ ?_
      refine agree_bind (h.agree_recompute.pre fun w'' hw'' ↦ ?_) fun _ ↦ agree_pure fun _ hw ↦ hw
      exact hw'' ▸ ⟨hpinned, hlinks.deriveds_size ▸ hid⟩
    | none =>
      refine agree_get fun w' hw' ↦ ?_
      subst hw'
      match w'.effects with
      | [] => exact agree_modify fun w hw' ↦ hw' ▸ hw.sameLinks (.of_eq rfl rfl rfl)
      | effect :: rest =>
        refine agree_bind (Q := fun _ ↦ Framed fs) (agree_modify fun w hw' ↦ ?_) fun _ ↦ ?_
        · exact hw' ▸ hw.sameLinks (.of_eq rfl rfl rfl)
        · exact agree_bind (agree_untracked fun fs hfs ↦ h.agree_effect hfs effect) fun _ ↦ ih

theorem agree_flushOutside :
    Agree (Framed fs) (@flushOutside D) (@flushOutside D') (fun _ ↦ Framed fs) (Framed fs) := by
  refine agree_get fun w hw ↦ agree_ite (fun _ ↦ ?_) fun _ ↦ agree_pure fun w' hw' ↦ hw' ▸ hw
  refine agree_get fun w' hw' ↦ agree_ite (fun _ ↦ ?_) fun _ ↦ agree_pure fun w'' hw'' ↦ hw'' ▸ hw' ▸ hw
  refine agree_bind (Q := fun _ ↦ Framed fs) (agree_modify fun w'' hw'' ↦ ?_) fun _ ↦ ?_
  · exact hw'' ▸ hw' ▸ hw.sameLinks (.of_eq rfl rfl rfl)
  · rw [h.rounds_eq]
    exact agree_followedBy (h.agree_drain D'.rounds) (fun _ _ hw ↦ hw.sameLinks (.of_eq rfl rfl rfl))
      fun _ hw ↦ hw.sameLinks (.of_eq rfl rfl rfl)

/-- A batch records what its act records. -/
theorem agree_batch {a b : Act α} {F : α → List Frame} {C : World → Prop}
    (hbody : Agree (Framed fs) a b (fun x ↦ Framed (F x)) C) (hC : ∀ w d, C w → C (w.setDepth d))
    (hnext : ∀ x w, w.Framed (F x) → C w) :
    Agree (Framed fs) (@batch D α a) (@batch D' α b) (fun x ↦ Framed (F x)) C := by
  refine agree_bind (Q := fun _ ↦ Framed fs) (agree_modify fun w hw ↦ hw.sameLinks (.of_eq rfl rfl rfl)) fun _ ↦ ?_
  refine agree_bind (Q := fun x ↦ Framed (F x)) ?_ fun x ↦ ?_
  · exact agree_followedBy hbody (fun _ _ hw ↦ hw.sameLinks (.of_eq rfl rfl rfl)) fun w hw ↦ hC w _ hw
  · exact agree_bind (h.agree_flushOutside.mono (fun _ hw ↦ hw) (fun _ _ hw ↦ hw) fun w hw ↦ hnext x w hw) fun _ ↦
      agree_pure fun _ hw ↦ hw

theorem agree_set (id : SignalId) (v : Value) : Agree (Framed fs) (@Signal.set D id v) (@Signal.set D' id v)
    (fun _ ↦ Framed fs) (Framed fs) := by
  refine agree_get fun w hw ↦ agree_ite (fun _ ↦ agree_pure fun w' hw' ↦ hw' ▸ hw) fun _ ↦ ?_
  refine agree_ite (fun _ ↦ agree_pure fun w' hw' ↦ hw' ▸ hw) fun _ ↦ ?_
  have hbatch : Agree (Framed fs) (@batch D _ (modify (·.write id v))) (@batch D' _ (modify (·.write id v)))
      (fun _ ↦ Framed fs) (Framed fs) :=
    h.agree_batch (F := fun _ ↦ fs) (agree_same fun w ↦ .write w id v)
      (fun _ _ hw ↦ hw.sameLinks (.of_eq rfl rfl rfl)) fun _ _ hw ↦ hw
  exact agree_bind (hbatch.pre fun w' hw' ↦ hw' ▸ hw) fun _ ↦ agree_pure fun _ hw ↦ hw

theorem agree_refresh : Agree (fun w ↦ w.Framed fs ∧ id < w.deriveds.size) (@Derived.refresh D id)
    (@Derived.refresh D' id) (fun _ ↦ Framed fs) (Framed fs) :=
  agree_bind h.agree_recompute fun _ ↦ agree_ite (fun _ ↦ h.agree_flushOutside) fun _ ↦ agree_pure fun _ hw ↦ hw

/-- A read is recorded before anything is brought up to date for it. -/
theorem agree_read_derived (hw : w.Framed fs) (hid : id < w.deriveds.size) :
    Agree (· = w) (@Derived.read D id) (@Derived.read D' id)
      (fun _ ↦ Framed (fs.modifyHead (·.reads (w.recorded (.derived id))))) (Grown fs) := by
  refine agree_get fun w' hw' ↦ ?_
  subst hw'
  refine agree_ite (fun hevaluating ↦ ?_) fun hidle ↦ agree_ite (fun hdisposed ↦ ?_) fun hopen ↦ ?_
  · have hrecorded : w'.recorded (.derived id) = [] := if_pos (by rw [hevaluating, Bool.true_or])
    rw [hrecorded, modifyHead_reads_nil]
    exact agree_bind (agree_change _) fun _ ↦ agree_pure fun _ hw' ↦ hw' ▸ hw.flagCycle id
  · have hrecorded : w'.recorded (.derived id) = [] := if_pos (by rw [hdisposed, Bool.or_true])
    rw [hrecorded, modifyHead_reads_nil]
    exact agree_pure fun _ hw' ↦ hw' ▸ hw
  · have hrecorded : w'.recorded (.derived id) = [.derived id] :=
      if_neg (Bool.or_eq_true _ _ ▸ not_or.mpr ⟨hidle, hopen⟩)
    rw [hrecorded]
    have htracked : (w'.track (.derived id)).Framed (fs.modifyHead (·.reads [.derived id])) :=
      hw.track (decide_eq_true hid)
    refine agree_bind (agree_change _) fun _ ↦ ?_
    have hanswer : Agree (Framed (fs.modifyHead (·.reads [.derived id]))) (do
          let d := (← get).derived id
          if d.cyclic then return .error .cycle
          return d.value.elim (.error .cycle) .ok : Act (Except Fault Datum)) (do
          let d := (← get).derived id
          if d.cyclic then return .error .cycle
          return d.value.elim (.error .cycle) .ok)
        (fun _ ↦ Framed (fs.modifyHead (·.reads [.derived id]))) (Grown fs) :=
      agree_get fun w hw ↦ agree_ite (fun _ ↦ agree_pure fun w' hw' ↦ hw' ▸ hw) fun _ ↦
        agree_pure fun w' hw' ↦ hw' ▸ hw
    refine agree_ite (fun _ ↦ ?_) fun _ ↦ hanswer.pre fun w hw ↦ hw ▸ htracked
    refine agree_bind (h.agree_refresh.mono (fun w hw ↦ hw ▸ ⟨htracked, ?_⟩) (fun _ _ hw ↦ hw) fun w hw ↦ ⟨_, hw⟩)
      fun _ ↦ hanswer
    exact Nat.lt_of_lt_of_eq hid (congrArg Array.size (deriveds_track w' (.derived id))).symm

theorem agree_answer (hw : w.Framed fs) (s : Source) : Agree (· = w) (@Source.answer D s) (@Source.answer D' s)
    (fun _ ↦ Framed (fs.modifyHead (·.reads (w.recorded s)))) (Grown fs) := by
  refine agree_get fun w' hw' ↦ ?_
  subst hw'
  refine agree_ite (fun hs ↦ ?_) fun _ ↦ agree_throw fun w'' hw'' ↦ hw'' ▸ hw.grown
  cases s with
  | signal id =>
    refine agree_bind (Q := fun _ ↦ Framed _) (agree_bind (agree_change _) fun _ ↦ ?_) fun _ ↦ agree_pure fun _ hw ↦ hw
    exact agree_get fun w'' hw'' ↦ agree_pure fun _ hw' ↦ hw' ▸ hw'' ▸ hw.track hs
  | derived id => exact h.agree_read_derived hw (of_decide_eq_true hs)

theorem agree_watch (hw : w.Framed fs) {s : Source} (hs : w.has s = true) (callback : Callback) :
    Agree (· = w) (@Source.watch D callback s) (@Source.watch D' callback s) (fun _ ↦ Framed fs) (Framed fs) := by
  have hsubscribe (channel : Channel) : Agree (Framed fs) (modifyGet (·.subscribe channel callback) : Act Subscription)
      (modifyGet (·.subscribe channel callback)) (fun _ ↦ Framed fs) (Framed fs) :=
    agree_modifyGet fun w hw ↦ hw.sameLinks (.modifyWatchers w channel (·.add callback))
  cases s with
  | signal id =>
    refine agree_get fun w' hw' ↦ agree_ite (fun _ ↦ agree_pure fun w'' hw'' ↦ hw'' ▸ hw' ▸ hw) fun _ ↦ ?_
    exact (hsubscribe _).pre fun w'' hw'' ↦ hw'' ▸ hw' ▸ hw
  | derived id =>
    refine agree_get fun w' hw' ↦ ?_
    subst hw'
    refine agree_ite (fun _ ↦ agree_pure fun w'' hw'' ↦ hw'' ▸ hw) fun _ ↦ ?_
    have hpushed : (w'.pushFrame none).Framed (⟨none, [], false⟩ :: fs) := hw.pushFrame fun _ hnone ↦ nomatch hnone
    have hrefresh : Agree (fun w ↦ w.Framed (⟨none, [], false⟩ :: fs) ∧ id < w.deriveds.size) (@Derived.refresh D id)
        (@Derived.refresh D' id) (fun _ ↦ Framed (⟨none, [], false⟩ :: fs)) (Framed (⟨none, [], false⟩ :: fs)) :=
      h.agree_refresh
    refine agree_ite (fun _ ↦ agree_bind (Act.agree_untracked (fun w'' hw'' ↦ ?_) hrefresh
      (fun _ _ hw ↦ hw.popFrame.reap) fun _ hw ↦ hw.popFrame.reap) fun _ ↦ hsubscribe _) fun _ ↦ ?_
    · exact hw'' ▸ ⟨hpushed, of_decide_eq_true hs⟩
    · exact (hsubscribe _).pre fun w'' hw'' ↦ hw'' ▸ hw

/-- What code can do, apart from reading, records nothing. -/
theorem agree_perform (m : Doing) : Agree (Framed fs) (@Doing.perform D m) (@Doing.perform D' m) (fun _ ↦ Framed fs)
    (Framed fs) := by
  cases m with
  | write id v => exact agree_bind (h.agree_set id v) fun _ ↦ agree_pure fun _ hw ↦ hw
  | watch s callback =>
    refine agree_get fun w hw ↦ agree_ite (fun hs ↦ ?_) fun _ ↦ agree_pure fun w' hw' ↦ hw' ▸ hw
    exact agree_bind (h.agree_watch hw hs callback) fun _ ↦ agree_pure fun _ hw ↦ hw
  | unwatch s id => exact agree_same fun w ↦ .unsubscribe w _
  | dispose s => exact agree_dispose s
  | signal v equality => exact agree_modify fun w hw ↦ ⟨hw.wired.addSignal v equality .handles, hw.frames_eq⟩
  | derived compute equality =>
    refine agree_modify fun w hw ↦ ?_
    have hadded : (w.addDerived compute equality).2.Framed fs := ⟨hw.wired.addDerived compute equality, hw.frames_eq⟩
    exact hadded.sameLinks (.of_eq rfl rfl rfl)
  | hold p => exact agree_same fun w ↦ .of_eq rfl rfl rfl
  | letGo p => exact agree_modify fun w hw ↦ hw.unpin p

/-- Code records what it tells that it has read, and if it crashes at most as much. -/
theorem agree_run (p : Procedure) :
    Agree (Framed fs) (@Procedure.run D p) (@Procedure.run D' (p.checked Wired))
      (fun r ↦ Framed (fs.modifyHead (·.reads r.2))) (Grown fs) := by
  induction p generalizing fs with
  | done d => exact agree_pure fun w hw ↦ (modifyHead_reads_nil fs).symm ▸ hw
  | halt why => exact agree_throw fun w hw ↦ hw.grown
  | look next ih =>
    refine agree_get fun w hw ↦ ?_
    dsimp only
    rw [if_pos hw.wired]
    exact (ih w).pre fun w' hw' ↦ hw' ▸ hw
  | read s next ih =>
    refine agree_get fun w hw ↦ agree_bind (h.agree_answer hw s) fun answer ↦ ?_
    refine agree_bind ((ih answer).mono (fun _ hw ↦ hw) (fun _ _ hw ↦ hw) fun _ hw ↦ hw.of_reads) fun r ↦ ?_
    exact agree_pure fun w' hw' ↦ (modifyHead_reads_append fs (w.recorded s) r.2).symm ▸ hw'
  | act m next ih =>
    exact agree_bind ((h.agree_perform m).mono (fun _ hw ↦ hw) (fun _ _ hw ↦ hw) fun _ hw ↦ hw.grown) fun _ ↦ ih
  | untracked body next ihbody ih =>
    refine agree_bind ((agree_untracked fun fs hfs ↦ ?_).mono (fun _ hw ↦ hw) (fun _ _ hw ↦ hw) fun _ hw ↦ hw.grown)
      fun r ↦ ih r.1
    exact ihbody.mono (fun _ hw ↦ hw) (fun r _ hw ↦ hfs.reads_eq r.2 ▸ hw) fun _ hw ↦ hw.framed hfs
  | batch body next ihbody ih =>
    have hbatch := h.agree_batch (F := fun r : Datum × List Source ↦ fs.modifyHead (·.reads r.2)) ihbody
      (fun w d ⟨ss, hw⟩ ↦ ⟨ss, hw.sameLinks (.of_eq rfl rfl rfl)⟩) fun r w hw ↦ ⟨r.2, hw⟩
    refine agree_bind hbatch fun r ↦ ?_
    refine agree_bind ((ih r.1).mono (fun _ hw ↦ hw) (fun _ _ hw ↦ hw) fun _ hw ↦ hw.of_reads) fun r' ↦ ?_
    exact agree_pure fun w' hw' ↦ (modifyHead_reads_append fs r.2 r'.2).symm ▸ hw'

end Recording

end Act

namespace Procedure

open Act World

variable {react : Callback → Event → Procedure} {function : DerivedId → Procedure} {w w' : World}

theorem rounds_dispatch (react : Callback → Event → Procedure) (function : DerivedId → Procedure) (n : Nat) :
    (dispatch react function (n + 1)).rounds = n := rfl

/-- To any depth of calls, callbacks leave what is recorded alone, and computations add to it what they read. -/
theorem recording (react : Callback → Event → Procedure) (function : DerivedId → Procedure) (n : Nat) :
    Recording (dispatch react function n) (dispatch (fun callback event ↦ (react callback event).checked Wired)
      (fun id ↦ (function id).checked Wired) n) := by
  induction n with
  | zero => exact ⟨rfl, fun _ _ _ _ _ _ ↦ ⟨rfl, trivial⟩, fun _ _ _ _ _ _ ↦ ⟨rfl, trivial⟩⟩
  | succ n ih =>
    -- the rounds are compared by their equations: unfolding one dispatch into the other does not come to an end
    refine ⟨(rounds_dispatch ..).trans (rounds_dispatch ..).symm, fun callback event fs hfs ↦ ?_, fun id f fs _ ↦ ?_⟩
    · refine agree_bind ((ih.agree_run (react callback event)).mono (fun _ hw ↦ hw)
        (fun r _ hw ↦ hfs.reads_eq r.2 ▸ hw) fun _ hw ↦ hw.framed hfs) fun _ ↦ agree_pure fun _ hw ↦ hw
    · exact agree_bind (ih.agree_run (function id)) fun r ↦ agree_pure fun w hw ↦ ⟨r.2, hw⟩

/-- Each evaluation that is over has linked exactly what it has read itself: neither what was read in evaluations
within it, nor what it has read where reads are not tracked. -/
theorem recompute_links {n : Nat} {id : DerivedId} {changed : Bool} (hw : w.Wired) (hid : id < w.deriveds.size)
    (hundisposed : (w.derived id).disposed = false) (hstale : (w.derived id).stale = true)
    (hrun : @Derived.recompute (dispatch react function (n + 1)) id w = .ok changed w')
    (hundropped : (w'.derived id).dropped = false) :
    ∃ d ss w₁, @run (dispatch react function n) (function id) (w.begun id) = .ok (d, ss) w₁ ∧
      (w'.derived id).sources.Nodup ∧ ∀ s, s ∈ (w'.derived id).sources ↔ s ∈ ss := by
  let D := dispatch react function (n + 1)
  let Read (ss : List Source) : Prop :=
    ∃ d w₁, @run (dispatch react function n) (function id) (w.begun id) = .ok (d, ss) w₁
  let fs := w.frames.map Frame.unflagged
  have hframed : w.Framed fs := ⟨hw, rfl⟩
  have hcode := agree_recorded (((recording react function n).agree_run (function id)).left.pre
    fun w' (hw' : w' = w.begun id) ↦ hw' ▸ hframed.begun hid)
  have hcompute : Agree (· = w.begun id) (D.compute id) (D.compute id)
      (fun _ w' ↦ ∃ ss, Read ss ∧ w'.Framed (Frame.reads ⟨some id, [], false⟩ ss :: fs))
      (Grown (⟨some id, [], false⟩ :: fs)) := by
    refine agree_bind hcode fun r ↦ ?_
    exact agree_pure fun w' hw' ↦ ⟨r.2, ⟨r.1, w', hw'.2⟩, hw'.1⟩
  have hdue : ¬((w.derived id).disposed || !(w.derived id).stale) = true := by
    rw [hundisposed, hstale]
    exact Bool.false_ne_true
  have hout := (Recording.agree_recompute_due hdue hcompute w rfl).2
  rw [hrun] at hout
  obtain ⟨ss, ⟨d, w₁, hread⟩, hsources⟩ := hout.2 hundropped
  exact ⟨d, ss, w₁, hread, (hout.1.wired.sources_listed id).nodup, hsources⟩

/-- What is read elsewhere meanwhile, and what is read untracked, is not linked. -/
example :
    let plus (s : Source) (next : Procedure) : Procedure := .read s fun _ ↦ next
    let function : DerivedId → Procedure
      | 0 => plus (.signal 1) (.done default)
      | _ => plus (.signal 0) <| .untracked (plus (.signal 2) (.done default)) fun _ ↦
          plus (.derived 0) <| plus (.signal 0) (.done default)
    letI := dispatch (fun _ _ ↦ .done default) function 8
    let code : Procedure := .act (.signal .nil .same) <| .act (.signal .nil .same) <| .act (.signal .nil .same) <|
      .act (.derived default .same) <| .act (.derived default .same) <| plus (.derived 1) (.done default)
    (match code.run World.empty with
      | .ok _ w => [(w.derived 0).sources, (w.derived 1).sources]
      | .error _ _ => []) = [[.signal 1], [.signal 0, .derived 0]] := by
  decide +kernel

/-- The worlds that code leaves behind, one piece of code after the other, whether it comes to its end or crashes. -/
inductive Left (react : Callback → Event → Procedure) (function : DerivedId → Procedure) : World → Prop
  | start : Left react function .empty
  | ended {w w' : World} (n : Nat) (code : Procedure) (r : Datum × List Source) (h : Left react function w)
      (hrun : @run (dispatch react function n) code w = .ok r w') : Left react function w'
  | crashed {w w' : World} (n : Nat) (code : Procedure) (h : Left react function w)
      (hrun : @run (dispatch react function n) code w = .error .crash w') : Left react function w'

theorem framed_empty : World.empty.Framed [] := by
  have hnothing (s : Source) : World.empty.has s = false := by
    cases s <;> rfl
  refine ⟨⟨fun s hs ↦ ?_, fun s ↦ ?_, fun id ↦ ?_, fun _ hf ↦ (nomatch hf), fun _ hf ↦ (nomatch hf)⟩, rfl⟩
  · exact Bool.noConfusion ((hnothing s).symm.trans (observable_iff.mp hs).1)
  · exact observersOf_of_not_has (hnothing s) ▸ List.nodup_nil
  · exact .nil _

/-- Both ends of each observation say the same in each world that code leaves behind, and no evaluation is under way
there. -/
theorem Left.framed (h : Left react function w) : w.Framed [] := by
  have hnone : Untracked [] := fun f hf ↦ nomatch hf
  have hout (n : Nat) (code : Procedure) (w : World) (hw : w.Framed []) :
      Act.Outcome (fun _ ↦ Framed []) (Grown []) (@run (dispatch react function n) code w) :=
    ((recording react function n).agree_run code w hw).2
  induction h with
  | start => exact framed_empty
  | ended n code r _ hrun ih =>
    have hended := hout n code _ ih
    rw [hrun] at hended
    exact hended
  | crashed n code _ hrun ih =>
    have hcrashed := hout n code _ ih
    rw [hrun] at hcrashed
    exact hcrashed.framed hnone

/-- Wherever code looks at the world, in callbacks, evaluations and batches, both ends of each observation say the
same, whatever has crashed before. -/
theorem wired_everywhere (h : Left react function w) (n : Nat) (code : Procedure) :
    @run (dispatch react function n) code w =
      @run (dispatch (fun callback event ↦ (react callback event).checked Wired)
        (fun id ↦ (function id).checked Wired) n) (code.checked Wired) w :=
  ((recording react function n).agree_run code w h.framed).1

end Procedure

end LiveGraph
