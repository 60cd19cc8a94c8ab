import LiveGraph.Proofs.Client.Run
import LiveGraph.Proofs.Store.Callbacks
import LiveGraph.Proofs.Store.Ground

/-!
# Integrity of a store under code that listens to it

Whatever code does to a store, in whatever order and from within whichever listener, every look at
the world finds the store sound: what is read by URI, by type and by edge fits together, and an
entity can be added exactly where there is none. The code is compared with itself under
observation, which never comes back from a look at a store that is not sound.

## What lasts in a store

Whatever is done to the first store, there are only new incarnations and ended ones afterwards: none
changes its URI, and none that has ended is in being again. What stays true under that can be relied
on through all operations and within all callbacks, whatever code these carry out, along with the
ground that the store stands on.
-/

namespace LiveGraph

/-- A world some time later, as far as its incarnations and its session go: there may be new ones, and
some of the old may have ended. -/
structure Later (w w' : World) : Prop where
  session_eq : w'.session = w.session
  size_le : (w.store 0).incarnations.size ≤ (w'.store 0).incarnations.size
  uri_eq : ∀ n, 0 < n → n ≤ (w.store 0).incarnations.size →
    ((w'.store 0).incarnation n).uri = ((w.store 0).incarnation n).uri
  ended : ∀ n, 0 < n → n ≤ (w.store 0).incarnations.size → ((w.store 0).incarnation n).live = false →
    ((w'.store 0).incarnation n).live = false

/-- A condition that stays true as time goes by. -/
def Lasting (X : World → Prop) : Prop :=
  ∀ w w', Later w w' → X w → X w'

theorem lasting_true : Lasting fun _ ↦ True := fun _ _ _ _ ↦ trivial

namespace World

variable (w : World)

theorem session_foldl {α : Type} {F : World → α → World} (h : ∀ w x, (F w x).session = w.session) (xs : List α) :
    (xs.foldl F w).session = w.session := by
  induction xs generalizing w with
  | nil => rfl
  | cons x xs ih => rw [List.foldl_cons, ih, h]

theorem session_counted (t : Topic) : (w.counted t).session = w.session := by
  obtain heq | ⟨id, v, -, heq⟩ := w.counted_cases t
  · rw [heq]
  · rw [heq, session_write]

theorem session_modifyWatchers (channel : Channel) (F : Watchers → Watchers) :
    (w.modifyWatchers channel F).session = w.session := by
  cases channel <;> rfl

theorem session_unsubscribe (sub : Subscription) : (w.unsubscribe sub).session = w.session := by
  match sub with
  | none => rfl
  | some (channel, id) => exact w.session_modifyWatchers channel _

theorem session_disposeSignal (id : SignalId) : (w.disposeSignal id).session = w.session := by
  unfold disposeSignal
  split <;> rfl

theorem session_retire (e : EntityRef) : (w.retire e).session = w.session := by
  unfold retire
  rw [session_disposeSignal, session_foldl _ session_disposeSignal]
  rfl

theorem session_retireClocks (s : StoreId) (uri : Uri) : (w.retireClocks s uri).session = w.session := by
  unfold retireClocks
  dsimp only
  split <;> rfl

theorem session_shutView (id : ViewId) : (w.shutView id).session = w.session := by
  unfold shutView
  split
  · rfl
  · exact session_foldl w session_unsubscribe _

theorem session_reap (h : w.deriveds = #[]) : w.reap.session = w.session := by
  have hviews : w.reapViews.session = w.session := by
    refine session_foldl w (fun w id ↦ ?_) _
    split
    · rfl
    · exact w.session_shutView id
  rw [reap, show w.deriveds.size = 0 by rw [h]; rfl]
  exact hviews

end World

namespace Later

variable {w w' w'' : World}

theorem refl (w : World) : Later w w :=
  ⟨rfl, Nat.le_refl _, fun _ _ _ ↦ rfl, fun _ _ _ h ↦ h⟩

theorem trans (h : Later w w') (h' : Later w' w'') : Later w w'' where
  session_eq := h'.session_eq.trans h.session_eq
  size_le := h.size_le.trans h'.size_le
  uri_eq n hpos hle := (h'.uri_eq n hpos (hle.trans h.size_le)).trans (h.uri_eq n hpos hle)
  ended n hpos hle hended := h'.ended n hpos (hle.trans h.size_le) (h.ended n hpos hle hended)

theorem same (h : SameGround w w') (hsession : w'.session = w.session) : Later w w' where
  session_eq := hsession
  size_le := Nat.le_of_eq h.store.size_eq.symm
  uri_eq n hpos _ := h.store.uri_eq n hpos
  ended n hpos _ hended := (h.store.flag_eq n hpos).trans hended

/-- A change of other parts of the stores. -/
theorem modifyStore (w : World) (s : StoreId) (F : Store → Store)
    (h : ∀ s : Store, (F s).incarnations = s.incarnations) : Later w (w.modifyStore s F) := by
  have heq : ((w.modifyStore s F).store 0).incarnations = (w.store 0).incarnations :=
    w.part_modifyStore (·.incarnations) h s 0
  have hincarnation : ∀ n, ((w.modifyStore s F).store 0).incarnation n = (w.store 0).incarnation n := by
    intro n
    rw [Store.incarnation, heq, Store.incarnation]
  exact ⟨rfl, Nat.le_of_eq (congrArg Array.size heq.symm), fun n _ _ ↦ congrArg Entity.uri (hincarnation n),
    fun n _ _ hended ↦ (congrArg Entity.live (hincarnation n)).trans hended⟩

theorem enlist (w : World) (e : EntityRef) : Later w (w.enlist e) :=
  modifyStore w e.store _ fun _ ↦ rfl

theorem addIncarnation (h : Ground (fun _ ↦ False) w) (uri : Uri) (kind : String) :
    Later w (w.addIncarnation 0 uri kind).2 := by
  have hstore := h.store_addIncarnation uri kind
  have hold : ∀ n, 0 < n → n ≤ (w.store 0).incarnations.size →
      ((w.addIncarnation 0 uri kind).2.store 0).incarnation n = (w.store 0).incarnation n := by
    intro n hpos hle
    rw [hstore, Store.incarnation_push, if_neg (by omega)]
  refine ⟨rfl, ?_, fun n hpos hle ↦ ?_, fun n hpos hle hended ↦ ?_⟩
  · rw [hstore]
    simp
  · rw [hold n hpos hle]
  · rw [hold n hpos hle, hended]

/-- An entity that is removed has ended, and no other. -/
theorem strike (h : Ground (fun _ ↦ False) w) {uri : Uri} {e : EntityRef} (hfound : w.find? 0 uri = some e) :
    Later w ((w.strike e).2.retire e) := by
  have hsame := OnGround.sameGraph_strike h hfound
  have hlive := (World.live_of_find? hfound).2
  have hserial := h.coherent.pos hlive
  have hstruck : ∀ n, 0 < n → ((w.store 0).without uri e.serial).incarnation n =
      if e.serial = n ∧ n ≤ (w.store 0).incarnations.size then { (w.store 0).incarnation n with live := false }
      else (w.store 0).incarnation n := fun n hpos ↦
    (w.store 0).incarnation_modify e.serial (fun x ↦ { x with live := false }) n hserial hpos
  refine ⟨?_, Nat.le_of_eq ?_, fun n hpos _ ↦ ?_, fun n hpos _ hended ↦ ?_⟩
  · rw [World.session_retire]
    rfl
  · exact (hsame.size_eq.trans Array.size_modify).symm
  · rw [hsame.uri_eq n hpos, hstruck n hpos]
    split <;> rfl
  · rw [hsame.flag_eq n hpos, hstruck n hpos]
    split
    · rfl
    · exact hended

end Later

/-- The ground of a session without derived values, at each stage of an operation, and something that
lasts. -/
def PlainGround (X : World → Prop) : Staged := fun stage _ w ↦
  OnGround stage w ∧ Plain w ∧ X w

namespace PlainGround

variable {X : World → Prop} {stage stage' : Stage} {ks ks' : List Topic} {w w' : World}

theorem pass (h : PlainGround X stage ks w) (hX : Lasting X) (hlater : Later w w') (hground : OnGround stage' w')
    (hplain : Plain w') : PlainGround X stage' ks' w' :=
  ⟨hground, hplain, hX w w' hlater h.2.2⟩

theorem same (h : PlainGround X stage ks w) (hX : Lasting X) (hw : SameGround w w')
    (hsession : w'.session = w.session) : PlainGround X stage ks' w' :=
  h.pass hX (.same hw hsession) (h.1.same hw) (h.2.1.same hw)

theorem blind (hX : Lasting X) : Act.Blind (PlainGround X stage ks) where
  plain _ h := h.2.1
  context _ d f frames pins h := h.pass hX ⟨rfl, Nat.le_refl _, fun _ _ _ ↦ rfl, fun _ _ _ h ↦ h⟩
    (OnGround.context h.1 d f frames pins) ⟨h.2.1.noDeriveds, h.2.1.queue_eq⟩
  reap w h := h.same hX (.reap w h.2.1.noDeriveds) (w.session_reap h.2.1.noDeriveds)
  write id w v h _ := h.same hX (.write w id v) (w.session_write id v)
  modifyView w id F h := h.same hX (.modifyView w id F) rfl
  deferView w id h := h.same hX (.deferView w id) (w.session_deferView id)

theorem depthFree (hX : Lasting X) : DepthFree (PlainGround X stage ks) := (blind hX).depthFree

end PlainGround

/-- Where all callbacks keep the ground and what lasts, and do the same by two ways of calling them. -/
structure Alike (X : World → Prop) (D D' : Dispatch) : Prop where
  lasting : Lasting X
  rounds_eq : D.rounds = D'.rounds
  call : ∀ callback event d f, 0 < d ∨ f = true →
    Act.Agree (Held (PlainGround X).settled d f) (D.call callback event) (D'.call callback event)
      (fun _ ↦ Held (PlainGround X).settled d f) (Held (PlainGround X).settled d f)
  script : ∀ name filter reaction event d f,
    Act.Agree (At (PlainGround X).settled d f) (D.call (.script name filter reaction) event)
      (D'.call (.script name filter reaction) event) (fun _ ↦ At (PlainGround X).settled d f)
      (Held (PlainGround X).settled d f)

namespace Alike

open Act

variable {X : World → Prop} {D D' : Dispatch} {C : World → Prop} {d : Nat} {f : Bool}

theorem agree_notify (h : Alike X D D') (hbusy : 0 < d ∨ f = true) (channel : Channel)
    (event : Event) :
    Agree (Held (PlainGround X).settled d f) (@notify D channel event) (@notify D' channel event)
      (fun _ ↦ Held (PlainGround X).settled d f) C :=
  Act.agree_notify fun callback ↦ h.call callback event d f hbusy

variable (h : Alike X D D')
include h

/-- Telling what was put off. -/
theorem agree_effect (effect : Effect) :
    Agree (Held (PlainGround X).settled 0 true) (@Effect.run D effect) (@Effect.run D' effect)
      (fun _ ↦ Held (PlainGround X).settled 0 true) fun _ ↦ False := by
  match effect with
  | .signal id =>
    refine agree_get fun w hw ↦ agree_ite (fun _ ↦ ?_) fun _ ↦ agree_pure fun w' hw' ↦ hw' ▸ hw
    refine agree_bind (agree_modify (Q := fun _ ↦ Held (PlainGround X).settled 0 true) fun w' hw' ↦
      hw' ▸ ⟨hw.holds.same h.lasting (.modifySignal w id _) rfl, hw.depth_eq, hw.flushing_eq⟩)
      fun _ ↦ agree_get fun w hw ↦ ?_
    refine agree_ite (fun _ ↦ ?_) fun _ ↦ agree_pure fun w' hw' ↦ hw' ▸ hw
    exact (h.agree_notify (.inr rfl) _ _).pre fun w' hw' ↦ hw' ▸ hw
  | .derived id => exact (PlainGround.blind h.lasting).agree_effect_derived id
  | .view id => exact (PlainGround.blind h.lasting).agree_effect_view (h.agree_notify (.inr rfl)) id

theorem rounds : Rounds D D' (PlainGround X).settled fun _ ↦ False :=
  (PlainGround.blind h.lasting).rounds h.rounds_eq fun _ effect _ _ hw _ ↦
    (h.agree_effect effect).pre fun _ hw' ↦ hw' ▸ ⟨hw.holds.same h.lasting ⟨.refl _, rfl, fun hnone ↦
      ⟨hnone, hw.holds.2.1.queue_eq.symm⟩, rfl, rfl, rfl, rfl⟩ rfl, hw.depth_eq, hw.flushing_eq⟩

theorem agree_flush : Agree (Held (PlainGround X).settled 0 false) (@flush D) (@flush D')
    (fun _ ↦ At (PlainGround X).settled 0 false) fun _ ↦ False :=
  (PlainGround.blind h.lasting).agree_flush h.rounds

/-- All operations keep the ground. -/
theorem kept : Kept (PlainGround X) 0 D D' fun _ ↦ False where
  depthFree _ _ := PlainGround.depthFree h.lasting
  write _ _ w _ id v hw _ _ _ _ _ := hw.same h.lasting (.write w id v) (w.session_write id v)
  count _ key _ w hw := hw.same h.lasting (.counted w _) (w.session_counted _)
  flush := h.agree_flush
  crash _ _ h := h
  store_eq w e hw := hw.1.store_eq
  found w uri e hw hfound := hw.1.coherent.pos (World.live_of_find? hfound).2
  held _ w hw := OnGround.held hw.1
  addProperty w e prop v _ _ hw _ hserial _ _ := by
    have hheld : PlainGround X (.whole {e}) [] w := hw.holds
    have hadded : PlainGround X (.whole {e}) [] (w.addProperty e prop v).2 :=
      hheld.same h.lasting (.addProperty w e prop v hserial) rfl
    have hcounted : PlainGround X (.whole {e}) [] ((w.addProperty e prop v).2.counted (.signal (w.entity e).shape)) :=
      hadded.same h.lasting (.counted _ _) (World.session_counted _ _)
    exact agree_advance (PlainGround.depthFree h.lasting) (hw.quiet (w.quiet_addProperty e prop v) rfl) hcounted
      fun _ _ ↦ h.agree_flush
  reindex untold _ w e hw _ _ := by
    have hground : OnGround (.filed untold e) w := hw.1
    exact hw.pass h.lasting (.same (.reindex w e) rfl) (hground.same (.reindex w e)) (hw.2.1.same (.reindex w e))
  obsolete _ _ _ hw _ _ := hw
  updated _ _ d _ _ := (h.agree_notify (.inl (Nat.succ_pos d)) _ _).pre
    fun _ hw ↦ hw.mono fun _ hw ↦ hw.1
  addIncarnation w uri kind hw hfree := hw.pass h.lasting (.addIncarnation hw.1 uri kind)
    (OnGround.addIncarnation hw.1 uri kind hfree) ⟨hw.2.1.noDeriveds, hw.2.1.queue_eq⟩
  coming _ _ _ _ hw := OnGround.coming hw.1
  addComing w e uri kind prop v hw _ :=
    hw.same h.lasting (.addProperty w e prop v hw.1.2.serial_pos) rfl
  enlist w e uri kind hw :=
    ⟨hw.pass h.lasting (.enlist w e) (OnGround.enlist hw.1).1 ⟨hw.2.1.noDeriveds, hw.2.1.queue_eq⟩,
      (OnGround.enlist hw.1).2⟩
  added _ d _ _ := (h.agree_notify (.inl (Nat.succ_pos d)) _ _).pre
    fun _ hw ↦ hw.mono fun _ hw ↦ hw.1
  strike w uri e hw hfound := by
    have hplain : Plain ((w.strike e).2.modifyEntity e fun x ↦ { x with live := false }) :=
      ⟨hw.2.1.noDeriveds, hw.2.1.queue_eq⟩
    exact hw.pass h.lasting (.strike hw.1 hfound) (OnGround.strike hw.1 hfound)
      (hplain.same (.retire (w.strike e).2 e))
  cut stage _ _ d _ hvisible := by
    match stage with
    | .whole _ => exact h.agree_notify (.inl (Nat.succ_pos d)) _ _
    | .filed _ _ => exact hvisible.elim
    | .gone _ => exact h.agree_notify (.inl (Nat.succ_pos d)) _ _
  removed _ d _ _ := h.agree_notify (.inl (Nat.succ_pos d)) _ _
  retireClocks w uri hw := hw.same h.lasting (.retireClocks w 0 uri) (w.session_retireClocks 0 uri)
  link w edge atFront edges hw hsource htarget hinsert := hw.pass h.lasting (.modifyStore w 0 _ fun _ ↦ rfl)
    (OnGround.link hw.1 hsource htarget hinsert) ⟨hw.2.1.noDeriveds, hw.2.1.queue_eq⟩
  linked _ d _ := h.agree_notify (.inl (Nat.succ_pos d)) _ _
  unlink w edge edges hw hremove := hw.pass h.lasting (.modifyStore w 0 _ fun _ ↦ rfl)
    (OnGround.unlink hw.1 hremove) ⟨hw.2.1.noDeriveds, hw.2.1.queue_eq⟩

theorem agree_propertyChanged (hbusy : 0 < d ∨ f = true) (e : EntityRef) (prop : String) :
    Agree (Held (PlainGround X).settled d f) (@Entity.propertyChanged D e prop)
      (@Entity.propertyChanged D' e prop) (fun _ ↦ Held (PlainGround X).settled d f)
      fun _ ↦ False := by
  by_cases he : e.store = 0
  · exact (h.kept.agree_propertyChanged h.kept.flushes he prop).mono
      (fun w hw ↦ hw.at_busy hbusy) (fun _ w hw ↦ hw.toHeld) fun _ h ↦ h
  · refine agree_get fun w hw ↦ ?_
    rw [Ground.not_isCurrent hw.holds.1 he]
    exact agree_pure fun w' hw' ↦ hw' ▸ hw

/-- The callbacks of the session itself keep the ground. -/
theorem agree_callback (hbusy : 0 < d ∨ f = true) (callback : Callback) (event : Event)
    (hscript : ∀ name filter reaction, callback ≠ .script name filter reaction) :
    Agree (Held (PlainGround X).settled d f) (@Callback.run D callback event)
      (@Callback.run D' callback event) (fun _ ↦ Held (PlainGround X).settled d f)
      fun _ ↦ False :=
  (PlainGround.blind h.lasting).agree_callback (h.agree_notify hbusy) hbusy (h.agree_propertyChanged hbusy)
    callback event hscript

theorem left : Alike X D D where
  lasting := h.lasting
  rounds_eq := rfl
  call callback event d f hbusy := (h.call callback event d f hbusy).left
  script name filter reaction event d f := (h.script name filter reaction event d f).left

end Alike

section Clients

open Act

variable {X P : World → Prop} {Op : Type} {perform : [Dispatch] → Op → Act Unit}

/-- Callbacks carry out code that is made of operations which keep the ground and what lasts. Then they
do so to any depth of calls, and do the same where the code is under observation for something that
follows. -/
theorem alike_clients (hX : Lasting X) (hP : ∀ d f w, At (PlainGround X).settled d f w → P w)
    (hperform : ∀ D D', Alike X D D' → ∀ op d f, Agree (At (PlainGround X).settled d f) (@perform D op)
      (@perform D' op) (fun _ ↦ At (PlainGround X).settled d f) (Held (PlainGround X).settled d f))
    (react : String → Event → Client Op) (n : Nat) :
    Alike X (Client.dispatch perform react n)
      (Client.dispatch perform (fun name event ↦ (react name event).checked P) n) := by
  induction n with
  | zero => exact ⟨hX, rfl, fun _ _ _ _ _ _ _ ↦ ⟨rfl, trivial⟩, fun _ _ _ _ _ _ _ _ ↦ ⟨rfl, trivial⟩⟩
  | succ n ih =>
    have hscript (name filter reaction event d f) : Agree (At (PlainGround X).settled d f)
        ((Client.dispatch perform react (n + 1)).call (.script name filter reaction) event)
        ((Client.dispatch perform (fun name event ↦ (react name event).checked P) (n + 1)).call
          (.script name filter reaction) event) (fun _ ↦ At (PlainGround X).settled d f)
        (Held (PlainGround X).settled d f) := by
      rw [Client.call_script, Client.call_script]
      refine agree_get fun w hw ↦ agree_ite (fun _ ↦ ?_) fun _ ↦ agree_pure fun w' hw' ↦ hw' ▸ hw
      exact (Client.agree_run_crashing (PlainGround.depthFree hX) (fun op d _ ↦ hperform _ _ ih op d f)
        (fun _ _ ↦ ih.agree_flush) (fun d w _ ↦ hP d f w) (react name event) d (Nat.zero_le d)).pre
          fun w' hw' ↦ hw' ▸ hw
    refine ⟨hX, (Client.rounds_dispatch _ _ n).trans (Client.rounds_dispatch _ _ n).symm,
      fun callback event d f hbusy ↦ ?_, hscript⟩
    by_cases hother : ∀ name filter reaction, callback ≠ .script name filter reaction
    · rw [Client.call_other _ _ _ _ _ hother, Client.call_other _ _ _ _ _ hother]
      exact (ih.agree_callback hbusy callback event hother).mono (fun _ h ↦ h) (fun _ _ h ↦ h)
        fun _ h ↦ h.elim
    · simp only [not_forall, not_not] at hother
      obtain ⟨name, filter, reaction, rfl⟩ := hother
      exact (hscript name filter reaction event d f).mono (fun _ hw ↦ hw.at_busy hbusy)
        (fun _ _ hw ↦ hw.toHeld) fun _ hw ↦ hw

/-- Code that is made of such operations does the same under observation, from the start of a session
to its end. -/
theorem agree_run_from_start (hX : Lasting X) (hP : ∀ d f w, At (PlainGround X).settled d f w → P w)
    (hperform : ∀ D D', Alike X D D' → ∀ op d f, Agree (At (PlainGround X).settled d f) (@perform D op)
      (@perform D' op) (fun _ ↦ At (PlainGround X).settled d f) (Held (PlainGround X).settled d f))
    (react : String → Event → Client Op) (n : Nat) (c : Client Op) {schema : Schema} {keepsFirst : Bool}
    (hstart : X (Session.start schema keepsFirst)) :
    @Client.run Op (Client.dispatch perform react n) (@perform (Client.dispatch perform react n)) c
        (Session.start schema keepsFirst) =
      @Client.run Op (Client.dispatch perform (fun name event ↦ (react name event).checked P) n)
        (@perform (Client.dispatch perform (fun name event ↦ (react name event).checked P) n))
        (c.checked P) (Session.start schema keepsFirst) ∧
    ∀ w, @Client.run Op (Client.dispatch perform react n) (@perform (Client.dispatch perform react n)) c
      (Session.start schema keepsFirst) = .ok () w → P w := by
  have halike := alike_clients hX hP hperform react n
  have hground := ground_start schema keepsFirst
  have hat : At (PlainGround X).settled 0 false (Session.start schema keepsFirst) :=
    ⟨⟨⟨hground.holds.1, hground.holds.2, hstart⟩, hground.depth_eq, hground.flushing_eq⟩, hground.idle⟩
  obtain ⟨heq, hout⟩ := Client.agree_run_crashing (PlainGround.depthFree hX)
    (fun op d _ ↦ hperform _ _ halike op d false) (fun _ _ ↦ halike.agree_flush) (fun d w _ ↦ hP d false w) c 0
    (Nat.le_refl 0) _ hat
  refine ⟨heq, fun w hw ↦ ?_⟩
  rw [hw] at hout
  exact hP 0 false w hout

end Clients

end LiveGraph

/-! ## Code that listens to a store -/

namespace LiveGraph

/-- What code does with a store that it listens to. -/
inductive Listening
  | edit (e : Edit)
  | listen (event : StoreEvent) (kind name : String)
  | unlisten (event : StoreEvent) (id : Nat)

/-- Carries out an operation on the first store. -/
def Listening.perform [Dispatch] : Listening → Act Unit
  | edit e => e.perform 0
  | listen event kind name => do
    let _ ← modifyGet (·.subscribe (.store 0 event) (.script name (.kind kind) []))
  | unlisten event id => modify (·.unsubscribe (some (.store 0 event, id)))

namespace Listening

open Act

/-- Listening to a store is kept by what keeps its ground. -/
theorem agree_perform {X : World → Prop} {D D' : Dispatch} (h : Alike X D D') (op : Listening) (d : Nat) (f : Bool) :
    Agree (At (PlainGround X).settled d f) (@Listening.perform D op) (@Listening.perform D' op)
      (fun _ ↦ At (PlainGround X).settled d f) fun _ ↦ False := by
  have hquiet {w w' : World} (hw : At (PlainGround X).settled d f w) (hsame : SameGround w w')
      (hsession : w'.session = w.session) (hq : w.Quiet w') : At (PlainGround X).settled d f w' :=
    hw.quiet hq (hw.holds.same h.lasting hsame hsession)
  match op with
  | .edit e =>
    exact h.kept.agree_perform h.kept.flushes e fun w name kind x _ hw ↦
      hw.same h.lasting (.putIndex w 0 name kind x) rfl
  | .listen event kind name =>
    refine agree_bind (Q := fun _ ↦ At (PlainGround X).settled d f)
      (agree_modifyGet fun w hw ↦ ?_) fun _ ↦ agree_pure fun _ hw ↦ hw
    exact hquiet hw (.modifyWatchers w (.store 0 event) _) rfl ⟨rfl, rfl, rfl, rfl⟩
  | .unlisten event id =>
    refine Act.agree_modify fun w hw ↦ ?_
    exact hquiet hw (.unsubscribe w _) (w.session_unsubscribe _) ⟨rfl, rfl, rfl, rfl⟩

/-- What calls come to for code that reacts to what it is told. -/
@[reducible]
def dispatch (react : String → Event → Client Listening) (n : Nat) : Dispatch :=
  Client.dispatch Listening.perform react n

theorem alike_dispatch (react : String → Event → Client Listening) {P : World → Prop}
    (hP : ∀ d f w, At (PlainGround fun _ ↦ True).settled d f w → P w) (n : Nat) :
    Alike (fun _ ↦ True) (dispatch react n) (dispatch (fun name event ↦ (react name event).checked P) n) :=
  alike_clients lasting_true hP (fun _ _ h op d f ↦ (agree_perform h op d f).mono (fun _ hw ↦ hw)
    (fun _ _ hw ↦ hw) fun _ h ↦ h.elim) react n

/-- A world where what is read off the store fits together, and where an entity can be added if
there is none at its URI; if there is one, nothing at all comes of it. -/
structure Sound (react : String → Event → Client Listening) (w : World) : Prop where
  integral : w.Integral 0
  taken : ∀ n spec, w.contains 0 spec.uri = true →
    @Store.add (Listening.dispatch react (n + 2)) 0 spec w = .ok (.error (.taken spec.uri)) w
  free : ∀ n spec, w.contains 0 spec.uri = false →
    Act.Outcome (fun r _ ↦ ∃ e, r = .ok e) (fun _ ↦ False)
      (@Store.add (Listening.dispatch react n) 0 spec w)

theorem sound_of_settled (react : String → Event → Client Listening) {d : Nat} {f : Bool}
    {w : World} (hw : At (PlainGround fun _ ↦ True).settled d f w) : Sound react w where
  integral := World.integral_of_coherent (Ground.coherent hw.holds.1)
  taken n spec htaken := by
    let := dispatch react (n + 2)
    have hrounds : 0 < Dispatch.rounds := by
      rw [show Dispatch.rounds = n + 1 from Client.rounds_dispatch _ _ (n + 1)]
      exact Nat.succ_pos n
    refine batch_unchanged hw.idle hrounds ?_
    have htaken : (w.setDepth (w.depth + 1)).contains 0 spec.uri = true := htaken
    simp only [bind_run, get_run, htaken, if_true, pure_run]
  free n spec hfree := by
    have hadd := (alike_dispatch react (P := fun _ ↦ True) (fun _ _ _ _ ↦ trivial) n).left.kept
    exact ((hadd.agree_add_free (d := d) (f := f) hadd.flushes spec w
      ⟨⟨hw.holds, hfree⟩, hw.depth_eq, hw.flushing_eq⟩).2).mono (fun _ _ h ↦ h.1) fun _ h ↦ h

/-- Runs code that begins with an empty store, to a given depth. -/
def run (react : String → Event → Client Listening) (n : Nat) (c : Client Listening) : Act Unit :=
  @Client.run _ (dispatch react n) (@perform (dispatch react n)) c

/-- Runs code under observation, and so are all its listeners. -/
noncomputable def watched (react : String → Event → Client Listening) (n : Nat)
    (c : Client Listening) : Act Unit :=
  run (fun name event ↦ (react name event).checked (Sound react)) n (c.checked (Sound react))

/-- Whatever code does to a store, and from within whichever listener, the store is sound at every
point where the code looks at it: code does the same under an observation that would stop it at a
store that is not. -/
theorem run_eq_watched (react : String → Event → Client Listening) (n : Nat)
    (c : Client Listening) (schema : Schema) (keepsFirst : Bool) :
    run react n c (Session.start schema keepsFirst) =
        watched react n c (Session.start schema keepsFirst) ∧
      ∀ w, run react n c (Session.start schema keepsFirst) = .ok () w → Sound react w := by
  exact agree_run_from_start lasting_true (fun d f w hw ↦ sound_of_settled react hw)
    (fun _ _ h op d f ↦ (agree_perform h op d f).mono (fun _ hw ↦ hw) (fun _ _ hw ↦ hw) fun _ h ↦ h.elim)
    react n c trivial

end Listening

end LiveGraph
