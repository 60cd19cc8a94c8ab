import LiveGraph.Proofs.Reactive.Write
import LiveGraph.Proofs.Store.Ground
import LiveGraph.Focus.Basic

/-!
# What the callbacks of a store keep

The callback that clears the roles of a removed entity writes signals and does nothing else, so that
whatever is kept by writes is kept by it. Views are shown by callbacks as well; a condition that has
nothing to do with views is kept by these, once it is kept by telling what watches them.
-/

namespace LiveGraph

/-- The roles of a debug state, of all and of each scope. -/
def State.allRoles (s : State) : List Roles :=
  s.roles :: s.overrides.values.map (·.roles)

namespace Act

variable {D D' : Dispatch} {I C : World → Prop} {d : Nat} {f : Bool}

/-- A condition that writes of one signal keep. -/
def WriteFreeAt (I : World → Prop) (id : SignalId) : Prop :=
  ∀ w v, I w → (w.signal id).disposed = false → I (w.write id v)

/-- A condition that writes keep. -/
def WriteFree (I : World → Prop) : Prop :=
  ∀ id, WriteFreeAt I id

/-- A condition that writes of some roles keep. -/
def RolesFree (I : World → Prop) (roles : Roles) : Prop :=
  ∀ role id, roles.get? role = some id → WriteFreeAt I id

theorem WriteFree.roles (h : WriteFree I) (roles : Roles) : RolesFree I roles :=
  fun _ id _ ↦ h id

theorem agree_batch_busy {α : Type} {a b : Act α} (hI : DepthFree I)
    (hbusy : 0 < d ∨ f = true)
    (hbody : Agree (Held I (d + 1) f) a b (fun _ ↦ Held I (d + 1) f) C) (hC : DepthFree C) :
    Agree (Held I d f) (@batch D α a) (@batch D' α b) (fun _ ↦ Held I d f) C := by
  refine (agree_batch hI hI hbody (fun hd hf ↦ ?_) fun w hw ↦ hC w _ hw).post fun _ w hw ↦ hw.toHeld
  rcases hbusy with hpos | hflushing
  · omega
  · simp [hf] at hflushing

section Busy

variable (hI : DepthFree I) (hbusy : 0 < d ∨ f = true)
include hI hbusy

/-- Within a batch or a flush a write is kept, as no flush follows it. -/
theorem agree_set_busy {id : SignalId} (hwrite : WriteFreeAt I id) (v : Value) :
    Agree (Held I d f) (@Signal.set D id v) (@Signal.set D' id v) (fun _ ↦ Held I d f) C := by
  intro w hw
  have hassigned : I (w.assigned id v) := by
    obtain heq | ⟨hdisposed, heq⟩ := w.assigned_cases id v
    · rw [heq]
      exact hw.holds
    · rw [heq]
      exact hwrite w v hw.holds hdisposed
  have hat : At (· = w) d f w :=
    (show Held (· = w) d f w from ⟨rfl, hw.depth_eq, hw.flushing_eq⟩).at_busy hbusy
  refine ((agree_assign (C := C) hI hat hassigned fun hd hf ↦ ?_).post fun _ w hw ↦ hw.toHeld) w rfl
  rcases hbusy with hpos | hflushing
  · omega
  · simp [hf] at hflushing

theorem agree_advance_busy {id : SignalId} (hwrite : WriteFreeAt I id) :
    Agree (Held I d f) (@Signal.advance D id) (@Signal.advance D' id) (fun _ ↦ Held I d f) C :=
  agree_get fun w hw ↦ agree_bind
    ((agree_set_busy hI hbusy hwrite _).pre fun w' (hw' : w' = w) ↦ hw' ▸ hw) fun _ ↦
      agree_pure fun _ h ↦ h

theorem agree_focusWrite {roles : Roles} (hroles : RolesFree I roles) (role : String)
    (uri : Option Uri) :
    Agree (Held I d f) (@Focus.write D roles role uri) (@Focus.write D' roles role uri)
      (fun _ ↦ Held I d f) C := by
  unfold Focus.write
  split
  · exact agree_pure fun _ h ↦ h
  · rename_i id hid
    exact agree_bind (agree_set_busy hI hbusy (hroles role id hid) _) fun _ ↦
      agree_pure fun _ h ↦ h

theorem agree_forgetIn (uri : Uri) {roles : Roles} (hroles : RolesFree I roles)
    (names : List String) :
    Agree (Held I d f) (@Focus.forgetIn D uri roles names) (@Focus.forgetIn D' uri roles names)
      (fun _ ↦ Held I d f) C := by
  induction names with
  | nil => exact agree_pure fun _ h ↦ h
  | cons role rest ih =>
    refine agree_get fun w hw ↦ agree_ite (fun _ ↦ ?_) fun _ ↦ ih.pre fun w' hw' ↦ hw' ▸ hw
    exact agree_bind ((agree_focusWrite hI hbusy hroles role none).pre
      fun w' hw' ↦ hw' ▸ hw) fun _ ↦ ih

theorem agree_forgetInAll (uri : Uri) (all : List Roles) (hall : ∀ roles ∈ all, RolesFree I roles) :
    Agree (Held I d f) (@Focus.forgetInAll D uri all) (@Focus.forgetInAll D' uri all)
      (fun _ ↦ Held I d f) C := by
  induction all with
  | nil => exact agree_pure fun _ h ↦ h
  | cons roles rest ih =>
    exact agree_bind (agree_forgetIn hI hbusy uri (hall roles List.mem_cons_self) roles.keys) fun _ ↦
      ih fun roles hroles ↦ hall roles (List.mem_cons_of_mem _ hroles)

/-- Clearing the roles of a removed entity keeps what writes of roles keep. -/
theorem agree_forget (hC : DepthFree C) (id : StateId) (uri : Uri)
    (hroles : ∀ w, I w → ∀ roles ∈ (w.state id).allRoles, RolesFree I roles) :
    Agree (Held I d f) (@Focus.forget D id uri) (@Focus.forget D' id uri)
      (fun _ ↦ Held I d f) C :=
  agree_get fun w hw ↦ (agree_batch_busy hI hbusy
    (agree_forgetInAll hI (.inl (Nat.succ_pos d)) uri _ (hroles w hw.holds)) hC).pre
      fun _ hw' ↦ hw' ▸ hw

end Busy

/-- A condition on sessions without derived values, which has to do neither with evaluations nor with
what acts under way hold. -/
structure Robust (I : World → Prop) : Prop where
  plain : ∀ w, I w → Plain w
  context : ∀ w d f frames pins, I w →
    I { w with depth := d, flushing := f, frames := frames, pins := pins }
  reap : ∀ w, I w → I w.reap

namespace Robust

variable {α : Type} {a b : Act α} {P : World → Prop}

theorem depthFree (h : Robust I) : DepthFree I := fun w d hw ↦
  h.context w d w.flushing w.frames w.pins hw

/-- What ends because nothing holds it any more has nothing to do with the condition. -/
theorem held_reap (h : Robust I) {w w' : World} (hw : Held I d f w)
    (hw' : w' = { w with frames := w'.frames, pins := w'.pins }) : Held I d f w'.reap := by
  have hcontext : I w' := by
    rw [hw']
    exact h.context w w.depth w.flushing _ _ hw.holds
  have hsame := SameGround.reap w' (h.plain w' hcontext).noDeriveds
  refine ⟨h.reap w' hcontext, ?_, ?_⟩
  · rw [hsame.depth_eq, hw']
    exact hw.depth_eq
  · rw [hsame.flushing_eq, hw']
    exact hw.flushing_eq

theorem agree_holding (h : Robust I) {p : Pin} (hpin : ∀ w, P w → P (w.pin p))
    (hab : Agree (Held P d f) a b (fun _ ↦ Held I d f) fun _ ↦ False) :
    Agree (Held P d f) (a.holding p) (b.holding p) (fun _ ↦ Held I d f) fun _ ↦ False :=
  Act.agree_holding (fun _ hw ↦ ⟨hpin _ hw.holds, hw.depth_eq, hw.flushing_eq⟩) hab
    (fun _ _ hw ↦ h.held_reap hw rfl) fun _ h ↦ h

/-- There is no derived value to be told of. -/
theorem agree_effect_derived (h : Robust I) (id : DerivedId) :
    Agree (Held I d f) (@Effect.run D (.derived id)) (@Effect.run D' (.derived id))
      (fun _ ↦ Held I d f) C := by
  refine agree_get fun w hw ↦ agree_ite (fun hheld ↦ ?_) fun _ ↦ agree_pure fun w' hw' ↦ hw' ▸ hw
  have hnone : (w.derived id).dropped = true := by
    rw [World.derived, (h.plain w hw.holds).noDeriveds]
    rfl
  simp [hnone] at hheld

/-- Rounds of a flush keep a condition that is kept by telling whatever was put off. -/
theorem rounds (h : Robust I) (hrounds : D.rounds = D'.rounds)
    (htell : ∀ w effect rest frames, Held I 0 true w → w.effects = effect :: rest →
      Agree (· = { w with queue := [], effects := rest, frames := frames }) (@Effect.run D effect)
        (@Effect.run D' effect) (fun _ ↦ Held I 0 true) fun _ ↦ False) :
    Rounds D D' I fun _ ↦ False where
  rounds_eq := hrounds
  compute w id w' hw hpop := by simp [(h.plain w hw.holds).popQueued_eq] at hpop
  tell w effect rest hw _ heffects := by
    refine agree_untracked (fun w' hw' ↦ ?_)
      (htell w effect rest (⟨none, [], false⟩ :: w.frames) hw heffects)
      (fun _ w' hw' ↦ h.held_reap hw' rfl) fun _ h ↦ h
    rw [hw']
    rfl
  settled w hw _ _ := by
    have hdone := h.context w w.depth false w.frames w.pins hw.holds
    have hqueue := (h.plain w hw.holds).queue_eq
    rwa [show ({ w with queue := [], flushing := false } : World) =
      { w with depth := w.depth, flushing := false, frames := w.frames, pins := w.pins } by
        rw [← hqueue]]

theorem agree_flush (h : Robust I) (hrounds : Rounds D D' I fun _ ↦ False) :
    Agree (Held I 0 false) (@flush D) (@flush D') (fun _ ↦ At I 0 false) fun _ ↦ False :=
  hrounds.agree_flush (fun w hw ↦ h.context w w.depth true w.frames w.pins hw.holds) fun _ h ↦ h

/-- The callbacks of the session itself keep what is kept by telling the store of properties, by
clearing roles, and by what views do. -/
theorem agree_callback (h : Robust I)
    (hproperty : ∀ e prop, Agree (Held I d f) (@Entity.propertyChanged D e prop)
      (@Entity.propertyChanged D' e prop) (fun _ ↦ Held I d f) fun _ ↦ False)
    (hforget : ∀ id uri, Agree (Held I d f) (@Focus.forget D id uri) (@Focus.forget D' id uri)
      (fun _ ↦ Held I d f) fun _ ↦ False)
    (hreact : ∀ id what e, Agree (Held I d f) (@View.react D id what e) (@View.react D' id what e)
      (fun _ ↦ Held I d f) fun _ ↦ False)
    (callback : Callback) (event : Event)
    (hscript : ∀ name filter reaction, callback ≠ .script name filter reaction) :
    Agree (Held I d f) (@Callback.run D callback event) (@Callback.run D' callback event)
      (fun _ ↦ Held I d f) fun _ ↦ False := by
  refine agree_get fun w hw ↦ ?_
  have hskip : Agree (· = w) (pure ()) (pure ()) (fun _ : Unit ↦ Held I d f) fun _ ↦ False :=
    agree_pure fun w' hw' ↦ hw' ▸ hw
  have hholding {p : Pin} {a b : Act Unit}
      (hab : Agree (Held I d f) a b (fun _ ↦ Held I d f) fun _ ↦ False) :
      Agree (· = w) (a.holding p) (b.holding p) (fun _ ↦ Held I d f) fun _ ↦ False :=
    (h.agree_holding (fun w hw ↦ h.context w w.depth w.flushing w.frames _ hw) hab).pre
      fun w' hw' ↦ hw' ▸ hw
  match callback, event with
  | .script name filter reaction, _ => exact absurd rfl (hscript name filter reaction)
  | .property e prop, _ => exact agree_ite (fun _ ↦ hholding (hproperty e prop)) fun _ ↦ hskip
  | .forget id, .entity _ e => exact agree_ite (fun _ ↦ hholding (hforget id _)) fun _ ↦ hskip
  | .view id what, .entity _ e => exact (hreact id what e).pre fun w' hw' ↦ hw' ▸ hw
  | .view id what, .property e _ => exact (hreact id what e).pre fun w' hw' ↦ hw' ▸ hw
  | .forget _, .value _ => exact hskip
  | .forget _, .property _ _ => exact hskip
  | .forget _, .edge _ _ => exact hskip
  | .forget _, .window _ _ => exact hskip
  | .forget _, .applied _ => exact hskip
  | .view _ _, .value _ => exact hskip
  | .view _ _, .edge _ _ => exact hskip
  | .view _ _, .window _ _ => exact hskip
  | .view _ _, .applied _ => exact hskip

end Robust

/-- A condition on sessions without views, which writes of roles keep, and of the signal that would
tell of a view if there were one. -/
structure Viewless (I : World → Prop) : Prop extends Robust I where
  noViews : ∀ w, I w → w.views = #[]
  roles : ∀ w id, I w → ∀ roles ∈ (w.state id).allRoles, RolesFree I roles
  version : WriteFreeAt I (default : View).version

namespace Viewless

variable (h : Viewless I)
include h

/-- There is no view to change. -/
theorem modifyView_eq {w : World} (hw : I w) (id : ViewId) (F : View → View) :
    w.modifyView id F = w := by
  have hviews : w.views.modify id F = w.views := by
    rw [h.noViews w hw]
    rfl
  exact congrArg (fun views ↦ { w with views := views }) hviews

theorem view_eq {w : World} (hw : I w) (id : ViewId) : w.view id = default := by
  rw [World.view, h.noViews w hw]
  rfl

/-- There is no view to be told of. -/
theorem agree_effect_view (id : ViewId) :
    Agree (Held I d f) (@Effect.run D (.view id)) (@Effect.run D' (.view id)) (fun _ ↦ Held I d f) C := by
  refine agree_get fun w hw ↦ agree_ite (fun hheld ↦ ?_) fun _ ↦ agree_pure fun w' hw' ↦ hw' ▸ hw
  rw [h.view_eq hw.holds] at hheld
  exact Bool.noConfusion hheld

variable (hbusy : 0 < d ∨ f = true)
include hbusy

/-- The window of a view that is not there stays empty. -/
theorem agree_settle (id : ViewId) :
    Agree (Held I d f) (@View.settle D id) (@View.settle D' id) (fun _ ↦ Held I d f) C := by
  refine agree_get fun w hw ↦ ?_
  rw [h.view_eq hw.holds]
  refine agree_bind (agree_modify (Q := fun _ ↦ Held I d f) fun w' hw' ↦ ?_) fun _ ↦
    agree_bind (agree_advance_busy h.depthFree hbusy h.version) fun _ ↦
      agree_ite (fun hmoved ↦ absurd rfl hmoved) fun _ ↦ agree_pure fun _ hw ↦ hw
  subst hw'
  rwa [h.modifyView_eq hw.holds]

theorem agree_react (id : ViewId) (what : StoreEvent) (e : EntityRef) :
    Agree (Held I d f) (@View.react D id what e) (@View.react D' id what e) (fun _ ↦ Held I d f)
      fun _ ↦ False := by
  refine agree_get fun w hw ↦ agree_get fun w' hw' ↦ ?_
  subst hw'
  refine agree_ite (fun _ ↦ ?_) fun _ ↦ agree_pure fun w' hw' ↦ hw' ▸ hw
  refine (h.agree_holding (fun w hw ↦ h.context w w.depth w.flushing w.frames _ hw)
    (agree_ite (fun _ ↦ ?_) fun _ ↦ ?_)).pre fun w' hw' ↦ hw' ▸ hw
  · refine agree_get fun w hw ↦ ?_
    rw [h.view_eq hw.holds]
    exact agree_pure fun w' hw' ↦ hw' ▸ hw
  · refine agree_bind (agree_modify (Q := fun _ ↦ Held I d f) fun w hw ↦ ?_) fun _ ↦
      h.agree_settle hbusy id
    rwa [h.modifyView_eq hw.holds]

/-- The callbacks of the session itself keep what is kept by telling the store of properties. -/
theorem agree_callback (hproperty : ∀ e prop, Agree (Held I d f) (@Entity.propertyChanged D e prop)
      (@Entity.propertyChanged D' e prop) (fun _ ↦ Held I d f) fun _ ↦ False)
    (callback : Callback) (event : Event)
    (hscript : ∀ name filter reaction, callback ≠ .script name filter reaction) :
    Agree (Held I d f) (@Callback.run D callback event) (@Callback.run D' callback event)
      (fun _ ↦ Held I d f) fun _ ↦ False :=
  h.toRobust.agree_callback hproperty
    (fun id uri ↦ agree_forget h.depthFree hbusy (fun _ _ h ↦ h) id uri fun w ↦ h.roles w id)
    (h.agree_react hbusy) callback event hscript

end Viewless

/-- A condition that has nothing to do with views either, and which writes keep. -/
structure Blind (I : World → Prop) : Prop extends Robust I where
  write : WriteFree I
  modifyView : ∀ w id (F : View → View), I w → I (w.modifyView id F)
  deferView : ∀ w id, I w → I (w.deferView id)

theorem agree_tell (hnotify : ∀ channel event,
      Agree (Held I d f) (@notify D channel event) (@notify D' channel event)
        (fun _ ↦ Held I d f) C)
    (id : ViewId) (what : WindowEvent) (es : List EntityRef) :
    Agree (Held I d f) (@View.tell D id what es) (@View.tell D' id what es)
      (fun _ ↦ Held I d f) C := by
  induction es with
  | nil => exact agree_pure fun _ hw ↦ hw
  | cons e rest ih => exact agree_bind (hnotify _ _) fun _ ↦ ih

namespace Blind

variable (h : Blind I) (hnotify : ∀ channel event,
  Agree (Held I d f) (@notify D channel event) (@notify D' channel event)
    (fun _ ↦ Held I d f) fun _ ↦ False)
include h

theorem held_modifyView {w : World} (hw : Held I d f w) (id : ViewId) (F : View → View) :
    Held I d f (w.modifyView id F) :=
  ⟨h.modifyView w id F hw.holds, hw.depth_eq, hw.flushing_eq⟩

include hnotify

/-- Telling that a window has changed. -/
theorem agree_effect_view (id : ViewId) :
    Agree (Held I d f) (@Effect.run D (.view id)) (@Effect.run D' (.view id))
      (fun _ ↦ Held I d f) fun _ ↦ False := by
  refine agree_get fun w hw ↦ agree_ite (fun _ ↦ ?_) fun _ ↦ agree_pure fun w' hw' ↦ hw' ▸ hw
  refine (h.agree_holding (fun w hw ↦ h.context w w.depth w.flushing w.frames _ hw)
    (agree_bind (agree_modify (Q := fun _ ↦ Held I d f) fun w hw ↦ h.held_modifyView hw id _)
      fun _ ↦ agree_get fun w hw ↦ ?_)).pre fun w' hw' ↦ hw' ▸ hw
  refine agree_ite (fun _ ↦ ?_) fun _ ↦ agree_pure fun w' hw' ↦ hw' ▸ hw
  exact (hnotify _ _).pre fun w' hw' ↦ hw' ▸ hw

section Busy

variable (hbusy : 0 < d ∨ f = true)
include hbusy

theorem agree_settle (id : ViewId) :
    Agree (Held I d f) (@View.settle D id) (@View.settle D' id) (fun _ ↦ Held I d f)
      fun _ ↦ False := by
  refine agree_get fun w hw ↦ agree_bind (agree_modify (Q := fun _ ↦ Held I d f)
    fun w' hw' ↦ hw' ▸ h.held_modifyView hw id _) fun _ ↦ ?_
  refine agree_bind (agree_advance_busy h.depthFree hbusy (h.write _)) fun _ ↦
    agree_ite (fun _ ↦ ?_) fun _ ↦ agree_pure fun _ hw ↦ hw
  refine agree_bind (agree_tell hnotify id .leave _) fun _ ↦ ?_
  refine agree_bind (agree_tell hnotify id .enter _) fun _ ↦ agree_modify fun w hw ↦ ?_
  have hsame := SameGround.deferView w id
  exact ⟨h.deferView w id hw.holds, hsame.depth_eq.trans hw.depth_eq,
    hsame.flushing_eq.trans hw.flushing_eq⟩

theorem agree_react (id : ViewId) (what : StoreEvent) (e : EntityRef) :
    Agree (Held I d f) (@View.react D id what e) (@View.react D' id what e)
      (fun _ ↦ Held I d f) fun _ ↦ False := by
  have hshown (F : World → View → View) : Agree (Held I d f)
      (do modify (fun w ↦ w.modifyView id (F w)); @View.settle D id)
      (do modify (fun w ↦ w.modifyView id (F w)); @View.settle D' id) (fun _ ↦ Held I d f)
      fun _ ↦ False :=
    agree_bind (agree_modify fun w hw ↦ h.held_modifyView hw id (F w)) fun _ ↦
      h.agree_settle hnotify hbusy id
  refine agree_get fun w hw ↦ agree_get fun w' hw' ↦ ?_
  subst hw'
  refine agree_ite (fun _ ↦ ?_) fun _ ↦ agree_pure fun w' hw' ↦ hw' ▸ hw
  refine (h.agree_holding (fun w hw ↦ h.context w w.depth w.flushing w.frames _ hw)
    (agree_ite (fun _ ↦ ?_) fun _ ↦ hshown fun w v ↦ { v with rows := View.rowsWith w id e })).pre
    fun w' hw' ↦ hw' ▸ hw
  exact agree_get fun w hw ↦ agree_ite (fun _ ↦ (hshown fun _ v ↦ { v with rows := v.withoutRow e }).pre
    fun w' hw' ↦ hw' ▸ hw) fun _ ↦ agree_pure fun w' hw' ↦ hw' ▸ hw

/-- The callbacks of the session itself keep what is kept by telling the store of properties. -/
theorem agree_callback (hproperty : ∀ e prop, Agree (Held I d f) (@Entity.propertyChanged D e prop)
      (@Entity.propertyChanged D' e prop) (fun _ ↦ Held I d f) fun _ ↦ False)
    (callback : Callback) (event : Event)
    (hscript : ∀ name filter reaction, callback ≠ .script name filter reaction) :
    Agree (Held I d f) (@Callback.run D callback event) (@Callback.run D' callback event)
      (fun _ ↦ Held I d f) fun _ ↦ False :=
  h.toRobust.agree_callback hproperty
    (fun id uri ↦ agree_forget h.depthFree hbusy (fun _ _ h ↦ h) id uri
      fun _ _ roles _ ↦ h.write.roles roles)
    (h.agree_react hnotify hbusy) callback event hscript

end Busy

end Blind

end Act

end LiveGraph
