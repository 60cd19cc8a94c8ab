import LiveGraph.Proofs.Client.Run
import LiveGraph.Proofs.Focus.Letting

/-!
# Code that tends a store and its focus

What is held in the roles of a focus stays anchored whatever code does to the store and to the focus, and
from within whichever listener, once the callbacks of the session do the same: the first listener of a removal
lets go of what was removed, and no other callback takes hold of what is not there.
-/

namespace LiveGraph

/-- What code does with a store and the focus on it. The listener by which the focus learns of removals is not for
code to take away. -/
inductive Tending
  | edit (e : Edit)
  | call (c : Focus.Call)
  | listen (event : StoreEvent) (kind name : String)
  | unlisten (event : StoreEvent) (id : Nat)
  | watch (scope : Option String) (role name : String)
  | unwatch (scope : Option String) (role : String) (id : Nat)

namespace Watchers

theorem usual_add (callback : Callback) (hcallback : callback.Usual) (ws : Watchers) :
    ∀ entry ∈ (ws.add callback).entries, entry ∈ ws.entries ∨ entry.2.Usual := fun entry hmem ↦ by
  rcases List.mem_append.mp hmem with hmem | hmem
  · exact .inl hmem
  · exact .inr (List.mem_singleton.mp hmem ▸ hcallback)

theorem usual_remove (id : Nat) (ws : Watchers) :
    ∀ entry ∈ (ws.remove id).entries, entry ∈ ws.entries ∨ entry.2.Usual := fun _ hmem ↦
  .inl (List.mem_filter.mp hmem).1

end Watchers

namespace World

/-- Where those are registered who watch a role of the first focus, if it is there. -/
def roleChannel? (w : World) (scope : Option String) (role : String) : Option Channel :=
  ((w.state 0).slot? (.role scope role)).map .signal

end World

/-- Carries out an operation on the first store, or on the focus of the first debug state. -/
def Tending.perform [Dispatch] : Tending → Act Unit
  | edit e => e.perform 0
  | call c => do let _ ← c.perform 0
  | listen event kind name => do
    let _ ← modifyGet (·.subscribe (.store 0 event) (.script name (.kind kind) []))
  | unlisten event id => do
    if (event, id) ≠ (.removed, 1) then modify (·.unsubscribe (some (.store 0 event, id)))
  | watch scope role name => do
    if let some channel := (← get).roleChannel? scope role then
      let _ ← modifyGet (·.subscribe channel (.script name .every []))
  | unwatch scope role id => do
    if let some channel := (← get).roleChannel? scope role then
      modify (·.unsubscribe (some (channel, id)))

namespace Focus

open World Act

/-- Where all callbacks keep what is held anchored, and do the same by two ways of calling them. Outside of all
batches everything that was removed was told. -/
structure Tended (D D' : Dispatch) : Prop where
  rounds_eq : D.rounds = D'.rounds
  call : ∀ gone callback event d f, callback.Usual → 0 < d ∨ f = true → (d = 0 → gone = ∅) →
    Agree (Held (Moored gone (.whole ∅)) d f) (D.call callback event) (D'.call callback event)
      (fun _ ↦ Held (Moored gone (.whole ∅)) d f) (Held (Moored gone (.whole ∅)) d f)
  forget : ∀ gone e d f, 0 < d →
    Agree (Held (Moored (insert e gone) (.whole ∅)) d f) (D.call (.forget 0) (.entity .removed e))
      (D'.call (.forget 0) (.entity .removed e)) (fun _ ↦ Held (Moored gone (.whole ∅)) d f) fun _ ↦ False

variable {gone : Set EntityRef} {stage stage' : Stage} {w w' : World}

/-- Most of a stage is where everything is in its place. -/
theorem Moored.restage (h : Moored gone stage w) (hground : OnGround stage' w)
    (hexcused : excused gone stage' = excused gone stage) : Moored gone stage' w :=
  ⟨{ h.setting with ground := hground }, hexcused ▸ h.anchored⟩

/-- Whoever else listens to the store. -/
theorem Moored.listeners (h : Moored gone stage w) (event : StoreEvent) (F : Watchers → Watchers)
    (husual : ∀ ws : Watchers, ∀ entry ∈ (F ws).entries, entry ∈ ws.entries ∨ entry.2.Usual)
    (hhook : event = .removed → ∀ ws : Watchers, (∃ rest, ws.entries = (1, .forget 0) :: rest) →
      ∃ rest, (F ws).entries = (1, .forget 0) :: rest) :
    Moored gone stage (w.modifyWatchers (.store 0 event) F) :=
  h.same (h.setting.modifyListeners F husual event hhook) (h.setting.beside_listeners F husual event hhook)
    (.modifyWatchers w _ F) fun _ _ ↦ rfl

/-- Whoever watches a role. -/
theorem Moored.roleWatchers (h : Moored gone stage w) {j : SignalId} {scope : Option String} {name : String}
    (hj : (w.state 0).slot? (.role scope name) = some j) (F : Watchers → Watchers)
    (husual : ∀ ws : Watchers, ∀ entry ∈ (F ws).entries, entry ∈ ws.entries ∨ entry.2.Usual) :
    Moored gone stage (w.modifyWatchers (.signal j) F) := by
  refine h.same (h.setting.modifyRoleWatchers F husual hj) (h.setting.beside_roleWatchers F husual hj)
    (.modifyWatchers w _ F) fun j' _ ↦ ?_
  refine (congrArg Signal.value (World.signal_modifySignal _ _ _ _)).trans ?_
  split <;> rfl

theorem Moored.robust : Robust (Moored gone stage) where
  plain _ h := h.plain
  context _ d f frames pins h := h.context d f frames pins
  reap _ h := h.reap

/-- What is put off for the watchers of a signal has nothing to do with what it holds. -/
theorem Moored.told (h : Moored gone (.whole ∅) w) (id : SignalId) :
    Moored gone (.whole ∅) (w.modifySignal id fun s ↦ { s with notifying := false }) := by
  have hb := Beside.modifyHeld w id (fun s ↦ { s with notifying := false }) fun _ ↦ rfl
  have hsame := SameGround.modifySignal w id fun s ↦ { s with notifying := false }
  refine h.same (h.setting.same hb hsame fun _ ↦ ⟨rfl, rfl⟩) hb hsame fun j _ ↦ ?_
  rw [World.valueOf, World.signal_modifySignal]
  split <;> rfl

/-- What waits to be told has nothing to do with it either. -/
theorem Moored.effects (h : Moored gone (.whole ∅) w) (effects : List Effect) (frames : List Frame) :
    Moored gone (.whole ∅) { w with queue := [], effects := effects, frames := frames } := by
  have hqueue := h.plain.queue_eq.symm
  have hb : Beside w { w with queue := [], effects := effects, frames := frames } :=
    ⟨⟨rfl, rfl, Nat.le_refl _, fun _ _ ↦ rfl, id⟩, rfl, hqueue, rfl, fun _ _ ↦ ⟨rfl, rfl⟩, fun _ _ _ h ↦ h,
      fun _ _ h ↦ .inl h, id⟩
  have hsame : SameGround w { w with queue := [], effects := effects, frames := frames } :=
    ⟨.refl _, rfl, fun hnone ↦ ⟨hnone, hqueue⟩, rfl, rfl, rfl, rfl⟩
  exact h.same (h.setting.same hb hsame fun _ ↦ ⟨rfl, rfl⟩) hb hsame fun _ _ ↦ rfl

theorem Moored.isStateHeld (h : Moored gone stage w) : w.isStateHeld 0 = true := by
  rw [World.isStateHeld, h.setting.current_eq]
  rfl

/-- The callback by which a focus learns of removals lets go of what was removed. -/
theorem agree_forget_removed {D D' : Dispatch} {d : Nat} {f : Bool} (hdepth : 0 < d) (e : EntityRef) :
    Agree (Held (Moored (insert e gone) (.whole ∅)) d f) (@Callback.run D (.forget 0) (.entity .removed e))
      (@Callback.run D' (.forget 0) (.entity .removed e)) (fun _ ↦ Held (Moored gone (.whole ∅)) d f) fun _ ↦ False := by
  refine agree_get fun w hw ↦ agree_ite (fun _ ↦ ?_) fun hnot ↦ absurd hw.holds.isStateHeld hnot
  have hpinned (p : Pin) : Held (Moored (insert e gone) (.whole ∅)) d f (w.pin p) :=
    ⟨hw.holds.context w.depth w.flushing w.frames _, hw.depth_eq, hw.flushing_eq⟩
  refine Act.agree_holding_known ?_ (fun _ w' hw' ↦ Moored.robust.held_reap hw' rfl) fun _ h ↦ h
  exact (agree_forget_all (.inl hdepth) (hpinned _)).post fun _ _ hw ↦ hw.mono fun _ hw ↦ hw.anchored

namespace Tended

variable {D D' : Dispatch} {C : World → Prop} {d : Nat} {f : Bool} (h : Tended D D')
include h

/-- Telling some callbacks of the session. -/
theorem agree_notifyEach (hbusy : 0 < d ∨ f = true) (hgone : d = 0 → gone = ∅) (channel : Channel) (event : Event)
    (callbacks : List (Nat × Callback)) (husual : ∀ entry ∈ callbacks, entry.2.Usual) :
    Agree (Held (Moored gone (.whole ∅)) d f) (@notifyEach D channel event callbacks)
      (@notifyEach D' channel event callbacks) (fun _ ↦ Held (Moored gone (.whole ∅)) d f) C := by
  refine ((Act.agree_notifyEach (P := fun callbacks w ↦ (∀ entry ∈ callbacks, entry.2.Usual) ∧
    Held (Moored gone (.whole ∅)) d f w) callbacks (fun id callback rest _ hw _ ↦ ⟨fun entry hmem ↦
      hw.1 entry (List.mem_cons_of_mem _ hmem), hw.2⟩) fun id callback rest ↦ ?_).pre fun w hw ↦ ⟨husual, hw⟩).post
    fun _ _ hw ↦ hw.2
  intro w hw
  have hrest : ∀ entry ∈ rest, entry.2.Usual := fun entry hmem ↦ hw.1 entry (List.mem_cons_of_mem _ hmem)
  exact ((h.call gone callback event d f (hw.1 _ List.mem_cons_self) hbusy hgone).mono (fun _ h ↦ h)
    (fun _ _ hw ↦ ⟨hrest, hw⟩) fun _ hw ↦ ⟨hrest, hw⟩) w hw.2

theorem agree_notify (hbusy : 0 < d ∨ f = true) (hgone : d = 0 → gone = ∅) (channel : Channel) (event : Event) :
    Agree (Held (Moored gone (.whole ∅)) d f) (@notify D channel event) (@notify D' channel event)
      (fun _ ↦ Held (Moored gone (.whole ∅)) d f) C :=
  agree_get fun _ hw ↦ (h.agree_notifyEach hbusy hgone channel event _ (hw.holds.setting.usual channel)).pre
    fun _ hw' ↦ hw' ▸ hw

/-- Before anybody else is told of a removal, the focus has let go of what was removed. -/
theorem agree_notify_removed (hdepth : 0 < d) (e : EntityRef) :
    Agree (Held (Moored gone (.gone e)) d f) (@notify D (.store 0 .removed) (.entity .removed e))
      (@notify D' (.store 0 .removed) (.entity .removed e)) (fun _ ↦ Held (Moored gone (.whole ∅)) d f) C := by
  refine agree_get fun w hw ↦ ?_
  obtain ⟨rest, hentries⟩ := hw.holds.setting.hook
  have husual := hw.holds.setting.usual (.store 0 .removed)
  change ∀ entry ∈ (w.store 0).listeners.removed.entries, entry.2.Usual at husual
  change Agree _ (@notifyEach D _ _ (w.store 0).listeners.removed.entries)
    (@notifyEach D' _ _ (w.store 0).listeners.removed.entries) _ _
  rw [hentries] at husual ⊢
  refine agree_get fun w' hw' ↦ ?_
  subst hw'
  have hthere : (w'.watchers (.store 0 .removed)).contains 1 = true := by
    change (w'.store 0).listeners.removed.entries.any _ = true
    rw [hentries]
    rfl
  refine agree_ite (fun _ ↦ ?_) fun hnot ↦ absurd hthere hnot
  refine agree_bind (agree_contained ((h.forget gone e d f hdepth).pre fun w'' hw'' ↦ ?_) fun _ h ↦ h.elim) fun _ ↦
    h.agree_notifyEach (.inl hdepth) (fun hd ↦ absurd hd (Nat.ne_of_gt hdepth)) _ _ rest fun entry hmem ↦
      husual entry (List.mem_cons_of_mem _ hmem)
  subst hw''
  exact hw.mono fun _ hw ↦ Moored.visible_iff.mp hw

/-- Every step of an operation on the store keeps what is held anchored. -/
theorem keeping (gone : Set EntityRef) : Keeping (fun stage _ ↦ Moored gone stage) 0 D D' fun _ ↦ False where
  depthFree _ _ := Moored.depthFree
  write _ _ _ e id v hw he hserial hlive hid _ := hw.write_part (World.isLive_of_live he hserial hlive) hid v
  count _ key _ w hw := by rwa [hw.counted_clock key]
  crash _ _ h := h
  store_eq w e hw := Ground.store_eq hw.setting.ground
  found w uri e hw hfound := (Ground.coherent hw.setting.ground).pos (World.live_of_find? hfound).2
  held _ w hw := hw.setting.ground.held
  addProperty w e prop v d f hw he hserial hlive hnone := by
    have hthere := World.isLive_of_live he hserial hlive
    have hadded : Moored gone (.whole {e}) (w.addProperty e prop v).2 :=
      (hw.holds.addProperty hthere prop v).restage (hw.holds.addProperty hthere prop v).setting.ground rfl
    have hlive' : (w.addProperty e prop v).2.IsLive 0 e :=
      ((SameGround.addProperty w e prop v hserial).isLive_iff e).mpr hthere
    have hshape := w.shape_addProperty e prop v
    refine agree_advance_unwatched h.rounds_eq Moored.depthFree
      (fun w f hw ↦ hw.context w.depth f w.frames w.pins) (fun _ hw ↦ hw.plain.queue_eq) hadded.plain.noDeriveds ?_
      (hw.quiet (w.quiet_addProperty e prop v) rfl) (hadded.assigned_part hlive' (.inl hshape.symm) _)
    rw [← hshape]
    exact (hadded.setting.parted e hlive').unwatched
  reindex _ _ w e hw _ _ := hw.reindex e
  obsolete _ _ _ hw _ _ := hw.restage hw.setting.ground rfl
  updated e prop d f _ := (h.agree_notify (.inl (Nat.succ_pos d)) nofun _ _).pre
    fun _ hw ↦ hw.mono fun _ hw ↦ hw.1.restage hw.1.setting.ground rfl
  addIncarnation w uri kind hw hfree := hw.addIncarnation uri kind hfree
  coming _ _ _ _ hw := hw.setting.ground.coming
  addComing w e uri kind prop v hw _ := by
    obtain ⟨he, hlive, -⟩ := hw.setting.ground.coming
    exact hw.addProperty (World.isLive_of_live he hw.setting.ground.2.serial_pos hlive) prop v
  enlist w e uri kind hw := ⟨hw.enlist _, (OnGround.enlist hw.setting.ground).2⟩
  added e d f _ := (h.agree_notify (.inl (Nat.succ_pos d)) nofun _ _).pre
    fun _ hw ↦ hw.mono fun _ hw ↦ hw.1.restage hw.1.setting.ground rfl
  strike w uri e hw hfound := hw.strike hfound
  cut stage _ _ d _ hvisible := by
    match stage with
    | .whole U =>
      obtain rfl : U = ∅ := hvisible
      exact h.agree_notify (.inl (Nat.succ_pos d)) nofun _ _
    | .filed _ _ => exact hvisible.elim
    | .gone e =>
      exact (h.agree_notify (.inl (Nat.succ_pos d)) nofun _ _).mono
        (fun _ hw ↦ hw.mono fun _ hw ↦ Moored.visible_iff.mp hw)
        (fun _ _ hw ↦ hw.mono fun _ hw ↦ Moored.visible_iff.mpr hw) fun _ h ↦ h
  removed e d f _ := h.agree_notify_removed (Nat.succ_pos d) e
  retireClocks w uri hw := hw.retireClocks uri
  link w edge atFront edges hw hsource htarget hinsert :=
    hw.modifyStore 0 _ (fun _ ↦ rfl) (fun _ ↦ rfl) (fun _ ↦ rfl) (fun h ↦ h)
      (OnGround.link hw.setting.ground hsource htarget hinsert) rfl
  linked edge d f := h.agree_notify (.inl (Nat.succ_pos d)) nofun _ _
  unlink w edge edges hw hremove :=
    hw.modifyStore 0 _ (fun _ ↦ rfl) (fun _ ↦ rfl) (fun _ ↦ rfl) (fun h ↦ h)
      (OnGround.unlink hw.setting.ground hremove) rfl

/-- Telling what was put off. -/
theorem agree_effect (effect : Effect) :
    Agree (Held (Moored ∅ (.whole ∅)) 0 true) (@Effect.run D effect) (@Effect.run D' effect)
      (fun _ ↦ Held (Moored ∅ (.whole ∅)) 0 true) fun _ ↦ False := by
  match effect with
  | .signal id =>
    refine agree_get fun w hw ↦ agree_ite (fun _ ↦ ?_) fun _ ↦ agree_pure fun w' hw' ↦ hw' ▸ hw
    refine agree_bind (agree_modify (Q := fun _ ↦ Held (Moored ∅ (.whole ∅)) 0 true) fun w' hw' ↦
      hw' ▸ ⟨hw.holds.told id, hw.depth_eq, hw.flushing_eq⟩) fun _ ↦ agree_get fun w hw ↦ ?_
    refine agree_ite (fun _ ↦ ?_) fun _ ↦ agree_pure fun w' hw' ↦ hw' ▸ hw
    exact (h.agree_notify (.inr rfl) (fun _ ↦ rfl) _ _).pre fun w' hw' ↦ hw' ▸ hw
  | .derived id => exact Moored.robust.agree_effect_derived id
  | .view id =>
    refine agree_get fun w hw ↦ agree_ite (fun hheld ↦ ?_) fun _ ↦ agree_pure fun w' hw' ↦ hw' ▸ hw
    have hnone : w.view id = default := by
      rw [World.view, hw.holds.setting.noViews]
      rfl
    rw [hnone] at hheld
    exact Bool.noConfusion hheld

theorem agree_flush : Agree (Held (Moored ∅ (.whole ∅)) 0 false) (@flush D) (@flush D')
    (fun _ ↦ At (Moored ∅ (.whole ∅)) 0 false) fun _ ↦ False := by
  refine Moored.robust.agree_flush (Moored.robust.rounds h.rounds_eq fun w effect rest frames hw _ ↦
    (h.agree_effect effect).pre fun w' hw' ↦ ?_)
  subst hw'
  exact ⟨hw.holds.effects rest frames, hw.depth_eq, hw.flushing_eq⟩

/-- Outside of all batches everything that was removed was told, so that a flush keeps what is anchored. -/
theorem flushes (hgone : d = 0 → gone = ∅) : Flushes (fun stage _ ↦ Moored gone stage) D D' (fun _ ↦ False) d f :=
  fun hd _ ↦ by
    obtain rfl := hgone hd
    exact h.agree_flush

/-- Carrying out an operation keeps what is held anchored. -/
theorem agree_perform (hgone : d = 0 → gone = ∅) (op : Tending) :
    Agree (At (Moored gone (.whole ∅)) d f) (@Tending.perform D op) (@Tending.perform D' op)
      (fun _ ↦ At (Moored gone (.whole ∅)) d f) fun _ ↦ False := by
  match op with
  | .edit e => exact (h.keeping gone).agree_perform (h.flushes hgone) e fun w name kind x _ hw ↦ hw.putIndex 0 name kind x
  | .call c => exact agree_bind (c.agree_perform h.rounds_eq (h.flushes hgone)) fun _ ↦ agree_pure fun _ hw ↦ hw
  | .listen event kind name =>
    refine agree_bind (Q := fun _ ↦ At (Moored gone (.whole ∅)) d f) (agree_modifyGet fun w hw ↦ ?_) fun _ ↦
      agree_pure fun _ hw ↦ hw
    exact hw.quiet ⟨rfl, rfl, rfl, rfl⟩ (hw.holds.listeners event _ (Watchers.usual_add _ trivial)
      fun _ ws ⟨rest, hws⟩ ↦ ⟨rest ++ [_], by rw [Watchers.add, hws]; rfl⟩)
  | .unlisten event id =>
    refine agree_ite (fun hother ↦ agree_modify fun w hw ↦ ?_) fun _ ↦ agree_pure fun _ hw ↦ hw
    refine hw.quiet ⟨rfl, rfl, rfl, rfl⟩ (hw.holds.listeners event _ (Watchers.usual_remove id)
      fun hremoved ws ⟨rest, hws⟩ ↦ ⟨rest.filter fun entry ↦ entry.1 ≠ id, ?_⟩)
    rw [Watchers.remove, hws]
    change List.filter _ _ = _
    refine List.filter_cons_of_pos ?_
    simpa using fun hid : 1 = id ↦ hother (by rw [hremoved, hid])
  | .watch scope role name =>
    refine agree_get fun w hw ↦ ?_
    have hskip : Agree (· = w) (pure ()) (pure ()) (fun _ : Unit ↦ At (Moored gone (.whole ∅)) d f) fun _ ↦ False :=
      agree_pure fun w' hw' ↦ hw' ▸ hw
    cases hj : (w.state 0).slot? (.role scope role) with
    | none =>
      simp only [World.roleChannel?, hj]
      exact hskip
    | some j =>
      simp only [World.roleChannel?, hj, Option.map_some]
      refine agree_bind (Q := fun _ ↦ At (Moored gone (.whole ∅)) d f) (agree_modifyGet fun w' hw' ↦ ?_) fun _ ↦
        agree_pure fun _ hw ↦ hw
      subst hw'
      exact hw.quiet ⟨rfl, rfl, rfl, rfl⟩ 
        (hw.holds.roleWatchers hj _ (Watchers.usual_add (.script name .every []) trivial))
  | .unwatch scope role id =>
    refine agree_get fun w hw ↦ ?_
    have hskip : Agree (· = w) (pure ()) (pure ()) (fun _ : Unit ↦ At (Moored gone (.whole ∅)) d f) fun _ ↦ False :=
      agree_pure fun w' hw' ↦ hw' ▸ hw
    cases hj : (w.state 0).slot? (.role scope role) with
    | none =>
      simp only [World.roleChannel?, hj]
      exact hskip
    | some j =>
      simp only [World.roleChannel?, hj, Option.map_some]
      refine agree_modify fun w' hw' ↦ ?_
      subst hw'
      exact hw.quiet ⟨rfl, rfl, rfl, rfl⟩ (hw.holds.roleWatchers hj _ (Watchers.usual_remove id))

/-- A property that has changed is told of. -/
theorem agree_propertyChanged (hbusy : 0 < d ∨ f = true) (hgone : d = 0 → gone = ∅) (e : EntityRef) (prop : String) :
    Agree (Held (Moored gone (.whole ∅)) d f) (@Entity.propertyChanged D e prop) (@Entity.propertyChanged D' e prop)
      (fun _ ↦ Held (Moored gone (.whole ∅)) d f) fun _ ↦ False := by
  by_cases he : e.store = 0
  · exact ((h.keeping gone).agree_propertyChanged (h.flushes hgone) he prop).mono
      (fun w hw ↦ (show Held (Moored gone (.whole {e})) d f w from
        hw.mono fun _ hw ↦ hw.restage hw.setting.ground rfl).at_busy hbusy)
      (fun _ w hw ↦ hw.toHeld) fun _ h ↦ h
  · refine agree_get fun w hw ↦ ?_
    rw [Ground.not_isCurrent hw.holds.setting.ground he]
    exact agree_pure fun w' hw' ↦ hw' ▸ hw

/-- The callbacks of the session itself keep what is held anchored. -/
theorem agree_callback (hbusy : 0 < d ∨ f = true) (hgone : d = 0 → gone = ∅) (callback : Callback) (event : Event)
    (husual : callback.Usual) (hscript : ∀ name filter reaction, callback ≠ .script name filter reaction) :
    Agree (Held (Moored gone (.whole ∅)) d f) (@Callback.run D callback event) (@Callback.run D' callback event)
      (fun _ ↦ Held (Moored gone (.whole ∅)) d f) fun _ ↦ False := by
  refine agree_get fun w hw ↦ ?_
  have hskip : Agree (· = w) (pure ()) (pure ()) (fun _ : Unit ↦ Held (Moored gone (.whole ∅)) d f) fun _ ↦ False :=
    agree_pure fun w' hw' ↦ hw' ▸ hw
  have hholding {p : Pin} {a b : Act Unit} (hab : Agree (Held (Moored gone (.whole ∅)) d f) a b
      (fun _ ↦ Held (Moored gone (.whole ∅)) d f) fun _ ↦ False) :
      Agree (· = w) (a.holding p) (b.holding p) (fun _ ↦ Held (Moored gone (.whole ∅)) d f) fun _ ↦ False :=
    (Moored.robust.agree_holding (fun w hw ↦ hw.context w.depth w.flushing w.frames _) hab).pre fun w' hw' ↦ hw' ▸ hw
  match callback with
  | .script name filter reaction => exact absurd rfl (hscript name filter reaction)
  | .view _ _ => exact husual.elim
  | .property e prop => exact agree_ite (fun _ ↦ hholding (h.agree_propertyChanged hbusy hgone e prop)) fun _ ↦ hskip
  | .forget id =>
    obtain rfl : id = 0 := husual
    match event with
    | .entity _ e =>
      refine agree_ite (fun _ ↦ hholding fun w' hw' ↦ ?_) fun _ ↦ hskip
      exact ((agree_forget_all hbusy hw').post fun _ _ hw ↦ hw.mono fun _ hw ↦ hw.moored) w' rfl
    | .value _ => exact hskip
    | .property _ _ => exact hskip
    | .edge _ _ => exact hskip
    | .window _ _ => exact hskip
    | .applied _ => exact hskip

end Tended

end Focus

end LiveGraph
