import LiveGraph.Proofs.Client.Run
import LiveGraph.Proofs.Index.Filing

/-!
# Operations on a store that has indices

Every step of an operation on the store files the entity that it is about before anybody is told, so
that the listeners of the store may do whatever they like to it.
-/

namespace LiveGraph

open Act

/-- What is asked of a property of worlds at each stage, so that callbacks may be told of changes: it
has to do neither with views nor with what acts under way hold, and it goes on as soon as an entity was
filed where it belongs, or is gone. -/
structure Filed (J : Stage → World → Prop) : Prop where
  viewless : ∀ stage, Viewless (J stage)
  excusing : Excusing fun U ↦ J (.whole U)
  mono : ∀ U U' w, J (.whole U) w → U ⊆ U' → J (.whole U') w
  count : ∀ stage key w, J stage w → J stage (w.counted (.clock 0 key))
  reindex : ∀ U w e, J (.whole U) w → e.store = 0 → w.isCurrent e → J (.filed U e) (w.reindex e).2
  obsolete : ∀ U w e, J (.whole U) w → w.isCurrent e = false → J (.whole (U \ {e})) w
  told : ∀ e w, J (.filed {e} e) w → J (.whole ∅) w
  gone_iff : ∀ e w, J (.gone e) w ↔ J (.whole ∅) w
  retireClocks : ∀ w uri, J (.whole ∅) w → J (.whole ∅) (w.retireClocks 0 uri)

/-- Where all callbacks keep a property, and do the same by two ways of calling them. After the callback
of a property no more is untold of its entity. -/
structure Filing (J : Stage → World → Prop) (D D' : Dispatch) : Prop where
  rounds_eq : D.rounds = D'.rounds
  call : ∀ callback event d f, 0 < d ∨ f = true →
    Agree (Held (J (.whole ∅)) d f) (D.call callback event) (D'.call callback event)
      (fun _ ↦ Held (J (.whole ∅)) d f) (Held (J (.whole ∅)) d f)
  property : ∀ (e : EntityRef) prop event, e.store = 0 →
    Agree (Held (J (.whole {e})) 0 true) (D.call (.property e prop) event)
      (D'.call (.property e prop) event) (fun _ ↦ Held (J (.whole ∅)) 0 true) fun _ ↦ False

namespace Filing

variable {J : Stage → World → Prop} {D D' : Dispatch} {C : World → Prop} {d : Nat} {f : Bool}
variable {e : EntityRef} (h : Filing J D D') (hJ : Filed J)
include h

theorem agree_notify (hbusy : 0 < d ∨ f = true) (channel : Channel) (event : Event) :
    Agree (Held (J (.whole ∅)) d f) (@notify D channel event) (@notify D' channel event)
      (fun _ ↦ Held (J (.whole ∅)) d f) C :=
  Act.agree_notify fun callback ↦ h.call callback event d f hbusy

include hJ

theorem agree_flush : Agree (Held (J (.whole ∅)) 0 false) (@flush D) (@flush D')
    (fun _ ↦ At (J (.whole ∅)) 0 false) fun _ ↦ False :=
  hJ.excusing.agree_flush h.rounds_eq
    (fun e prop event he ↦ by
      rw [insert_empty_eq]
      exact h.property e prop event he)
    (hJ.viewless _).agree_effect_view

/-- To tell of a change keeps what callbacks keep. -/
theorem telling : Telling (fun stage _ ↦ J stage) 0 D D' fun _ ↦ False where
  depthFree stage _ := (hJ.viewless stage).depthFree
  count stage key _ w hw := hJ.count stage key w hw
  flush := h.agree_flush hJ
  crash _ _ h := h
  reindex U _ w e hw he hcurrent := hJ.reindex U w e hw he hcurrent
  obsolete U w e hw _ hcurrent := hJ.obsolete U w e hw hcurrent
  updated e prop d f _ := (h.agree_notify (.inl (Nat.succ_pos d)) _ _).pre fun _ hw ↦
    hw.mono fun w hw ↦ hJ.told e w hw.1
  added e d f _ := (h.agree_notify (.inl (Nat.succ_pos d)) _ _).pre fun _ hw ↦
    hw.mono fun w hw ↦ hJ.told e w hw.1
  cut stage ks edge d f hvisible := by
    match stage with
    | .whole U =>
      obtain rfl : U = ∅ := hvisible
      exact h.agree_notify (.inl (Nat.succ_pos d)) _ _
    | .gone e =>
      exact (h.agree_notify (.inl (Nat.succ_pos d)) _ _).mono
        (fun _ hw ↦ hw.mono fun w ↦ (hJ.gone_iff e w).mp)
        (fun _ _ hw ↦ hw.mono fun w ↦ (hJ.gone_iff e w).mpr) fun _ h ↦ h
  removed e d f _ := (h.agree_notify (.inl (Nat.succ_pos d)) _ _).pre fun _ hw ↦
    hw.mono fun w ↦ (hJ.gone_iff e w).mp
  retireClocks w uri hw := hJ.retireClocks w uri hw
  linked edge d f := h.agree_notify (.inl (Nat.succ_pos d)) _ _

section Busy

variable (hbusy : 0 < d ∨ f = true)
include hbusy

/-- A changed property is told to the store. -/
theorem agree_propertyChanged (he : e.store = 0) (prop : String) :
    Agree (Held (J (.whole {e})) d f) (@Entity.propertyChanged D e prop)
      (@Entity.propertyChanged D' e prop) (fun _ ↦ Held (J (.whole ∅)) d f) fun _ ↦ False :=
  ((h.telling hJ).agree_propertyChanged (h.telling hJ).flushes he prop).mono (fun _ hw ↦ Held.at_busy hw hbusy)
    (fun _ _ hw ↦ hw.toHeld) fun _ h ↦ h

/-- What the callbacks of the session itself do keeps what all callbacks keep. -/
theorem agree_callback (callback : Callback) (event : Event)
    (hscript : ∀ name filter reaction, callback ≠ .script name filter reaction) :
    Agree (Held (J (.whole ∅)) d f) (@Callback.run D callback event) (@Callback.run D' callback event)
      (fun _ ↦ Held (J (.whole ∅)) d f) fun _ ↦ False := by
  refine (hJ.viewless _).agree_callback hbusy (fun e prop ↦ ?_) callback event hscript
  by_cases he : e.store = 0
  · exact (h.agree_propertyChanged hJ hbusy he prop).pre fun w hw ↦
      hw.mono fun w hw ↦ hJ.mono ∅ {e} w hw (Set.empty_subset _)
  · refine agree_get fun w hw ↦ ?_
    rw [(hJ.excusing.ground ∅ w hw.holds).not_isCurrent he]
    exact agree_pure fun w' hw' ↦ hw' ▸ hw

end Busy

/-- What the callback of a property does. -/
theorem agree_property (he : e.store = 0) (prop : String) (event : Event) :
    Agree (Held (J (.whole {e})) 0 true) (@Callback.run D (.property e prop) event)
      (@Callback.run D' (.property e prop) event) (fun _ ↦ Held (J (.whole ∅)) 0 true)
      fun _ ↦ False := by
  refine agree_get fun w hw ↦ agree_ite (fun _ ↦ ?_) fun hheld ↦ ?_
  · refine Agree.pre (P := Held (J (.whole {e})) 0 true) ?_ fun w' hw' ↦ hw' ▸ hw
    exact Act.agree_holding
      (fun w hw ↦ ⟨(hJ.viewless _).context w w.depth w.flushing w.frames _ hw.holds, hw.depth_eq,
        hw.flushing_eq⟩) (h.agree_propertyChanged hJ (.inr rfl) he prop)
      (fun _ _ hw ↦ (hJ.viewless _).held_reap hw rfl) fun _ h ↦ h
  · have hstore := (hJ.excusing.ground {e} w hw.holds).held
    rw [he] at hheld
    exact absurd hstore hheld

omit hJ in
/-- What two ways of calling callbacks keep, the first of them keeps. -/
theorem left : Filing J D D :=
  ⟨rfl, fun callback event d f hbusy ↦ (h.call callback event d f hbusy).left,
    fun e prop event he ↦ (h.property e prop event he).left⟩

omit h hJ

/-- Calls at depth zero never come back. -/
theorem dispatch_zero {Op : Type} (perform : [Dispatch] → Op → Act Unit)
    (react react' : String → Event → Client Op) :
    Filing J (Client.dispatch perform react 0) (Client.dispatch perform react' 0) :=
  ⟨rfl, fun _ _ _ _ _ _ _ ↦ ⟨rfl, trivial⟩, fun _ _ _ _ _ _ ↦ ⟨rfl, trivial⟩⟩

/-- Calls keep what code that reacts keeps, when it makes calls at the next smaller depth. -/
theorem dispatch_succ (hJ : Filed J) {Op : Type} {perform : [Dispatch] → Op → Act Unit}
    {react react' : String → Event → Client Op} {n : Nat}
    (h : Filing J (Client.dispatch perform react n) (Client.dispatch perform react' n))
    (hscript : ∀ name event d f, 0 < d ∨ f = true → Agree (Held (J (.whole ∅)) d f)
      (@Client.run Op (Client.dispatch perform react n) (@perform (Client.dispatch perform react n))
        (react name event))
      (@Client.run Op (Client.dispatch perform react' n) (@perform (Client.dispatch perform react' n))
        (react' name event))
      (fun _ ↦ Held (J (.whole ∅)) d f) (Held (J (.whole ∅)) d f)) :
    Filing J (Client.dispatch perform react (n + 1)) (Client.dispatch perform react' (n + 1)) := by
  refine ⟨(Client.rounds_dispatch perform react n).trans (Client.rounds_dispatch perform react' n).symm,
    fun callback event d f hbusy ↦ ?_, fun e prop event he ↦ ?_⟩
  · by_cases hother : ∀ name filter reaction, callback ≠ .script name filter reaction
    · rw [Client.call_other perform react n callback event hother,
        Client.call_other perform react' n callback event hother]
      exact (h.agree_callback hJ hbusy callback event hother).mono (fun _ h ↦ h) (fun _ _ h ↦ h)
        fun _ h ↦ h.elim
    · simp only [not_forall, not_not] at hother
      obtain ⟨name, filter, reaction, rfl⟩ := hother
      rw [Client.call_script, Client.call_script]
      refine agree_get fun w hw ↦ agree_ite (fun _ ↦ ?_) fun _ ↦ agree_pure fun w' hw' ↦ hw' ▸ hw
      exact (hscript name event d f hbusy).pre fun w' (hw' : w' = w) ↦ hw' ▸ hw
  · have hother : ∀ name filter reaction, Callback.property e prop ≠ .script name filter reaction :=
      fun _ _ _ ↦ Callback.noConfusion
    rw [Client.call_other perform react n _ event hother,
      Client.call_other perform react' n _ event hother]
    exact h.agree_property hJ he prop event

end Filing

namespace Indexed

variable {own : String → Prop} {δ : Definitions} {β : Background} {w : World} {e : EntityRef}

/-- A change that was told leaves no excuse, as far as only one entity was untold of. -/
theorem told (h : Indexed own δ β (.filed {e} e) w) : Indexed own δ β (.whole ∅) w :=
  ⟨h.ground, h.plain, h.noViews, h.tied, h.behind, fun name x hx ↦
    (h.files name x hx).mono fun _ _ _ _ hun ↦ absurd hun.1.symm hun.2, h.defined⟩

theorem gone_iff : Indexed own δ β (.gone e) w ↔ Indexed own δ β (.whole ∅) w :=
  ⟨fun h ↦ ⟨h.ground, h.plain, h.noViews, h.tied, h.behind, h.files, h.defined⟩,
    fun h ↦ ⟨h.ground, h.plain, h.noViews, h.tied, h.behind, h.files, h.defined⟩⟩

theorem filed : Filed (Indexed own δ β) where
  viewless _ := viewless
  excusing := excusing
  mono _ _ _ hw hU := hw.mono fun _ _ _ hun ↦ hU hun
  count _ _ _ hw := hw.counted _
  reindex _ _ _ hw he hcurrent := hw.reindex he hcurrent
  obsolete _ _ _ hw hcurrent := hw.mono fun e' _ hcurrent' hun ↦ ⟨hun, fun heq ↦ by
    rw [Set.mem_singleton_iff.mp heq, hcurrent] at hcurrent'
    exact Bool.noConfusion hcurrent'⟩
  told _ _ hw := hw.told
  gone_iff _ _ := gone_iff
  retireClocks _ uri hw := hw.retireClocks uri

variable {D D' : Dispatch} {d : Nat} {f : Bool} (h : Filing (Indexed own δ β) D D')
include h

/-- That an entity has got a property is told to those who read which it has. If no batch is open
that is nobody, and the store is told next. -/
theorem agree_addProperty {w : World} {prop : String} {v : Value}
    (hw : At (Indexed own δ β (.whole ∅)) d f w) (he : e.store = 0) (hserial : 0 < e.serial)
    (hlive : (w.entity e).live = true) (hnone : (w.entity e).props.get? prop = none) :
    Agree (· = (w.addProperty e prop v).2) (@Signal.advance D (w.entity e).shape)
      (@Signal.advance D' (w.entity e).shape) (fun _ ↦ At (Indexed own δ β (.whole {e})) d f)
      fun _ ↦ False := by
  have hadded := hw.holds.addProperty (v := v) he hserial hlive hnone
  obtain ⟨hlt, hunwatched⟩ := hw.holds.tied.shape e (World.isLive_of_live he hserial hlive)
  have hshape : ((w.addProperty e prop v).2.signal (w.entity e).shape).watchers.entries = [] := by
    rw [World.signal_addProperty, if_neg (Nat.ne_of_lt hlt)]
    exact hunwatched
  exact agree_advance_unwatched h.rounds_eq Indexed.depthFree
    (fun w f hw ↦ hw.context w.depth f w.frames w.pins) (fun _ hw ↦ hw.plain.queue_eq) hadded.plain.noDeriveds
    hshape (hw.quiet (w.quiet_addProperty e prop v) rfl) (hadded.counted (.signal (w.entity e).shape))

/-- Every step of an operation on the store keeps the indices right. -/
theorem kept : Kept (fun stage _ ↦ Indexed own δ β stage) 0 D D' fun _ ↦ False where
  toTelling := h.telling filed
  write _ _ _ _ id v hw _ _ _ _ _ := hw.write id v
  store_eq _ _ hw := Ground.store_eq hw.ground
  found _ _ _ hw hfound := (Ground.coherent hw.ground).pos (World.live_of_find? hfound).2
  held _ _ hw := OnGround.held hw.ground
  addProperty _ _ _ _ _ _ hw he hserial hlive hnone :=
    agree_addProperty h hw he hserial hlive hnone
  addIncarnation _ uri kind hw hfree := hw.addIncarnation uri kind hfree
  coming _ _ _ _ hw := OnGround.coming hw.ground
  addComing _ _ _ _ _ _ hw hnone := hw.addComing hnone
  enlist _ _ _ _ hw := ⟨hw.enlist, (OnGround.enlist hw.ground).2⟩
  strike _ _ _ hw hfound := hw.strike hfound
  link _ _ _ _ hw hsource htarget hinsert :=
    hw.modifyStore (fun _ ↦ rfl) (fun _ ↦ rfl) (fun _ ↦ rfl) (fun h ↦ h)
      (OnGround.link hw.ground hsource htarget hinsert)
  unlink _ _ _ hw hremove :=
    hw.modifyStore (fun _ ↦ rfl) (fun _ ↦ rfl) (fun _ ↦ rfl) (fun h ↦ h)
      (OnGround.unlink hw.ground hremove)

end Indexed

end LiveGraph
