import LiveGraph.Proofs.Store.Callbacks
import LiveGraph.Proofs.View.Opening

/-!
# What views do when they are called

While callbacks change no store, telling the views of an entity brings each of them up to date, one
after the other. What is left of the excuses is those of the views that are still to be told.
-/

namespace LiveGraph

open Act

namespace Stage

/-- Of which entities views are excused, as they were not told yet. -/
def untold : Stage → Excuse
  | whole untold => fun _ e ↦ e ∈ untold
  | filed untold _ => fun _ e ↦ e ∈ untold
  | coming _ _ _ => fun _ _ ↦ False
  | gone _ => fun _ _ ↦ False

/-- Of which entities there may be rows, although they have ended. -/
def ended : Stage → Excuse
  | whole _ => fun _ _ ↦ False
  | filed _ _ => fun _ _ ↦ False
  | coming _ _ _ => fun _ _ ↦ False
  | gone e => fun _ e' ↦ e' = e

/-- Whether every live entity can be found. -/
def Complete : Stage → Prop
  | coming _ _ _ => False
  | _ => True

theorem Visible.complete {stage : Stage} (h : stage.Visible) : stage.Complete := by
  match stage with
  | .whole _ => exact trivial
  | .gone _ => exact trivial

end Stage

/-- The world between the calls of one notification: nothing happens to the store. -/
structure Calm (stores : Array Store) (untold gone : Excuse) (w : World) : Prop where
  ground : Ground (fun _ ↦ False) w
  plain : Plain w
  arranged : Arranged untold gone w
  stores_eq : w.stores = stores

variable {stores : Array Store} {untold untold' gone gone' : Excuse} {w w' : World}
variable {D : Dispatch} {d : Nat} {f : Bool} {C : World → Prop} {id : ViewId} {e : EntityRef}

namespace Calm

/-- Neither evaluations nor what is held by acts under way have to do with views. -/
theorem context (h : Calm stores untold gone w) (d : Nat) (f : Bool) (frames : List Frame)
    (pins : List Pin) : Calm stores untold gone
      { w with depth := d, flushing := f, frames := frames, pins := pins } where
  ground := ⟨h.ground.coherent, h.ground.stores_size, h.ground.current⟩
  plain := ⟨h.plain.noDeriveds, h.plain.queue_eq⟩
  arranged := h.arranged.steady (.of_eq rfl rfl fun _ ↦ rfl) (fun _ ↦ h.ground.isLive_of_isCurrent)
    (fun _ ↦ rfl) rfl rfl rfl
  stores_eq := h.stores_eq

theorem depthFree : DepthFree (Calm stores untold gone) := fun w d h ↦
  h.context d w.flushing w.frames w.pins

theorem writeFree : WriteFree (Calm stores untold gone) := fun id w v h _ ↦ by
  have hstores := w.stores_write id v
  have hstore : ∀ s, (w.write id v).store s = w.store s := fun s ↦ by
    rw [World.store, hstores, World.store]
  exact ⟨h.ground.same (.write w id v), h.plain.same (.write w id v),
    h.arranged.steady (.write h.arranged.tied h.plain.noDeriveds id v)
      (fun _ ↦ h.ground.isLive_of_isCurrent) (fun s ↦ by rw [hstore]) (by rw [hstore])
      (w.views_write id v) (by rw [w.session_write]), hstores.trans h.stores_eq⟩

theorem robust : Robust (Calm stores untold gone) where
  plain _ h := h.plain
  context _ d f frames pins h := h.context d f frames pins
  reap w h := by rwa [World.reap_eq h.arranged.hooked h.plain.noDeriveds]

theorem mono (h : Calm stores untold gone w)
    (hu : ∀ id < w.views.size, ∀ e, w.isCurrent e → untold id e → untold' id e)
    (hg : ∀ id < w.views.size, ∀ e, gone id e → gone' id e) : Calm stores untold' gone' w :=
  ⟨h.ground, h.plain, h.arranged.mono hu hg, h.stores_eq⟩

theorem deferView (h : Calm stores untold gone w) (id : ViewId) :
    Calm stores untold gone (w.deferView id) where
  ground := h.ground.same (.deferView w id)
  plain := h.plain.same (.deferView w id)
  arranged := h.arranged.deferView id fun _ ↦ h.ground.isLive_of_isCurrent
  stores_eq := by
    unfold World.deferView
    split
    · exact h.stores_eq
    · exact h.stores_eq

/-- A view may be changed as long as its rows become what they should be. -/
theorem modifyView (h : Calm stores untold gone w) (id : ViewId) {f : View → View}
    (hf : View.Keeps f)
    (hfiled : (w.view id).Filters → w.Filed (untold id) (gone id) (w.view id) →
      w.Filed (untold' id) (gone' id) (f (w.view id)))
    (hother : ∀ j, id ≠ j → (∀ e, untold j e → untold' j e) ∧ ∀ e, gone j e → gone' j e) :
    Calm stores untold' gone' (w.modifyView id f) :=
  ⟨h.ground.same (.modifyView w id f), h.plain.same (.modifyView w id f),
    h.arranged.modifyView id hf hfiled hother, h.stores_eq⟩

/-- An excuse may be dropped where the rows are right without it. -/
theorem refile (h : Calm stores untold gone w) (id : ViewId)
    (hfiled : (w.view id).Filters → w.Filed (untold id) (gone id) (w.view id) →
      w.Filed (untold' id) (gone' id) (w.view id))
    (hother : ∀ j, id ≠ j → (∀ e, untold j e → untold' j e) ∧ ∀ e, gone j e → gone' j e) :
    Calm stores untold' gone' w := by
  refine ⟨h.ground, h.plain, ⟨h.arranged.tied, h.arranged.hooked, fun j hj hv ↦ ?_⟩, h.stores_eq⟩
  have hbefore := h.arranged.filed j hj hv
  by_cases heq : id = j
  · subst heq
    exact hfiled hv hbefore
  · exact hbefore.mono (fun e _ ↦ (hother j heq).1 e) (hother j heq).2

theorem isCurrent_eq (h : Calm stores untold gone w) (h' : Calm stores untold' gone' w') :
    w'.isCurrent e = w.isCurrent e := by
  have hstore : ∀ s, w'.store s = w.store s := fun s ↦ by
    rw [World.store, h'.stores_eq, ← h.stores_eq, World.store]
  rw [World.isCurrent, hstore, World.uriOf, World.entity, hstore]
  rfl

end Calm

theorem agree_holding_calm {a : Act Unit} {p : Pin} {P : World → Prop}
    (hP : ∀ w, P w → P (w.pin p))
    (h : Agree (Held (fun w ↦ Calm stores untold gone w ∧ P w) d f) a a
      (fun _ ↦ Held (Calm stores untold' gone') d f) (fun _ ↦ False)) :
    Agree (Held (fun w ↦ Calm stores untold gone w ∧ P w) d f) (a.holding p) (a.holding p)
      (fun _ ↦ Held (Calm stores untold' gone') d f) fun _ ↦ False :=
  Calm.robust.agree_holding (fun w hw ↦
    ⟨hw.1.context w.depth w.flushing w.frames (p :: w.pins), hP w hw.2⟩) h

/-- A callback that changes nothing views have to do with. -/
def Undisturbed (D : Dispatch) (callback : Callback) (event : Event) : Prop :=
  ∀ stores untold gone d f, 0 < d ∨ f = true →
    Agree (Held (Calm stores untold gone) d f) (D.call callback event) (D.call callback event)
      (fun _ ↦ Held (Calm stores untold gone) d f) (Held (Calm stores untold gone) d f)

/-- Scripts leave the store alone. -/
def Quietly (D : Dispatch) : Prop :=
  ∀ name filter reaction event, Undisturbed D (.script name filter reaction) event

namespace Quietly

variable (h : Quietly D) (hbusy : 0 < d ∨ f = true)
include h hbusy

/-- What is told about a window is told to scripts. -/
theorem agree_notify (id : ViewId) (event : Event) :
    Agree (Held (Calm stores untold gone) d f) (@notify D (.view id) event)
      (@notify D (.view id) event) (fun _ ↦ Held (Calm stores untold gone) d f) C := by
  refine agree_get fun w hw ↦ ?_
  have hscripts : ∀ entry ∈ (w.watchers (.view id)).entries, ∃ name filter reaction,
      entry.2 = .script name filter reaction := by
    by_cases hid : id < w.views.size
    · exact (hw.holds.arranged.hooked.views id hid).scripts
    · have hnone : w.view id = default := by
        simp [World.view, Array.getD_eq_getD_getElem?, Array.getElem?_eq_none (Nat.le_of_not_lt hid)]
      rw [World.watchers, hnone]
      exact fun entry hentry ↦ absurd hentry List.not_mem_nil
  refine ((agree_notifyEach (P := fun rest w ↦ Held (Calm stores untold gone) d f w ∧
    ∀ entry ∈ rest, ∃ name filter reaction, entry.2 = .script name filter reaction) _
    (fun _ _ _ _ hw _ ↦ ⟨hw.1, fun entry hentry ↦ hw.2 entry (List.mem_cons_of_mem _ hentry)⟩)
    fun n callback rest w hw ↦ ?_).pre fun w' hw' ↦ ?_).post fun _ _ hw ↦ hw.1
  · obtain ⟨name, filter, reaction, rfl⟩ := hw.2 (n, callback) List.mem_cons_self
    have hrest : ∀ entry ∈ rest, ∃ name filter reaction, entry.2 = .script name filter reaction :=
      fun entry hentry ↦ hw.2 entry (List.mem_cons_of_mem _ hentry)
    obtain ⟨heq, hout⟩ := h name filter reaction event stores untold gone d f hbusy w hw.1
    exact ⟨heq, hout.mono (fun _ _ hw ↦ ⟨hw, hrest⟩) fun _ hw ↦ ⟨hw, hrest⟩⟩
  · rw [hw']
    exact ⟨hw, hscripts⟩

theorem agree_tell (id : ViewId) (what : WindowEvent) (es : List EntityRef) :
    Agree (Held (Calm stores untold gone) d f) (@View.tell D id what es) (@View.tell D id what es)
      (fun _ ↦ Held (Calm stores untold gone) d f) C := by
  induction es with
  | nil => exact agree_pure fun _ hw ↦ hw
  | cons e rest ih => exact agree_bind (h.agree_notify hbusy id _) fun _ ↦ ih

/-- After a view has settled, its window is that of its rows. -/
theorem agree_settle (id : ViewId) :
    Agree (Held (fun w ↦ Calm stores untold gone
        (w.modifyView id fun v ↦ { v with window := v.nextWindow })) d f)
      (@View.settle D id) (@View.settle D id) (fun _ ↦ Held (Calm stores untold gone) d f) C := by
  refine agree_get fun w hw ↦ ?_
  refine agree_bind (agree_modify (Q := fun _ ↦ Held (Calm stores untold gone) d f)
    fun w' hw' ↦ ?_) fun _ ↦ ?_
  · subst hw'
    have hwindow : w'.modifyView id (fun v ↦ { v with window := (w'.view id).nextWindow }) =
        w'.modifyView id fun v ↦ { v with window := v.nextWindow } := World.modifyView_congr rfl
    rw [hwindow]
    exact ⟨hw.holds, hw.depth_eq, hw.flushing_eq⟩
  · refine agree_bind (agree_advance_busy Calm.depthFree hbusy (Calm.writeFree _)) fun _ ↦
      agree_ite (fun _ ↦ ?_) fun _ ↦ agree_pure fun _ hw ↦ hw
    refine agree_bind (h.agree_tell hbusy id .leave _) fun _ ↦ ?_
    refine agree_bind (h.agree_tell hbusy id .enter _) fun _ ↦ agree_modify fun w hw ↦ ?_
    have hsame := SameGround.deferView w id
    exact ⟨hw.holds.deferView id, hsame.depth_eq.trans hw.depth_eq,
      hsame.flushing_eq.trans hw.flushing_eq⟩

/-- A view that was told of an added or changed entity is right about it. -/
theorem agree_takeUp (hu : ∀ j e', untold j e' → (j = id ∧ e' = e) ∨ untold' j e') :
    Agree (Held (fun w ↦ Calm stores untold gone w ∧ e.store = 0 ∧ w.isCurrent e ∧
        ((w.view id).Filters → (w.view id).kind = w.kindOf e)) d f)
      (@View.takeUp D id e) (@View.takeUp D id e)
      (fun _ ↦ Held (Calm stores untold' gone) d f) C := by
  refine agree_bind (agree_modify fun w hw ↦ ?_) fun _ ↦ h.agree_settle hbusy id
  obtain ⟨hcalm, hstore, hcurrent, hkind⟩ := hw.holds
  refine ⟨?_, hw.depth_eq, hw.flushing_eq⟩
  rw [World.modifyView_modifyView]
  refine hcalm.modifyView id ⟨fun _ ↦ rfl, fun _ ↦ rfl, fun _ ↦ rfl, fun _ ↦ rfl, fun _ h ↦ h⟩
    (fun hv hfiled ↦ hfiled.takeUp hstore hcurrent (hkind hv).symm fun e' hun ↦ ?_)
    fun j hj ↦ ⟨fun e' hun ↦ ?_, fun _ h ↦ h⟩
  · exact (hu id e' hun).imp_left fun h ↦ h.2
  · exact (hu j e' hun).resolve_left fun h ↦ hj h.1.symm

/-- A view that was told of a removed entity has no row for it. -/
theorem agree_leaveOut (hg : ∀ j e', gone j e' → (j = id ∧ e' = e) ∨ gone' j e') :
    Agree (Held (fun w ↦ Calm stores untold gone w ∧ w.isCurrent e = false) d f)
      (@View.leaveOut D id e) (@View.leaveOut D id e)
      (fun _ ↦ Held (Calm stores untold gone') d f) C := by
  refine agree_get fun w hw ↦ agree_ite (fun hrow ↦ ?_) fun hnone ↦ agree_pure fun w' hw' ↦ ?_
  · refine agree_bind (agree_modify fun w' hw' ↦ ?_) fun _ ↦ h.agree_settle hbusy id
    subst hw'
    refine ⟨?_, hw.depth_eq, hw.flushing_eq⟩
    rw [World.modifyView_modifyView]
    refine hw.holds.1.modifyView id ⟨fun _ ↦ rfl, fun _ ↦ rfl, fun _ ↦ rfl, fun _ ↦ rfl, fun _ h ↦ h⟩
      (fun hv hfiled ↦ hfiled.leaveOut e hw.holds.2 fun e' hgone ↦ ?_)
      fun j hj ↦ ⟨fun _ h ↦ h, fun e' hgone ↦ ?_⟩
    · exact (hg id e' hgone).imp_left fun h ↦ h.2
    · exact (hg j e' hgone).resolve_left fun h ↦ hj h.1.symm
  · subst hw'
    refine ⟨hw.holds.1.refile id (fun _ hfiled ↦ hfiled.absent e (Bool.eq_false_iff.mpr hnone)
      fun e' hgone ↦ ?_) fun j hj ↦ ⟨fun _ h ↦ h, fun e' hgone ↦ ?_⟩, hw.depth_eq, hw.flushing_eq⟩
    · exact (hg id e' hgone).imp_left fun h ↦ h.2
    · exact (hg j e' hgone).resolve_left fun h ↦ hj h.1.symm

/-- Whatever else a view is told of an entity, it is right about it afterwards. -/
theorem agree_react_taken {what : StoreEvent} (hwhat : what ≠ .removed)
    (hu : ∀ j e', untold j e' → (j = id ∧ e' = e) ∨ untold' j e') :
    Agree (Held (fun w ↦ Calm stores untold gone w ∧ id < w.views.size ∧ e.store = 0 ∧
        w.isCurrent e) d f)
      (@View.react D id what e) (@View.react D id what e)
      (fun _ ↦ Held (Calm stores untold' gone) d f) fun _ ↦ False := by
  refine agree_get fun w hw ↦ agree_get fun w' hw' ↦ ?_
  subst hw'
  obtain ⟨hcalm, hid, hstore, hcurrent⟩ := hw.holds
  refine agree_ite (fun hkind ↦ ?_) fun hkind ↦ agree_pure fun w hw' ↦ ?_
  · rw [if_neg hwhat]
    refine (agree_holding_calm (P := fun w ↦ e.store = 0 ∧ w.isCurrent e ∧
      ((w.view id).Filters → (w.view id).kind = w.kindOf e)) (fun _ h ↦ h)
      (h.agree_takeUp hbusy hu)).pre fun w hw' ↦ ?_
    subst hw'
    refine ⟨⟨hcalm, hstore, hcurrent, fun ⟨_, _, _, hwild⟩ ↦ ?_⟩, hw.depth_eq, hw.flushing_eq⟩
    simp only [Bool.and_eq_true, Bool.or_eq_true, decide_eq_true_eq] at hkind
    exact hkind.2.resolve_left hwild
  · subst hw'
    have hundisposed := (hcalm.arranged.hooked.views id hid).undisposed
    simp only [hundisposed, Bool.not_false, Bool.true_and, Bool.or_eq_true, decide_eq_true_eq,
      not_or] at hkind
    refine ⟨hcalm.refile id (fun _ hfiled ↦ hfiled.other (e := e) (fun heq ↦ hkind.2 heq.symm)
      (fun e' hun ↦ (hu id e' hun).imp_left fun h ↦ h.2) fun _ ↦ .inr) fun j hj ↦
      ⟨fun e' hun ↦ (hu j e' hun).resolve_left fun h ↦ hj h.1.symm, fun _ h ↦ h⟩,
      hw.depth_eq, hw.flushing_eq⟩

theorem agree_react_left (hg : ∀ j e', gone j e' → (j = id ∧ e' = e) ∨ gone' j e') :
    Agree (Held (fun w ↦ Calm stores untold gone w ∧ id < w.views.size ∧ w.isCurrent e = false) d f)
      (@View.react D id .removed e) (@View.react D id .removed e)
      (fun _ ↦ Held (Calm stores untold gone') d f) fun _ ↦ False := by
  refine agree_get fun w hw ↦ agree_get fun w' hw' ↦ ?_
  subst hw'
  obtain ⟨hcalm, hid, hcurrent⟩ := hw.holds
  refine agree_ite (fun _ ↦ ?_) fun hkind ↦ agree_pure fun w hw' ↦ ?_
  · rw [if_pos rfl]
    refine (agree_holding_calm (P := fun w ↦ w.isCurrent e = false) (fun _ h ↦ h)
      (h.agree_leaveOut hbusy hg)).pre fun w hw' ↦ ?_
    subst hw'
    exact ⟨⟨hcalm, hcurrent⟩, hw.depth_eq, hw.flushing_eq⟩
  · subst hw'
    have hundisposed := (hcalm.arranged.hooked.views id hid).undisposed
    simp only [hundisposed, Bool.not_false, Bool.true_and, Bool.or_eq_true, decide_eq_true_eq,
      not_or] at hkind
    refine ⟨hcalm.refile id (fun _ hfiled ↦ hfiled.other (e := e) (fun heq ↦ hkind.2 heq.symm)
      (fun _ ↦ .inr) fun e' hgone ↦ (hg id e' hgone).imp_left fun h ↦ h.2) fun j hj ↦
      ⟨fun _ h ↦ h, fun e' hgone ↦ (hg j e' hgone).resolve_left fun h ↦ hj h.1.symm⟩,
      hw.depth_eq, hw.flushing_eq⟩

end Quietly

namespace Excuse

variable {excuse : Excuse} {what : StoreEvent} {rest : List (Nat × Callback)} {e' : EntityRef}

/-- What is left of an excuse while some callbacks are still to be told of an entity. -/
def left (excuse : Excuse) (what : StoreEvent) (e : EntityRef) (rest : List (Nat × Callback)) :
    Excuse := fun id e' ↦
  excuse id e' ∧ (e' = e → ∃ n, (n, Callback.view id what) ∈ rest)

theorem left_nil (h : excuse.left what e [] id e') : excuse id e' ∧ e' ≠ e := by
  refine ⟨h.1, fun heq ↦ ?_⟩
  obtain ⟨n, hn⟩ := h.2 heq
  exact List.not_mem_nil hn

theorem left_skip {n : Nat} {callback : Callback} (hother : ∀ id, callback ≠ .view id what)
    (h : excuse.left what e ((n, callback) :: rest) id e') : excuse.left what e rest id e' := by
  refine ⟨h.1, fun heq ↦ ?_⟩
  obtain ⟨m, hm⟩ := h.2 heq
  refine ⟨m, (List.mem_cons.mp hm).resolve_left fun hentry ↦ hother id ?_⟩
  exact (Prod.mk.inj hentry).2.symm

theorem left_call {n : Nat} {j : ViewId} (h : excuse.left what e ((n, .view id what) :: rest) j e') :
    (j = id ∧ e' = e) ∨ excuse.left what e rest j e' := by
  by_cases heq : j = id ∧ e' = e
  · exact .inl heq
  · refine .inr ⟨h.1, fun he ↦ ?_⟩
    obtain ⟨m, hm⟩ := h.2 he
    refine ⟨m, (List.mem_cons.mp hm).resolve_left fun hentry ↦ heq ⟨?_, he⟩⟩
    exact (Callback.view.inj (Prod.mk.inj hentry).2).1

end Excuse

/-- The world at each stage of an operation, as far as views have to do with it. -/
structure Viewed (stage : Stage) (w : World) : Prop where
  ground : OnGround stage w
  plain : Plain w
  arranged : Arranged stage.untold stage.ended w
  absent : ∀ e, stage = .gone e → w.isCurrent e = false

/-- Calls by which scripts leave the store alone, and everything else is taken care of. -/
structure Tame (D : Dispatch) : Prop where
  quietly : Quietly D
  forget : ∀ id event, Undisturbed D (.forget id) event
  edge : ∀ id what what' edge, Undisturbed D (.view id what) (.edge what' edge)
  taken : ∀ {stores untold untold' gone d f id what e event}, 0 < d ∨ f = true → what ≠ .removed →
    (event = .entity what e ∨ ∃ prop, event = .property e prop) →
    (∀ j e', untold j e' → (j = id ∧ e' = e) ∨ untold' j e') →
    Agree (Held (fun w ↦ Calm stores untold gone w ∧ id < w.views.size ∧ e.store = 0 ∧
        w.isCurrent e) d f)
      (D.call (.view id what) event) (D.call (.view id what) event)
      (fun _ ↦ Held (Calm stores untold' gone) d f) fun _ ↦ False
  left : ∀ {stores untold gone gone' d f id e}, 0 < d ∨ f = true →
    (∀ j e', gone j e' → (j = id ∧ e' = e) ∨ gone' j e') →
    Agree (Held (fun w ↦ Calm stores untold gone w ∧ id < w.views.size ∧ w.isCurrent e = false) d f)
      (D.call (.view id .removed) (.entity .removed e))
      (D.call (.view id .removed) (.entity .removed e))
      (fun _ ↦ Held (Calm stores untold gone') d f) fun _ ↦ False
  property : ∀ {untold : Set EntityRef} {e} prop event, e.store = 0 →
    Agree (Held (Viewed (.whole untold)) 0 true) (D.call (.property e prop) event)
      (D.call (.property e prop) event) (fun _ ↦ Held (Viewed (.whole (untold \ {e}))) 0 true)
      fun _ ↦ False

namespace Tame

variable (h : Tame D) (hbusy : 0 < d ∨ f = true)
include h hbusy

/-- Telling the callbacks of the store, as what is excused goes by which of them are left. -/
theorem agree_notify_store {what : StoreEvent} {event : Event} {P : World → Prop}
    {U G : List (Nat × Callback) → Excuse}
    (hP : ∀ w w' U G U' G', Calm stores U G w → Calm stores U' G' w' → P w → P w')
    (hskip : ∀ n callback rest w, (∀ id, callback ≠ .view id what) →
      Calm stores (U ((n, callback) :: rest)) (G ((n, callback) :: rest)) w →
      Calm stores (U rest) (G rest) w)
    (hcall : ∀ n id rest, Agree
      (Held (fun w ↦ Calm stores (U ((n, .view id what) :: rest)) (G ((n, .view id what) :: rest)) w ∧
        id < w.views.size ∧ P w) d f)
      (D.call (.view id what) event) (D.call (.view id what) event)
      (fun _ ↦ Held (Calm stores (U rest) (G rest)) d f) (Held (Calm stores (U rest) (G rest)) d f)) :
    Agree (Held (fun w ↦ Calm stores (U ((w.store 0).listeners.get what).entries)
        (G ((w.store 0).listeners.get what).entries) w ∧ P w) d f)
      (@notify D (.store 0 what) event) (@notify D (.store 0 what) event)
      (fun _ ↦ Held (fun w ↦ Calm stores (U []) (G []) w ∧ P w) d f) C := by
  let Q : List (Nat × Callback) → World → Prop := fun rest w ↦
    Held (fun w ↦ Calm stores (U rest) (G rest) w ∧ P w) d f w ∧
      ∀ entry ∈ rest, entry ∈ ((w.store 0).listeners.get what).entries
  have hstore : ∀ {w w' U G U' G'}, Calm stores U G w → Calm stores U' G' w' →
      w'.store 0 = w.store 0 := fun hw hw' ↦ by
    rw [World.store, hw'.stores_eq, ← hw.stores_eq, World.store]
  have hafter : ∀ {n callback rest w w'}, Q ((n, callback) :: rest) w →
      Held (Calm stores (U rest) (G rest)) d f w' → Q rest w' := by
    intro n callback rest w w' hw hw'
    refine ⟨⟨⟨hw'.holds, hP _ _ _ _ _ _ hw.1.holds.1 hw'.holds hw.1.holds.2⟩, hw'.depth_eq,
      hw'.flushing_eq⟩, fun entry hentry ↦ ?_⟩
    rw [hstore hw.1.holds.1 hw'.holds]
    exact hw.2 entry (List.mem_cons_of_mem _ hentry)
  refine agree_get fun w hw ↦ ?_
  refine ((agree_notifyEach (P := Q) _ (fun n callback rest w hw hgone ↦ ?_)
    fun n callback rest w hw ↦ ?_).pre fun w' hw' ↦ ?_).post fun _ _ hw ↦ hw.1
  · have hmem := hw.2 (n, callback) List.mem_cons_self
    have hthere : (w.watchers (.store 0 what)).contains n = true :=
      List.any_eq_true.mpr ⟨_, hmem, decide_eq_true rfl⟩
    rw [hgone] at hthere
    exact Bool.noConfusion hthere
  · have hundisturbed : Undisturbed D callback event → (∀ id, callback ≠ .view id what) →
        D.call callback event w = D.call callback event w ∧
          Act.Outcome (fun _ ↦ Q rest) (Q rest) (D.call callback event w) := fun hcallback hother ↦ by
      obtain ⟨heq, hout⟩ := hcallback stores _ _ d f hbusy w
        ⟨hw.1.holds.1, hw.1.depth_eq, hw.1.flushing_eq⟩
      have hrest : ∀ w', Held (Calm stores (U ((n, callback) :: rest)) (G ((n, callback) :: rest))) d f
          w' → Q rest w' := fun w' hw' ↦
        hafter hw (hw'.mono fun w ↦ hskip n callback rest w hother)
      exact ⟨heq, hout.mono (fun _ ↦ hrest) hrest⟩
    have hfits := hw.1.holds.1.arranged.hooked.listeners what (n, callback)
      (hw.2 (n, callback) List.mem_cons_self)
    cases callback with
    | script name filter reaction =>
      exact hundisturbed (h.quietly name filter reaction event) (by simp)
    | forget id => exact hundisturbed (h.forget id event) (by simp)
    | property _ _ => exact hfits.elim
    | view id what' =>
      obtain ⟨rfl, hid⟩ := hfits
      obtain ⟨heq, hout⟩ := hcall n id rest w
        ⟨⟨hw.1.holds.1, hid, hw.1.holds.2⟩, hw.1.depth_eq, hw.1.flushing_eq⟩
      exact ⟨heq, hout.mono (fun _ w' hw' ↦ hafter hw hw') fun w' hw' ↦ hafter hw hw'⟩
  · subst hw'
    exact ⟨⟨hw.holds, hw.depth_eq, hw.flushing_eq⟩, fun _ h ↦ h⟩

/-- After the views were told of an entity that was added or has changed, none is excused of it. -/
theorem agree_notify_taken {event : Event} (what : StoreEvent)
    (hwhat : what ∈ [StoreEvent.added, .removed, .updated]) (hnot : what ≠ .removed)
    (hevent : event = .entity what e ∨ ∃ prop, event = .property e prop) :
    Agree (Held (fun w ↦ Calm stores untold gone w ∧ e.store = 0 ∧ w.isCurrent e) d f)
      (@notify D (.store 0 what) event) (@notify D (.store 0 what) event)
      (fun _ ↦ Held (Calm stores (fun id e' ↦ untold id e' ∧ e' ≠ e) gone) d f) C := by
  refine (h.agree_notify_store hbusy (U := fun rest ↦ untold.left what e rest) (G := fun _ ↦ gone)
    (P := fun w ↦ e.store = 0 ∧ w.isCurrent e)
    (fun w w' _ _ _ _ (hw : Calm stores _ _ w) hw' hP ↦ ?_) (fun n callback rest w hother hw ↦ ?_)
    fun n id rest ↦ ?_).mono (fun w hw ↦ ?_) (fun _ w hw ↦ ?_) fun _ h ↦ h
  · exact ⟨hP.1, (hw.isCurrent_eq hw').trans hP.2⟩
  · exact hw.mono (fun id _ e' _ ↦ Excuse.left_skip hother) fun _ _ _ h ↦ h
  · exact (h.taken hbusy hnot hevent fun j e' ↦ Excuse.left_call).mono (fun _ h ↦ h) (fun _ _ h ↦ h)
      fun _ h ↦ h.elim
  · refine hw.mono fun w hw ↦ ⟨hw.1.mono (fun id hid e' _ hun ↦ ⟨hun, fun _ ↦ ?_⟩)
      fun _ _ _ h ↦ h, hw.2⟩
    exact (hw.1.arranged.hooked.views id hid).listens what hwhat
  · exact hw.mono fun w hw ↦ hw.1.mono (fun id _ e' _ ↦ Excuse.left_nil) fun _ _ _ h ↦ h

/-- After the views were told of an entity that was removed, none has a row for it. -/
theorem agree_notify_left :
    Agree (Held (fun w ↦ Calm stores untold gone w ∧ w.isCurrent e = false) d f)
      (@notify D (.store 0 .removed) (.entity .removed e))
      (@notify D (.store 0 .removed) (.entity .removed e))
      (fun _ ↦ Held (Calm stores untold fun id e' ↦ gone id e' ∧ e' ≠ e) d f) C := by
  refine (h.agree_notify_store hbusy (U := fun _ ↦ untold) (G := fun rest ↦ gone.left .removed e rest)
    (P := fun w ↦ w.isCurrent e = false)
    (fun w w' _ _ _ _ (hw : Calm stores _ _ w) hw' hP ↦ ?_) (fun n callback rest w hother hw ↦ ?_)
    fun n id rest ↦ ?_).mono (fun w hw ↦ ?_) (fun _ w hw ↦ ?_) fun _ h ↦ h
  · exact (hw.isCurrent_eq hw').trans hP
  · exact hw.mono (fun _ _ _ _ h ↦ h) fun id _ e' ↦ Excuse.left_skip hother
  · exact (h.left hbusy fun j e' ↦ Excuse.left_call).mono (fun _ h ↦ h) (fun _ _ h ↦ h)
      fun _ h ↦ h.elim
  · refine hw.mono fun w hw ↦ ⟨hw.1.mono (fun _ _ _ _ h ↦ h) fun id hid e' hgone ↦
      ⟨hgone, fun _ ↦ ?_⟩, hw.2⟩
    exact (hw.1.arranged.hooked.views id hid).listens .removed (by simp)
  · exact hw.mono fun w hw ↦ hw.1.mono (fun _ _ _ _ h ↦ h) fun id _ e' ↦ Excuse.left_nil

/-- What is told of an edge is nothing to the views. -/
theorem agree_notify_edge (what what' : StoreEvent) (edge : Edge) :
    Agree (Held (Calm stores untold gone) d f) (@notify D (.store 0 what) (.edge what' edge))
      (@notify D (.store 0 what) (.edge what' edge)) (fun _ ↦ Held (Calm stores untold gone) d f)
      C := by
  refine (h.agree_notify_store hbusy (U := fun _ ↦ untold) (G := fun _ ↦ gone) (P := fun _ ↦ True)
    (fun w _ _ _ _ _ (_ : Calm stores _ _ w) _ h ↦ h) (fun _ _ _ _ _ hw ↦ hw)
    fun n id rest ↦ ?_).mono
    (fun w hw ↦ hw.mono fun _ hw ↦ ⟨hw, trivial⟩) (fun _ w hw ↦ hw.mono fun _ hw ↦ hw.1) fun _ h ↦ h
  exact (h.edge id what what' edge stores untold gone d f hbusy).pre fun w hw ↦
    hw.mono fun _ hw ↦ hw.1

end Tame

end LiveGraph
