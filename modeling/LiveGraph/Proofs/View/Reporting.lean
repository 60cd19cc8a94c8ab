import LiveGraph.Proofs.View.Attended

/-!
# What views tell their listeners

Where scripts only write down what they are told, views keep what is owed in order: each tells a move when
it settles, and owes a change from then on; the flush tells the change.
-/

namespace LiveGraph

open Act

variable {D : Dispatch} {d : Nat} {f : Bool} {C : World → Prop} {w w' : World} {id : ViewId}
variable {n : Nat} {x : Option Listener} {P : Tally}

namespace Poised

theorem scripts (h : Poised w) (id : ViewId) : ∀ entry ∈ (w.view id).watchers.entries,
    ∃ name filter reaction, entry.2 = .script name filter reaction := by
  by_cases hid : id < w.views.size
  · exact (h.hooked.views id hid).scripts
  · rw [World.view_of_size_le (Nat.le_of_not_lt hid)]
    exact fun entry hentry ↦ absurd hentry List.not_mem_nil

end Poised

/-- A view may get other rows, or look at others of them; nothing is told before it settles. -/
theorem Attended.modifyView (h : Attended n x P w) (id : ViewId) {F : View → View} (hF : View.Keeps F)
    (hsame : ∀ v, (F v).version = v.version ∧ (F v).changing = v.changing ∧ (F v).window = v.window ∧
      (F v).watchers = v.watchers) (hdistinct : (w.view id).Distinct → (F (w.view id)).Distinct) :
    Attended n x P (w.modifyView id F) := by
  have hview : ∀ j, ((w.modifyView id F).view j).changing = (w.view j).changing ∧
      ((w.modifyView id F).view j).window = (w.view j).window ∧
      ((w.modifyView id F).view j).watchers = (w.view j).watchers := fun j ↦ by
    rw [World.view_modifyView]
    split
    · exact (hsame _).2
    · exact ⟨rfl, rfl, rfl⟩
  refine ⟨h.poised.modifyView id hF (fun v ↦ (hsame v).1) (fun v ↦ (hsame v).2.1) hdistinct,
    (w.size_modifyView id F).trans h.size_eq, fun y hy ↦ ?_⟩
  obtain ⟨hhears, events, htold, hcourse, hbound⟩ := h.follows y hy
  refine ⟨fun j event ↦ ?_, events, htold, ?_, hbound⟩
  · rw [World.hearers, (hview j).2.2]
    exact hhears j event
  · rw [(hview _).1, (hview _).2.1]
    exact hcourse

section Settle

variable (hD : Reports D) (hP : P.Grows) (hbusy : 0 < d ∨ f = true) (hid : id < n)
include hD hP hbusy hid

omit hbusy in
/-- A view that has moved tells who left and who entered, and owes a change. -/
theorem agree_tell_move (h : Attended n x P w) {u : World} (hu : Held (Retaken id w) d f u)
    (hmoved : (w.view id).window ≠ (w.view id).nextWindow) :
    let told : Act Unit := do
      @View.tell D id .leave ((w.view id).window.filter fun e ↦ !(w.view id).nextWindow.contains e)
      @View.tell D id .enter ((w.view id).nextWindow.filter fun e ↦ !(w.view id).window.contains e)
      modify (·.deferView id)
    Agree (· = u) told told (fun _ ↦ Held (Attended n x P) d f) C := by
  have hpoised := hu.holds.poised
  refine agree_bind (hD.agree_tell (hpoised.scripts id) .leave _) fun _ u₁ hu₁ ↦ ?_
  refine agree_bind (hD.agree_tell ((hpoised.noted hu₁).scripts id) .enter _) (fun _ u₂ hu₂ ↦ ?_) u₁ rfl
  have hnoted := hu₁.trans hu₂
  have hhearers : ∀ name, u₁.hearers id .enter name = u.hearers id .enter name := fun name ↦ by
    rw [World.hearers, hu₁.view_eq, World.hearers]
  simp only [hhearers] at hnoted
  obtain ⟨hdepth, hflushing⟩ : u₂.depth = d ∧ u₂.flushing = f := by
    obtain ⟨notes, rfl⟩ := hnoted.notes
    exact ⟨hu.depth_eq, hu.flushing_eq⟩
  have hsame := SameGround.deferView u₂ id
  exact ⟨rfl, h.moved hP hid hu.holds hmoved hnoted, hsame.depth_eq.trans hdepth, hsame.flushing_eq.trans hflushing⟩

/-- A view that settles tells who left and who entered, and owes a change if its window has moved. -/
theorem agree_settle_attended :
    Agree (Held (Attended n x P) d f) (@View.settle D id) (@View.settle D id)
      (fun _ ↦ Held (Attended n x P) d f) C := by
  refine agree_get fun w hw ↦ ?_
  have h := hw.holds
  have hlt : id < w.views.size := h.size_eq.symm ▸ hid
  refine agree_bind (agree_modify (Q := fun _ ↦ Held (Retaken id w) d f) fun w' hw' ↦ ?_) fun _ ↦
    agree_bind (agree_advance_busy Retaken.depthFree hbusy (Retaken.writeFreeAt hlt)) fun _ ↦
      agree_ite (fun hmoved u hu ↦ ?_) fun hstill ↦ ?_
  · subst hw'
    exact ⟨.start h.poised id, hw.depth_eq, hw.flushing_eq⟩
  · exact agree_tell_move hD hP hid h hu hmoved u rfl
  · refine agree_pure fun u hu ↦ hu.mono fun u hu ↦ ?_
    have hviews := hu.views_eq_of_still (not_not.mp hstill).symm
    exact h.congr hu.poised hviews hu.session_eq fun _ _ hp ↦ hu.effects_eq.symm ▸ hp

/-- Whatever a view is told, it keeps what is owed in order. -/
theorem agree_react_attended (what : StoreEvent) (e : EntityRef) :
    Agree (Held (Attended n x P) d f) (@View.react D id what e) (@View.react D id what e)
      (fun _ ↦ Held (Attended n x P) d f) fun _ ↦ False := by
  have hrows {w : World} (hw : Held (Attended n x P) d f w) (rows : View → List Row)
      (hnodup : (w.view id).Distinct → ((rows (w.view id)).map (·.entity)).Nodup) :
      Held (Attended n x P) d f (w.modifyView id fun v ↦ { v with rows := rows v }) :=
    ⟨hw.holds.modifyView id ⟨fun _ ↦ rfl, fun _ ↦ rfl, fun _ ↦ rfl, fun _ ↦ rfl, fun _ h ↦ h⟩
      (fun _ ↦ ⟨rfl, rfl, rfl, rfl⟩) fun h ↦ ⟨hnodup h, h.window⟩, hw.depth_eq, hw.flushing_eq⟩
  refine agree_get fun w hw ↦ agree_get fun w' hw' ↦ ?_
  subst hw'
  refine agree_ite (fun _ ↦ ?_) fun _ ↦ agree_pure fun w hw' ↦ hw' ▸ hw
  refine (Attended.robust.agree_holding (P := Attended n x P) (fun w hw ↦
    hw.context w.depth w.flushing w.frames _) (agree_ite (fun _ ↦ ?_) fun _ ↦ ?_)).pre fun w'' hw'' ↦ hw'' ▸ hw
  · refine agree_get fun w hw ↦ agree_ite (fun _ ↦ ?_) fun _ ↦ agree_pure fun w' hw' ↦ hw' ▸ hw
    refine agree_bind (agree_modify fun w' hw' ↦ ?_) fun _ ↦ agree_settle_attended hD hP hbusy hid
    exact hw' ▸ hrows hw (·.withoutRow e) fun h ↦ h.withoutRow e
  · refine agree_bind (agree_modify fun w hw ↦ ?_) fun _ ↦ agree_settle_attended hD hP hbusy hid
    exact hrows hw (fun _ ↦ View.rowsWith w id e) fun h ↦ h.rowsWith e

end Settle

/-- What is noted of other things than windows leaves the course of a view as it is. -/
theorem Attended.noted (h : Attended n x P w) (hw : Noted (fun _ ↦ []) w w') : Attended n x P w' := by
  refine ⟨h.poised.noted hw, ?_, fun y hy ↦ (h.follows y hy).noted hw⟩
  obtain ⟨notes, rfl⟩ := hw.notes
  exact h.size_eq

/-- Calls by which scripts write down what they are told, and nothing but views has to do with views. -/
structure Attentive (D : Dispatch) : Prop where
  reports : Reports D
  view : ∀ {n x d f id} {P : Tally} what event, P.Grows → 0 < d ∨ f = true → id < n →
    Agree (Held (Attended n x P) d f) (D.call (.view id what) event) (D.call (.view id what) event)
      (fun _ ↦ Held (Attended n x P) d f) fun _ ↦ False
  forget : ∀ {n x d f} {P : Tally} id event, P.Open → 0 < d ∨ f = true →
    Agree (Held (Attended n x P) d f) (D.call (.forget id) event) (D.call (.forget id) event)
      (fun _ ↦ Held (Attended n x P) d f) fun _ ↦ False
  unconcerned : ∀ {I : World → Prop} id e prop, Agree I (D.call (.forget id) (.property e prop))
    (D.call (.forget id) (.property e prop)) (fun _ ↦ I) fun _ ↦ False
  property : ∀ {n x e} {P : Tally} prop event, P.Grows → e.store = 0 →
    Agree (Held (Attended n x P) 0 true) (D.call (.property e prop) event) (D.call (.property e prop) event)
      (fun _ ↦ Held (Attended n x P) 0 true) fun _ ↦ False

namespace Attentive

variable (h : Attentive D) (hP : P.Grows)
include h hP

/-- Whatever the callbacks of the store are told, views keep what is owed in order. -/
theorem agree_notify_store (hbusy : 0 < d ∨ f = true) (what : StoreEvent) {event : Event}
    (hevent : ∀ what e, event ≠ .window what e)
    (hforget : ∀ id, Agree (Held (Attended n x P) d f) (D.call (.forget id) event) (D.call (.forget id) event)
      (fun _ ↦ Held (Attended n x P) d f) fun _ ↦ False) :
    Agree (Held (Attended n x P) d f) (@notify D (.store 0 what) event) (@notify D (.store 0 what) event)
      (fun _ ↦ Held (Attended n x P) d f) C := by
  let Q : List (Nat × Callback) → World → Prop := fun rest w ↦
    Held (Attended n x P) d f w ∧ ∀ entry ∈ rest, w.Fits what entry.2
  have hrest {entry : Nat × Callback} {rest : List (Nat × Callback)} {w w' : World} (hw : Q (entry :: rest) w)
      (hw' : Held (Attended n x P) d f w') : Q rest w' :=
    ⟨hw', fun other hother ↦ (hw.2 other (List.mem_cons_of_mem _ hother)).mono
      (Nat.le_of_eq (hw.1.holds.size_eq.trans hw'.holds.size_eq.symm))⟩
  refine agree_get fun w hw ↦ ((agree_notifyEach (P := Q) _ (fun _ _ _ w hw _ ↦ hrest hw hw.1)
    fun id callback rest w hw ↦ ?_).pre fun w' hw' ↦ ?_).post fun _ _ hw ↦ hw.1
  · have hcalled (hcall : Agree (Held (Attended n x P) d f) (D.call callback event) (D.call callback event)
        (fun _ ↦ Held (Attended n x P) d f) fun _ ↦ False) : D.call callback event w = D.call callback event w ∧
          Act.Outcome (fun _ ↦ Q rest) (Q rest) (D.call callback event w) :=
      ⟨rfl, (hcall w hw.1).2.mono (fun _ _ hw' ↦ hrest hw hw') fun _ h ↦ h.elim⟩
    have hfits := hw.2 (id, callback) List.mem_cons_self
    match callback with
    | .script name filter reaction =>
      refine hcalled fun w hw ↦ ⟨rfl, (h.reports name filter reaction event w w rfl).2.mono (fun _ w' hw' ↦ ?_)
        fun _ h ↦ h⟩
      obtain ⟨notes, hnotes⟩ := (Noted.reported_other w name filter hevent).notes
      have hnoted := hw.holds.noted (Noted.reported_other w name filter hevent)
      rw [hw']
      refine ⟨hnoted, ?_, ?_⟩
      · rw [hnotes]
        exact hw.depth_eq
      · rw [hnotes]
        exact hw.flushing_eq
    | .forget id => exact hcalled (hforget id)
    | .property _ _ => exact hfits.elim
    | .view id what' => exact hcalled (h.view what' event hP hbusy (hw.1.holds.size_eq ▸ hfits.2))
  · subst hw'
    exact ⟨hw, hw.holds.poised.hooked.listeners what⟩

/-- After a property has changed, the entity is filed anew and the listeners of the store are told. -/
theorem agree_propertyChanged {e : EntityRef} (he : e.store = 0) (prop : String) :
    Agree (Held (Attended n x P) 0 true) (@Entity.propertyChanged D e prop) (@Entity.propertyChanged D e prop)
      (fun _ ↦ Held (Attended n x P) 0 true) fun _ ↦ False := by
  refine agree_get fun w hw ↦ agree_ite (fun _ ↦ ?_) fun _ ↦ agree_pure fun w' hw' ↦ hw' ▸ hw
  refine (agree_batch_busy Attended.depthFree (.inr rfl) ?_ fun _ _ h ↦ h).pre fun w' hw' ↦ hw' ▸ hw
  refine agree_bind (agree_modifyGet (Q := fun _ ↦ Held (Attended n x P) 1 true) fun w hw ↦ ?_) fun touched ↦
    agree_bind (Q := fun _ ↦ Held (Attended n x P) 1 true) ?_ fun _ ↦ ?_
  · exact ⟨hw.holds.congr (hw.holds.poised.reindex e) rfl rfl fun _ _ h ↦ h, hw.depth_eq, hw.flushing_eq⟩
  · refine Act.agree_bumpAll (J := fun _ ↦ Attended n x P) (fun _ ↦ Attended.depthFree) (fun key _ w hw ↦ ?_) _ []
    rwa [hw.poised.counted_clock e.store he key]
  · rw [he]
    exact h.agree_notify_store hP (.inl Nat.one_pos) .updated nofun fun id ↦ h.unconcerned id e prop

end Attentive

/-- What is put off besides does not matter where nothing is claimed of it. -/
theorem Attended.write (h : Attended n x P w) (hP : P.Open) (id : SignalId) (v : Value) :
    Attended n x P (w.write id v) :=
  h.congr (h.poised.write id v) (w.views_write id v) (w.session_write id v) fun id told ↦ hP id told _ _

/-- Listeners that only write down what they are told do not get in the way of views. -/
theorem attentive_report (depth : Nat) : Attentive (Reporting.dispatch depth) := by
  induction depth with
  | zero =>
    have hrounds {P : World → Prop} {Q : Unit → World → Prop} {C : World → Prop} :
        Agree P (throw .rounds) (throw .rounds) Q C := fun _ _ ↦ ⟨rfl, trivial⟩
    exact ⟨Reporting.reports 0, fun _ _ _ _ _ ↦ hrounds, fun _ _ _ _ ↦ hrounds, fun _ _ _ ↦ hrounds,
      fun _ _ _ _ ↦ hrounds⟩
  | succ depth ih =>
    let D := Reporting.dispatch depth
    have hcall (callback : Callback) (event : Event)
        (hother : ∀ name filter reaction, callback ≠ .script name filter reaction) :
        (Reporting.dispatch (depth + 1)).call callback event = @Callback.run D callback event :=
      Client.call_other _ _ depth callback event hother
    refine ⟨Reporting.reports _, fun {n x d f id P} what event hP hbusy hid ↦ ?_, fun {n x d f P} id event hP hbusy ↦ ?_,
      fun {I} id e prop ↦ ?_, fun {n x e P} prop event hP he ↦ ?_⟩
    · rw [hcall (.view id what) event nofun]
      refine agree_get fun w hw ↦ ?_
      have hreact (e : EntityRef) : Agree (· = w) (@View.react D id what e) (@View.react D id what e)
          (fun _ ↦ Held (Attended n x P) d f) fun _ ↦ False :=
        (agree_react_attended ih.reports hP hbusy hid what e).pre fun w' hw' ↦ hw' ▸ hw
      have hskip : Agree (· = w) (pure ()) (pure ()) (fun _ : Unit ↦ Held (Attended n x P) d f) fun _ ↦ False :=
        agree_pure fun w' hw' ↦ hw' ▸ hw
      match event with
      | .entity _ e => exact hreact e
      | .property e _ => exact hreact e
      | .value _ => exact hskip
      | .edge _ _ => exact hskip
      | .window _ _ => exact hskip
      | .applied _ => exact hskip
    · rw [hcall (.forget id) event nofun]
      refine agree_get fun w hw ↦ ?_
      have hskip : Agree (· = w) (pure ()) (pure ()) (fun _ : Unit ↦ Held (Attended n x P) d f) fun _ ↦ False :=
        agree_pure fun w' hw' ↦ hw' ▸ hw
      match event with
      | .entity _ e =>
        have hforget : Agree (Held (Attended n x P) d f) (@Focus.forget D id (w.uriOf e))
            (@Focus.forget D id (w.uriOf e)) (fun _ ↦ Held (Attended n x P) d f) fun _ ↦ False :=
          agree_forget Attended.depthFree hbusy (fun _ _ h ↦ h) id (w.uriOf e) fun _ _ roles _ ↦
            WriteFree.roles (I := Attended n x P) (fun id w v hw _ ↦ hw.write hP id v) roles
        exact agree_ite (fun _ ↦ (Attended.robust.agree_holding (fun w hw ↦
          hw.context w.depth w.flushing w.frames _) hforget).pre fun w' hw' ↦ hw' ▸ hw) fun _ ↦ hskip
      | .value _ => exact hskip
      | .property _ _ => exact hskip
      | .edge _ _ => exact hskip
      | .window _ _ => exact hskip
      | .applied _ => exact hskip
    · rw [hcall (.forget id) (.property e prop) nofun]
      exact agree_get fun w hw ↦ agree_pure fun w' hw' ↦ hw' ▸ hw
    · rw [hcall (.property e prop) event nofun]
      refine agree_get fun w hw ↦ agree_ite (fun _ ↦ ?_) fun _ ↦ agree_pure fun w' hw' ↦ hw' ▸ hw
      exact (Attended.robust.agree_holding (fun w hw ↦ hw.context w.depth w.flushing w.frames _)
        (ih.agree_propertyChanged hP he prop)).pre fun w' hw' ↦ hw' ▸ hw

end LiveGraph
