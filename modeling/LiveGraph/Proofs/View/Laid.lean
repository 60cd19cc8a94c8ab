import LiveGraph.Proofs.View.Told
import LiveGraph.Proofs.View.Window

/-!
# Laying out views that are listened to

Edits of the store, and moves of windows, keep the views right and what they owe in order. So does everything
else by which code lays out a store and the views over it.
-/

namespace LiveGraph

open Act

variable {stage : Stage} {D : Dispatch} {d : Nat} {f : Bool} {w w' : World}
variable {n : Nat} {x : Option Listener} {P : Tally}

theorem Calm.reported {stores : Array Store} {untold gone : Excuse} (h : Calm stores untold gone w)
    (name : String) (filter : EventFilter) (event : Event) :
    Calm stores untold gone (w.reported name filter event) := by
  obtain ⟨notes, heq⟩ := w.reported_eq name filter event
  rw [heq]
  exact ⟨⟨h.ground.coherent, h.ground.stores_size, h.ground.current⟩,
    ⟨h.plain.noDeriveds, h.plain.queue_eq⟩, h.arranged.steady (.of_eq rfl rfl fun _ ↦ rfl)
      (fun _ ↦ h.ground.isLive_of_isCurrent) (fun _ ↦ rfl) rfl rfl rfl, h.stores_eq⟩

/-- Listeners that only write down what they are told leave the views right. -/
theorem tame_report (depth : Nat) : Tame (Reporting.dispatch depth) := by
  refine tame_of_quietly Reporting.perform _ (fun depth _ ↦ ?_) depth
  intro name filter reaction event stores untold gone d f _ w hw
  rw [Reporting.call_script]
  obtain ⟨notes, heq⟩ := w.reported_eq name filter event
  have hreported := hw.holds.reported name filter event
  rw [heq] at hreported ⊢
  exact ⟨rfl, hreported, hw.depth_eq, hw.flushing_eq⟩

/-- What is done beside the views, and puts nothing off, leaves what they owe as it is. -/
theorem Attended.beside (h : Attended n x P w) (hviewed : Viewed stage w') (haloof : Aloof w w')
    (hviews : w'.views = w.views) (heffects : w'.effects = w.effects) (htraced : w.Traced → w'.Traced) :
    Attended n x P w' := by
  refine h.congr ?_ hviews haloof.session_eq fun _ _ hp ↦ heffects ▸ hp
  exact h.poised.congr hviewed.plain hviewed.arranged.tied hviewed.arranged.hooked hviews haloof.owner_eq
    haloof.noClocks (fun _ ↦ by rw [heffects]) htraced

theorem Attended.advanced (h : Attended n x P w) (hP : P.Open) (id : SignalId) :
    Attended n x P (w.advanced id) := by
  obtain heq | ⟨-, v, heq⟩ := w.advanced_cases id
  · rwa [heq]
  · rw [heq]
    exact h.write hP id v

section Kept

variable (hD : Attentive D) (hP : P.Open)
include hD hP

/-- What the callbacks of the store are told keeps what is owed in order, if it keeps the views right. -/
theorem agree_notify_followed {stage' : Stage} {I I' C : World → Prop} (what : StoreEvent) {event : Event}
    (hevent : ∀ what e, event ≠ .window what e)
    (h : Agree (Held I' (d + 1) f) (@notify D (.store 0 what) event) (@notify D (.store 0 what) event)
      (fun _ ↦ Held (Viewed stage') (d + 1) f) C)
    (hI : ∀ w, I w → I' w ∧ Attended n x P w) :
    Agree (Held I (d + 1) f) (@notify D (.store 0 what) event) (@notify D (.store 0 what) event)
      (fun _ ↦ Held (Followed stage' n x P) (d + 1) f) C := by
  have hbusy : 0 < d + 1 ∨ f = true := .inl (Nat.succ_pos d)
  have hattended := hD.agree_notify_store (n := n) (x := x) (C := C) hP.grows hbusy what hevent fun id ↦
    hD.forget id event hP hbusy
  exact Followed.agree h hattended hI

/-- A view that is not there has nothing to tell. -/
theorem agree_settle_open (hbusy : 0 < d ∨ f = true) (id : ViewId) :
    Agree (Held (Attended n x P) d f) (@View.settle D id) (@View.settle D id) (fun _ ↦ Held (Attended n x P) d f)
      fun _ ↦ False := by
  by_cases hid : id < n
  · exact agree_settle_attended hD.reports hP.grows hbusy hid
  refine agree_get fun w hw ↦ ?_
  have hle : w.views.size ≤ id := hw.holds.size_eq ▸ Nat.le_of_not_lt hid
  rw [World.view_of_size_le hle]
  refine agree_bind (agree_modify (Q := fun _ ↦ Held (Attended n x P) d f) fun w' hw' ↦ ?_) fun _ ↦
    agree_bind (agree_advance_busy Attended.depthFree hbusy fun w v hw _ ↦ hw.write hP _ v) fun _ ↦
      agree_ite (fun hmoved ↦ absurd rfl hmoved) fun _ ↦ agree_pure fun _ hw ↦ hw
  subst hw'
  rwa [World.modifyView_of_size_le hle]

variable (htame : Tame D)
include htame

/-- Every step of an operation on the store keeps the views right and what they owe in order. -/
theorem keeping_followed : Keeping (fun stage _ ↦ Followed stage n x P) 0 D D fun _ ↦ False where
  depthFree _ _ := Followed.robust.depthFree
  write _ _ w _ id v hw _ _ _ _ _ := ⟨hw.1.write id v, hw.2.write hP id v⟩
  count _ key _ w hw := by rwa [hw.2.poised.counted_clock 0 rfl key]
  crash _ _ h := h
  store_eq w e hw := htame.kept.store_eq w e hw.1
  found w uri e hw := htame.kept.found w uri e hw.1
  held U w hw := htame.kept.held U w hw.1
  addProperty w e prop v d f hw he hserial hlive hnone := by
    have hadded := hw.holds.1.addProperty (v := v) he hserial hlive hnone
    have hafter := hw.holds.2.beside hadded (.addProperty w e prop v) rfl rfl (·.addProperty e prop v)
    obtain ⟨hlt, hunwatched⟩ := hw.holds.2.poised.tied.shape e (World.isLive_of_live he hserial hlive)
    have hshape : ((w.addProperty e prop v).2.signal (w.entity e).shape).watchers.entries = [] := by
      rw [World.signal_addProperty, if_neg (Nat.ne_of_lt hlt)]
      exact hunwatched
    exact agree_advance_unwatched rfl Followed.robust.depthFree
      (fun w f hw ↦ Followed.robust.context w w.depth f w.frames w.pins hw) (fun _ hw ↦ hw.1.plain.queue_eq)
      hadded.plain.noDeriveds hshape (hw.quiet (w.quiet_addProperty e prop v) rfl)
      ⟨hadded.counted (.signal (w.entity e).shape), hafter.advanced hP _⟩
  reindex U ks w e hw he hcurrent :=
    have hviewed := htame.kept.reindex U ks w e hw.1 he hcurrent
    ⟨hviewed, hw.2.beside hviewed (.modifyStore w e.store _ fun h ↦ h) rfl rfl (·.reindex e)⟩
  obsolete U w e hw he hcurrent := ⟨htame.kept.obsolete U w e hw.1 he hcurrent, hw.2⟩
  updated e prop d f he := agree_notify_followed hD hP .updated nofun (htame.kept.updated e prop d f he)
    fun _ hw ↦ ⟨⟨hw.1.1, hw.2⟩, hw.1.2⟩
  added e d f he := agree_notify_followed hD hP .added nofun (htame.kept.added e d f he)
    fun _ hw ↦ ⟨⟨hw.1.1, hw.2⟩, hw.1.2⟩
  cut stage ks edge d f hvisible := agree_notify_followed hD hP .edgeRemoved nofun
    (htame.kept.cut stage ks edge d f hvisible) fun _ hw ↦ hw
  removed e d f he := agree_notify_followed hD hP .removed nofun (htame.kept.removed e d f he) fun _ hw ↦ hw
  linked edge d f := agree_notify_followed hD hP .edgeAdded nofun (htame.kept.linked edge d f) fun _ hw ↦ hw
  retireClocks w uri hw := by
    have hviewed := htame.kept.retireClocks w uri hw.1
    refine ⟨hviewed, hw.2.beside hviewed (.retireClocks w 0 uri) ?_ (w.quiet_retireClocks 0 uri).effects_eq
      (·.retireClocks 0 uri)⟩
    unfold World.retireClocks
    dsimp only
    split <;> rfl
  addIncarnation w uri kind hw hfree :=
    have hviewed := htame.kept.addIncarnation w uri kind hw.1 hfree
    ⟨hviewed, hw.2.beside hviewed (.addIncarnation w 0 uri kind) rfl rfl (·.addIncarnation 0 uri kind)⟩
  coming w e uri kind hw := htame.kept.coming w e uri kind hw.1
  addComing w e uri kind prop v hw hnone :=
    have hviewed := htame.kept.addComing w e uri kind prop v hw.1 hnone
    ⟨hviewed, hw.2.beside hviewed (.addProperty w e prop v) rfl rfl (·.addProperty e prop v)⟩
  enlist w e uri kind hw := by
    obtain ⟨hviewed, hcurrent⟩ := htame.kept.enlist w e uri kind hw.1
    exact ⟨⟨hviewed, hw.2.beside hviewed (.modifyStore w e.store _ fun h ↦ h) rfl rfl
      (·.beside e.store (by intro; rfl))⟩, hcurrent⟩
  strike w uri e hw hfound :=
    have hviewed := htame.kept.strike w uri e hw.1 hfound
    ⟨hviewed, hw.2.beside hviewed ((Aloof.modifyStore w e.store _ fun h ↦ h).trans (.retire _ e))
      (World.struck_of_find? hw.1.ground hfound).views_eq
      ((w.quiet_strike e).trans (World.quiet_retire _ e)).effects_eq
      fun h ↦ (h.strike e).congr (World.struck_of_find? hw.1.ground hfound).indices_eq⟩
  link w edge atFront edges hw hsource htarget hinsert :=
    have hviewed := htame.kept.link w edge atFront edges hw.1 hsource htarget hinsert
    ⟨hviewed, hw.2.beside hviewed (.modifyStore w 0 _ fun h ↦ h) rfl rfl (·.beside 0 (by intro; rfl))⟩
  unlink w edge edges hw hremove :=
    have hviewed := htame.kept.unlink w edge edges hw.1 hremove
    ⟨hviewed, hw.2.beside hviewed (.modifyStore w 0 _ fun h ↦ h) rfl rfl (·.beside 0 (by intro; rfl))⟩

/-- An edit keeps what a flush after it keeps. -/
theorem agree_edit_followed
    (hflush : Flushes (fun stage _ ↦ Followed stage n x P) D D (fun _ ↦ False) d f) (edit : Edit) :
    Agree (At (Followed (.whole ∅) n x P) d f) (@Edit.perform D 0 edit) (@Edit.perform D 0 edit)
      (fun _ ↦ At (Followed (.whole ∅) n x P) d f) fun _ ↦ False :=
  (keeping_followed hD hP htame).agree_perform hflush edit fun w name kind x _ hw ↦ by
    have hviewed : Viewed (.whole ∅) (w.putIndex 0 name kind x) :=
      Viewed.modifyStore hw.1 (fun _ ↦ rfl) (fun _ ↦ rfl) (fun _ ↦ rfl)
        (OnGround.same (Viewed.ground hw.1) (.putIndex w 0 name kind x))
    exact ⟨hviewed, hw.2.beside hviewed (.modifyStore w 0 _ fun h ↦ h) rfl rfl (·.putIndex name kind x)⟩

variable (hflush : Flushes (fun stage _ ↦ Followed stage n x P) D D (fun _ ↦ False) d f)
include hflush

theorem agree_moving_followed (id : ViewId) {F : View → View} (hF : View.Moves F) :
    Agree (Held (Followed (.whole ∅) n x P) d f) (@View.moving D id F) (@View.moving D id F)
      (fun _ ↦ At (Followed (.whole ∅) n x P) d f) fun _ ↦ False := by
  intro w hw
  let Moved : World → Prop := fun w' ↦ Calm w.stores (Stage.whole ∅).untold (Stage.whole ∅).ended
    (w'.modifyView id fun v ↦ { v with window := v.nextWindow }) ∧ Attended n x P w'
  have hdepth : DepthFree Moved := fun w d hw ↦
    ⟨Calm.depthFree _ d hw.1, hw.2.context d w.flushing w.frames w.pins⟩
  have hbusy : 0 < d + 1 ∨ f = true := .inl (Nat.succ_pos d)
  have hsettle : Agree (Held Moved (d + 1) f) (@View.settle D id) (@View.settle D id)
      (fun _ ↦ Held (Followed (.whole ∅) n x P) (d + 1) f) fun _ ↦ False :=
    Followed.agree ((htame.quietly.agree_settle hbusy id).post fun _ w hw ↦
      hw.mono fun w hw ↦ hw.viewed (fun _ _ h ↦ h) fun _ _ h ↦ h) (agree_settle_open hD hP hbusy id)
        fun _ hw ↦ hw
  suffices hmoving : Agree (· = w) (@View.moving D id F) (@View.moving D id F)
    (fun _ ↦ At (Followed (.whole ∅) n x P) d f) fun _ ↦ False from hmoving w rfl
  refine agree_bind (agree_modify (Q := fun _ ↦ Held Moved d f) fun w' hw' ↦ ?_) fun _ ↦
    agree_bind (agree_batch hdepth Followed.robust.depthFree hsettle hflush fun _ h ↦ h.elim) fun _ ↦
      agree_pure fun _ hw ↦ hw
  subst hw'
  refine ⟨⟨(hw.holds.1.calm trivial).moved id hF, ?_⟩, hw.depth_eq, hw.flushing_eq⟩
  exact hw.holds.2.modifyView id hF.keeps (fun v ↦
    ⟨hF.version_eq v, hF.changing_eq v, hF.window_eq v, hF.watchers_eq v⟩) fun h ↦
      ⟨(hF.rows_eq _).symm ▸ h.rows, (hF.window_eq _).symm ▸ h.window⟩

end Kept

/-- The views are right and nothing but what waits is owed. -/
def Laid (w : World) : Prop :=
  Viewed (.whole ∅) w ∧ Poised w

namespace Laid

theorem followed (h : Laid w) : Followed (.whole ∅) w.views.size none .any w :=
  ⟨h.1, h.2, rfl, nofun⟩

theorem depthFree : DepthFree Laid := fun w d h ↦
  ⟨h.1.context d w.flushing w.frames w.pins, h.2.context d w.flushing w.frames w.pins⟩

/-- What keeps the views right and what is owed in order, however many views there are. -/
theorem agree {a : Act Unit}
    (h : ∀ n, Agree (At (Followed (.whole ∅) n none .any) d f) a a (fun _ ↦ At (Followed (.whole ∅) n none .any) d f)
      fun _ ↦ False) : Agree (At Laid d f) a a (fun _ ↦ At Laid d f) fun _ ↦ False := by
  intro w hw
  obtain ⟨heq, hout⟩ := h w.views.size w ⟨⟨hw.holds.followed, hw.depth_eq, hw.flushing_eq⟩, hw.idle⟩
  exact ⟨heq, hout.mono (fun _ w hw ↦ hw.mono fun w hw ↦ ⟨hw.1, hw.2.poised⟩) fun _ h ↦ h⟩

theorem laying : Laying Laid where
  listen w event name filter h := by
    have hviewed := h.1.listen event name filter
    exact ⟨hviewed, h.2.congr hviewed.plain hviewed.arranged.tied hviewed.arranged.hooked rfl (fun _ _ ↦ rfl)
      (Aloof.modifyStore w 0 _ fun h ↦ h).noClocks (fun _ ↦ rfl) (·.beside 0 (by intro; rfl))⟩
  watch w id name filter h := by
    refine ⟨h.1.watch id name filter, h.2.modifyView id (f := fun v ↦
      { v with watchers := v.watchers.add (.script name filter []) }) ⟨fun _ ↦ rfl, fun _ ↦ rfl, fun _ ↦ rfl,
        fun _ ↦ rfl, fun v hv entry hentry ↦ ?_⟩ (fun _ ↦ rfl) (fun _ ↦ rfl) fun h ↦ ⟨h.rows, h.window⟩⟩
    rcases List.mem_append.mp hentry with hold | hnew
    · exact hv entry hold
    · rw [List.mem_singleton.mp hnew]
      exact ⟨name, filter, [], rfl⟩
  openView w query kind window name h hkind hname := by
    obtain ⟨heq, hviewed, hquiet⟩ := h.1.openView window hkind hname
    obtain ⟨v, hadd, -, -, hrows, hwindow, -, -, -, hversion, hchanging⟩ := w.addView_eq query kind window
    let w₁ := (w.addSignal (.int 0) .same (.view w.views.size)).2
    have haloof : Aloof w (w₁.attach w.views.size) :=
      ((Aloof.addSignal w _ _ _).trans (.modifyStore _ 0 _ fun h ↦ h)).trans
        ((Aloof.modifyStore _ 0 _ fun h ↦ h).trans (.modifyStore _ 0 _ fun h ↦ h))
    rw [heq, hadd] at hviewed hquiet ⊢
    let opened := World.modifySession { w₁.attach w.views.size with views := w.views.push v } fun s ↦
      { s with views := s.views.insert name w.views.size }
    have hview : ∀ id, opened.view id = if id = w.views.size then v else w.view id :=
      (w₁.attach w.views.size).view_push w.views v
    have hsize : opened.views.size = w.views.size + 1 := Array.size_push ..
    have htraced₁ : w₁.Traced := h.2.traced
    have htraced : opened.Traced := (htraced₁.attach w.views.size).congr rfl
    have hdistinct : v.Distinct := by
      have hground : Ground (fun _ ↦ False) w := h.1.ground
      have hnodup : (v.rows.map (·.entity)).Nodup := hrows ▸ query.nodup_rows (w := w₁) hground.coherent htraced₁
      exact ⟨hnodup, hwindow ▸ View.nodup_nextWindow hnodup⟩
    refine ⟨⟨hviewed, hviewed.plain, hviewed.arranged.tied, hviewed.arranged.hooked, fun id hid ↦ ?_,
      haloof.noClocks h.2.noClocks, fun id ↦ ?_, htraced, fun id ↦ ?_⟩, hquiet⟩
    · rw [hview]
      by_cases hnew : id = w.views.size
      · rw [if_pos hnew, hversion]
        refine ⟨w.views.size, congrArg Signal.owner ((w.signal_addSignal _ _ _ _).trans (if_pos rfl))⟩
      · have hid : id < w.views.size :=
          Nat.lt_of_le_of_ne (Nat.le_of_lt_succ (Nat.lt_of_lt_of_eq hid hsize)) hnew
        obtain ⟨j, hj⟩ := h.2.versions id hid
        rw [if_neg hnew]
        exact ⟨j, (haloof.owner_eq _ (h.2.version_lt hid)).trans hj⟩
    · rw [hview]
      have hwaiting := h.2.waiting id
      by_cases hnew : id = w.views.size
      · rw [if_pos hnew, hchanging]
        rwa [World.view_of_size_le (Nat.le_of_eq hnew.symm)] at hwaiting
      · rwa [if_neg hnew]
    · rw [hview]
      split
      · exact hdistinct
      · exact h.2.distinct id

end Laid

end LiveGraph
