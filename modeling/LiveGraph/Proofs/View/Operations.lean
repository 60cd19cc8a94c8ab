import LiveGraph.Proofs.Store.Stages
import LiveGraph.Proofs.View.Calls

/-!
# Operations on a store that has views

Every step of an operation on the store keeps the views right about all entities but the one that
the operation is about, and the notification at its end makes them right about that one.
-/

namespace LiveGraph

open Act

variable {stage stage' : Stage} {w w' : World} {D : Dispatch} {d : Nat} {f : Bool} {e : EntityRef}
variable {stores : Array Store} {untold gone : Excuse} {C : World → Prop}

theorem OnGround.isLive_of_isCurrent (h : OnGround stage w) (he : e.store = 0)
    (hcurrent : w.isCurrent e) : w.IsLive 0 e := by
  match stage with
  | .whole _ => exact Ground.isLive_of_isCurrent h he hcurrent
  | .filed _ _ => exact Ground.isLive_of_isCurrent h he hcurrent
  | .coming _ _ _ => exact h.1.isLive_of_isCurrent he hcurrent
  | .gone _ => exact Ground.isLive_of_isCurrent h he hcurrent

/-- A change of parts of a store that views have nothing to do with. -/
theorem Arranged.modifyStore (h : Arranged untold gone w)
    (hlive : ∀ e : EntityRef, e.store = 0 → w.isCurrent e → w.IsLive 0 e) (s : StoreId)
    {F : Store → Store} (hincarnations : ∀ s, (F s).incarnations = s.incarnations)
    (htable : ∀ s, (F s).live = s.live) (hlisteners : ∀ s, (F s).listeners = s.listeners) :
    Arranged untold gone (w.modifyStore s F) := by
  exact h.steady (.of_eq rfl rfl fun s' ↦ w.part_modifyStore (·.incarnations) hincarnations s s') hlive
    (fun s' ↦ w.part_modifyStore (·.live) htable s s')
    (w.part_modifyStore (·.listeners) hlisteners s 0) rfl rfl

namespace Viewed

/-- A change that leaves the ground, the entities, the callbacks and the views as they are. -/
theorem same (h : Viewed stage w) (hsame : SameGround w w')
    (harranged : Arranged stage.untold stage.ended w') (hcurrent : ∀ e, w'.isCurrent e = w.isCurrent e) :
    Viewed stage w' :=
  ⟨h.ground.same hsame, h.plain.same hsame, harranged, fun e he ↦ (hcurrent e).trans (h.absent e he)⟩

theorem isLive (h : Viewed stage w) (e : EntityRef) : e.store = 0 → w.isCurrent e → w.IsLive 0 e :=
  h.ground.isLive_of_isCurrent

theorem write (h : Viewed stage w) (id : SignalId) (v : Value) : Viewed stage (w.write id v) := by
  have hstore : ∀ s, (w.write id v).store s = w.store s := fun s ↦ by
    rw [World.store, w.stores_write, World.store]
  refine h.same (.write w id v) (h.arranged.steady
    (.write h.arranged.tied h.plain.noDeriveds id v) h.isLive (fun s ↦ by rw [hstore])
    (by rw [hstore]) (w.views_write id v) (by rw [w.session_write])) fun e ↦ ?_
  rw [World.isCurrent, hstore, World.uriOf, World.entity, hstore]
  rfl

theorem counted (h : Viewed stage w) (t : Topic) : Viewed stage (w.counted t) := by
  obtain heq | ⟨id, v, -, heq⟩ := w.counted_cases t
  · rwa [heq]
  · rw [heq]
    exact h.write id v

/-- Neither evaluations nor what is held by acts under way have to do with views. -/
theorem context (h : Viewed stage w) (d : Nat) (f : Bool) (frames : List Frame) (pins : List Pin) :
    Viewed stage { w with depth := d, flushing := f, frames := frames, pins := pins } := by
  exact ⟨OnGround.context h.ground d f frames pins, ⟨h.plain.noDeriveds, h.plain.queue_eq⟩,
    h.arranged.steady (.of_eq rfl rfl fun _ ↦ rfl) h.isLive (fun _ ↦ rfl) rfl rfl rfl, h.absent⟩

theorem robust : Robust (Viewed stage) where
  plain _ h := h.plain
  context _ d f frames pins h := h.context d f frames pins
  reap w h := by rwa [World.reap_eq h.arranged.hooked h.plain.noDeriveds]

theorem depthFree : DepthFree (Viewed stage) := robust.depthFree

theorem calm (h : Viewed stage w) (hcomplete : stage.Complete) :
    Calm w.stores stage.untold stage.ended w := by
  match stage with
  | .whole _ => exact ⟨h.ground, h.plain, h.arranged, rfl⟩
  | .filed _ _ => exact ⟨h.ground, h.plain, h.arranged, rfl⟩
  | .gone _ => exact ⟨h.ground, h.plain, h.arranged, rfl⟩

theorem modifyStore (h : Viewed stage w) {F : Store → Store}
    (hincarnations : ∀ s, (F s).incarnations = s.incarnations) (htable : ∀ s, (F s).live = s.live)
    (hlisteners : ∀ s, (F s).listeners = s.listeners) (hground : OnGround stage (w.modifyStore 0 F)) :
    Viewed stage (w.modifyStore 0 F) := by
  refine ⟨hground, ⟨h.plain.noDeriveds, h.plain.queue_eq⟩,
    h.arranged.modifyStore h.isLive 0 hincarnations htable hlisteners, fun e he ↦ ?_⟩
  rw [← h.absent e he, World.isCurrent, w.part_modifyStore (·.live) htable 0 e.store, World.uriOf,
    World.entity, Store.incarnation, w.part_modifyStore (·.incarnations) hincarnations 0 e.store]
  rfl

theorem mono {U U' : Set EntityRef} (h : Viewed (.whole U) w)
    (hU : ∀ e, w.isCurrent e → e ∈ U → e ∈ U') : Viewed (.whole U') w :=
  ⟨h.ground, h.plain, h.arranged.mono (fun _ _ ↦ hU) fun _ _ _ h ↦ h, fun _ he ↦ nomatch he⟩

/-- After a notification was taken up, the store is untold of the entity it is about, if any. -/
theorem excusing : Excusing fun U ↦ Viewed (.whole U) where
  robust _ := robust
  ground _ _ h := h.ground
  tied _ _ h := h.arranged.tied
  pop U U' w w' effect h hU hpopped htold := by
    refine ⟨hpopped.ground h.ground, hpopped.plain h.plain,
      h.arranged.pop hpopped fun _ e hun ↦ ?_, fun _ he ↦ nomatch he⟩
    rcases hun with hun | ⟨prop, id, he, hid⟩
    · exact hU hun
    · exact htold e prop id he hid

end Viewed

/-- Of a new property it is not told yet. -/
theorem Viewed.addProperty {prop : String} {v : Value} (h : Viewed (.whole ∅) w) (he : e.store = 0)
    (hserial : 0 < e.serial) (hlive : (w.entity e).live = true)
    (hnone : (w.entity e).props.get? prop = none) :
    Viewed (.whole {e}) (w.addProperty e prop v).2 := by
  have hsame := SameGround.addProperty w e prop v hserial
  have hisLive := World.isLive_of_live he hserial hlive
  refine ⟨(show OnGround (.whole {e}) w from h.ground).same hsame, h.plain.same hsame,
    h.arranged.addProperty h.ground hisLive hnone (fun _ _ h ↦ h.elim) fun _ e' _ hun ↦ ?_,
    fun _ he ↦ nomatch he⟩
  rcases hun with hun | rfl
  · exact absurd hun (Set.notMem_empty e')
  · exact Set.mem_singleton e

theorem Calm.viewed {U : Set EntityRef} (h : Calm stores untold gone w)
    (hu : ∀ id e, untold id e → e ∈ U) (hg : ∀ id e, ¬gone id e) : Viewed (.whole U) w where
  ground := h.ground
  plain := h.plain
  arranged := h.arranged.mono (fun id _ e _ ↦ hu id e) fun id _ e hgone ↦ hg id e hgone
  absent _ he := nomatch he

/-- What is kept whatever the store is keeps the views right. -/
theorem agree_viewed {a : Act Unit} {P : World → Prop} (hcomplete : stage.Complete)
    (h : ∀ stores, Agree (Held (fun w ↦ Calm stores stage.untold stage.ended w ∧ P w) d f) a a
      (fun _ ↦ Held (Calm stores untold gone) d f) C)
    (hpost : ∀ stores w w', Viewed stage w → Calm stores stage.untold stage.ended w →
      Calm stores untold gone w' → Viewed stage' w') :
    Agree (Held (fun w ↦ Viewed stage w ∧ P w) d f) a a (fun _ ↦ Held (Viewed stage') d f) C := by
  intro w hw
  have hcalm := hw.holds.1.calm hcomplete
  obtain ⟨heq, hout⟩ := h w.stores w ⟨⟨hcalm, hw.holds.2⟩, hw.depth_eq, hw.flushing_eq⟩
  exact ⟨heq, hout.mono (fun _ w' hw' ↦ hw'.mono fun w' ↦ hpost _ w w' hw.holds.1 hcalm) fun _ h ↦ h⟩

namespace Tame

variable (h : Tame D)
include h

/-- Telling that a window has changed. -/
theorem agree_effect_view {U : Set EntityRef} (id : ViewId) :
    Agree (Held (Viewed (.whole U)) 0 true) (@Effect.run D (.view id)) (@Effect.run D (.view id))
      (fun _ ↦ Held (Viewed (.whole U)) 0 true) fun _ ↦ False := by
  have htell : Agree (Held (fun w ↦ Viewed (.whole U) w ∧ True) 0 true)
      (Act.holding (.view id) do
        modify (·.modifyView id fun v ↦ { v with changing := false })
        if !((← get).view id).disposed then @notify D (.view id) (.window .change none)) _
      (fun _ ↦ Held (Viewed (.whole U)) 0 true) fun _ ↦ False :=
    agree_viewed trivial (fun stores ↦ agree_holding_calm (fun _ h ↦ h) (agree_bind
      (agree_modify (Q := fun _ ↦ Held (Calm stores _ _) 0 true) fun w hw ↦
        ⟨hw.holds.1.modifyView id ⟨fun _ ↦ rfl, fun _ ↦ rfl, fun _ ↦ rfl, fun _ ↦ rfl, fun _ h ↦ h⟩
          (fun _ hfiled ↦ hfiled.tell _ _) fun _ _ ↦ ⟨fun _ h ↦ h, fun _ h ↦ h⟩, hw.depth_eq,
          hw.flushing_eq⟩)
      fun _ ↦ agree_get fun w hw ↦ agree_ite (fun _ ↦ (h.quietly.agree_notify (.inr rfl) id _).pre
        fun w' hw' ↦ hw' ▸ hw) fun _ ↦ agree_pure fun w' hw' ↦ hw' ▸ hw))
      fun stores w w' _ _ hw' ↦ hw'.viewed (fun _ _ h ↦ h) fun _ _ h ↦ h
  refine agree_get fun w hw ↦ agree_ite (fun _ ↦ ?_) fun _ ↦ agree_pure fun w' hw' ↦ hw' ▸ hw
  exact htell.pre fun w' hw' ↦ hw' ▸ hw.mono fun _ h ↦ ⟨h, trivial⟩

/-- A changed property is told to the store, which knows of its entity from then on. -/
theorem agree_told_property {U : Set EntityRef} (he : e.store = 0) (prop : String) (event : Event) :
    Agree (Held (Viewed (.whole (insert e U))) 0 true) (D.call (.property e prop) event)
      (D.call (.property e prop) event) (fun _ ↦ Held (Viewed (.whole U)) 0 true) fun _ ↦ False := by
  refine (h.property prop event he).post fun _ w hw ↦ hw.mono fun w hw ↦ hw.mono fun e' _ hun ↦ ?_
  exact (Set.mem_insert_iff.mp hun.1).resolve_left hun.2

theorem agree_flush (U : Set EntityRef) :
    Agree (Held (Viewed (.whole U)) 0 false) (@flush D) (@flush D)
      (fun _ ↦ At (Viewed (.whole U)) 0 false) fun _ ↦ False :=
  Viewed.excusing.agree_flush rfl (fun _ prop event he ↦ h.agree_told_property he prop event)
    h.agree_effect_view

theorem agree_told_edge (hcomplete : stage.Complete) (what what' : StoreEvent) (edge : Edge) :
    Agree (Held (Viewed stage) (d + 1) f) (@notify D (.store 0 what) (.edge what' edge))
      (@notify D (.store 0 what) (.edge what' edge)) (fun _ ↦ Held (Viewed stage) (d + 1) f) C := by
  refine ((agree_viewed (P := fun _ ↦ True) hcomplete (fun stores ↦
    (h.agree_notify_edge (.inl (Nat.succ_pos d)) what what' edge).pre fun w hw ↦
      hw.mono fun _ hw ↦ hw.1) fun stores w w' hw hcalm hcalm' ↦ ?_).pre
    fun w hw ↦ hw.mono fun w hw ↦ ⟨hw, trivial⟩)
  match stage with
  | .whole U => exact hcalm'.viewed (fun _ _ h ↦ h) fun _ _ h ↦ h
  | .filed U e => exact ⟨hcalm'.ground, hcalm'.plain, hcalm'.arranged, fun _ he ↦ nomatch he⟩
  | .gone e =>
    refine ⟨hcalm'.ground, hcalm'.plain, hcalm'.arranged, fun e' he' ↦ ?_⟩
    rw [hcalm.isCurrent_eq hcalm']
    exact hw.absent e' he'

/-- Of an updated entity the views are told, whatever else they were not told of. -/
theorem agree_updated {U : Set EntityRef} (he : e.store = 0) (prop : String) :
    Agree (Held (fun w ↦ Viewed (.filed U e) w ∧ w.isCurrent e) (d + 1) f)
      (@notify D (.store 0 .updated) (.property e prop))
      (@notify D (.store 0 .updated) (.property e prop))
      (fun _ ↦ Held (Viewed (.whole (U \ {e}))) (d + 1) f) C := by
  refine agree_viewed (P := fun w ↦ w.isCurrent e) (show (Stage.filed U e).Complete from trivial)
    (fun stores ↦ (h.agree_notify_taken (.inl (Nat.succ_pos d)) .updated (by simp) nofun
      (.inr ⟨prop, rfl⟩)).pre fun w hw ↦ hw.mono fun w hw ↦ ⟨hw.1, he, hw.2⟩)
    fun stores w w' _ _ hw' ↦ ?_
  exact hw'.viewed (fun _ _ h ↦ h) fun _ _ h ↦ h

/-- Every step of an operation on the store keeps the views right. -/
theorem kept : Kept (fun stage _ ↦ Viewed stage) 0 D D fun _ ↦ False where
  depthFree _ _ := Viewed.depthFree
  write _ _ w _ id v hw _ _ _ _ _ := hw.write id v
  count _ _ _ w hw := hw.counted _
  flush := h.agree_flush ∅
  crash _ _ h := h
  store_eq w e hw := Ground.store_eq hw.ground
  found w uri e hw hfound := (Ground.coherent hw.ground).pos (World.live_of_find? hfound).2
  held _ w hw := OnGround.held hw.ground
  addProperty w e prop v d f hw he hserial hlive hnone := by
    have hadded := hw.holds.addProperty (v := v) he hserial hlive hnone
    exact agree_advance Viewed.depthFree (hw.quiet (w.quiet_addProperty e prop v) rfl)
      (hadded.counted (.signal (w.entity e).shape)) fun _ _ ↦ h.agree_flush {e}
  reindex U _ w e hw he _ := by
    obtain ⟨s, n⟩ := e
    obtain rfl : s = 0 := he
    have hfiled : Viewed (.filed U ⟨0, n⟩) w := ⟨hw.ground, hw.plain, hw.arranged, fun _ he ↦ nomatch he⟩
    exact hfiled.modifyStore (fun _ ↦ rfl) (fun _ ↦ rfl) (fun _ ↦ rfl)
      (hfiled.ground.same (.reindex w ⟨0, n⟩))
  obsolete _ w e hw _ hcurrent := hw.mono fun e' hcurrent' hun ↦ ⟨hun, fun heq ↦ by
    rw [Set.mem_singleton_iff.mp heq, hcurrent] at hcurrent'
    exact Bool.noConfusion hcurrent'⟩
  updated e prop d f he := by
    have hupdated := h.agree_updated (d := d) (f := f) (U := {e}) (C := fun _ ↦ False) he prop
    rwa [told] at hupdated
  addIncarnation w uri kind hw hfree := by
    refine ⟨OnGround.addIncarnation hw.ground uri kind hfree, ⟨hw.plain.noDeriveds, hw.plain.queue_eq⟩,
      ?_, fun _ he ↦ nomatch he⟩
    exact (hw.arranged.addIncarnation hw.ground hfree fun _ _ h ↦ h).mono
      (fun _ _ e _ hun ↦ Set.notMem_empty e hun) fun _ _ _ h ↦ h
  coming _ _ _ _ hw := OnGround.coming hw.ground
  addComing w e uri kind prop v hw hnone := by
    obtain ⟨hground, hnew⟩ := hw.ground
    have hsame := SameGround.addProperty w e prop v hnew.serial_pos
    have hisLive := (World.isLive_iff_entity e).mpr
      ⟨hnew.store_eq, hnew.serial_pos, hnew.serial_le, hnew.live⟩
    refine ⟨hw.ground.same hsame, hw.plain.same hsame, hw.arranged.addProperty hground hisLive hnone
      (fun _ _ h ↦ h.elim) fun _ e' hcurrent hun ↦ hun.elim (fun h ↦ h) fun heq ↦ ?_,
      fun _ he ↦ nomatch he⟩
    subst heq
    exact ((hground.isCurrent_iff hnew.store_eq).mp hcurrent).2.2.1 rfl
  enlist w e uri kind hw := by
    obtain ⟨hground, hcurrent⟩ := OnGround.enlist hw.ground
    refine ⟨⟨hground, ⟨hw.plain.noDeriveds, hw.plain.queue_eq⟩, hw.arranged.enlist hw.ground
      (fun _ _ h ↦ h) fun _ e' hun ↦ ?_, fun _ he ↦ nomatch he⟩, hcurrent⟩
    exact hun.elim (fun h ↦ h.elim) fun heq ↦ heq.symm
  added e d f he := by
    refine (agree_viewed (P := fun w ↦ w.isCurrent e)
      (show (Stage.filed {e} e).Complete from trivial) (fun stores ↦
      (h.agree_notify_taken (.inl (Nat.succ_pos d)) .added (by simp) nofun
        (.inl rfl)).pre fun w hw ↦ hw.mono fun w hw ↦ ⟨hw.1, he, hw.2⟩) fun stores w w' _ _ hw' ↦ ?_)
    exact hw'.viewed (fun _ _ hun ↦ absurd hun.1 hun.2) fun _ _ h ↦ h
  strike w uri e hw hfound := by
    have hground := OnGround.strike hw.ground hfound
    have hplain : Plain ((w.strike e).2.modifyEntity e fun x ↦ { x with live := false }) :=
      ⟨hw.plain.noDeriveds, hw.plain.queue_eq⟩
    have harranged : Arranged _ (Stage.ended (.gone e)) _ := hw.arranged.strike hw.ground hfound
      (fun _ _ hgone ↦ hgone.elim (fun h ↦ h.elim) fun heq ↦ heq.symm) fun _ _ h ↦ h.elim
    refine ⟨hground, hplain.same (.retire (w.strike e).2 e), harranged.mono
      (fun _ _ e' _ hun ↦ Set.notMem_empty e' hun) fun _ _ _ h ↦ h, fun e' he' ↦ ?_⟩
    obtain rfl := Stage.gone.inj he'
    refine Bool.eq_false_iff.mpr fun hcurrent ↦ ?_
    have hlive := (Ground.isCurrent_iff_isLive hground (World.live_of_find? hfound).1).mp hcurrent
    exact (((World.struck_of_find? hw.ground hfound).isLive_iff e).mp hlive).2 rfl
  cut stage ks edge d f hvisible := h.agree_told_edge hvisible.complete .edgeRemoved .edgeRemoved edge
  removed e d f he := by
    refine ((agree_viewed (P := fun w ↦ w.isCurrent e = false)
      (show (Stage.gone e).Complete from trivial)
      (fun stores ↦ h.agree_notify_left (.inl (Nat.succ_pos d))) fun stores w w' _ _ hw' ↦ ?_).pre
      fun w hw ↦ hw.mono fun w hw ↦ ⟨hw, hw.absent e rfl⟩)
    exact hw'.viewed (fun _ _ hun ↦ hun.elim) fun _ _ hgone ↦ hgone.2 hgone.1
  retireClocks w uri hw := by
    unfold World.retireClocks
    dsimp only
    split
    all_goals exact hw.modifyStore (fun _ ↦ rfl) (fun _ ↦ rfl) (fun _ ↦ rfl) (hw.ground.same
      (.modifyStore w 0 _ fun _ ↦ ⟨rfl, rfl, rfl, rfl, fun _ _ ↦ rfl, fun _ _ ↦ rfl, fun _ _ ↦ rfl⟩))
  link w edge atFront edges hw hsource htarget hinsert :=
    hw.modifyStore (fun _ ↦ rfl) (fun _ ↦ rfl) (fun _ ↦ rfl)
      (OnGround.link hw.ground hsource htarget hinsert)
  linked edge d f := h.agree_told_edge (show (Stage.whole ∅).Complete from trivial) .edgeAdded .edgeAdded edge
  unlink w edge edges hw hremove :=
    hw.modifyStore (fun _ ↦ rfl) (fun _ ↦ rfl) (fun _ ↦ rfl) (OnGround.unlink hw.ground hremove)

theorem agree_edit (edit : Edit) :
    Agree (At (Viewed (.whole ∅)) d f) (@Edit.perform D 0 edit) (@Edit.perform D 0 edit)
      (fun _ ↦ At (Viewed (.whole ∅)) d f) fun _ ↦ False :=
  h.kept.agree_perform h.kept.flushes edit fun w name kind x _ hw ↦
    (show Viewed (.whole ∅) w from hw).modifyStore (fun _ ↦ rfl) (fun _ ↦ rfl) (fun _ ↦ rfl)
      (OnGround.same (Viewed.ground hw) (.putIndex w 0 name kind x))

end Tame

end LiveGraph
