import LiveGraph.Proofs.Focus.Moorings

/-!
# What a focus holds on to

Whatever is held in a role names a live entity of that type. While the listeners of a removal are being told, what
was removed may still be held; the first of them clears it. Every step of an operation on the store keeps this.
-/

namespace LiveGraph.Focus

open World Act

/-- Whatever is held in a role names a live entity of that type, or something that was removed while some are
still to be told of it. -/
structure Anchored (gone : Set EntityRef) (w : World) : Prop where
  known : ∀ e ∈ gone, e.store = 0 ∧ w.knows e
  held : ∀ scope name j uri, (w.state 0).slot? (.role scope name) = some j → (w.valueOf j).asStr? = some uri →
    (∃ e ∈ gone, w.uriOf e = uri) ∨ ∃ e, w.find? 0 uri = some e ∧ w.kindOf e = name

/-- What was removed and not told of at a stage of an operation, when some was before. -/
def excused (gone : Set EntityRef) : Stage → Set EntityRef
  | .whole _ => gone
  | .filed _ _ => gone
  | .coming _ _ _ => gone
  | .gone e => insert e gone

/-- The focus at a stage of an operation on its store. -/
structure Moored (gone : Set EntityRef) (stage : Stage) (w : World) : Prop where
  setting : Setting stage w
  anchored : Anchored (excused gone stage) w

section Steps

variable {gone gone' : Set EntityRef} {stage stage' : Stage} {w w' : World}

/-- What is found is known. -/
theorem Setting.of_found (h : Setting stage w) {uri : Uri} {e : EntityRef} (hfound : w.find? 0 uri = some e) :
    e.store = 0 ∧ w.knows e ∧ w.uriOf e = uri := by
  obtain ⟨hstore, hlive⟩ := World.live_of_find? hfound
  have hknown {hidden : Nat → Prop} (hground : Ground hidden w) : e.store = 0 ∧ w.knows e ∧ w.uriOf e = uri := by
    obtain ⟨hpos, hle, -, huri, -⟩ := (hground.coherent.live_iff uri e.serial).mp hlive
    refine ⟨hstore, ?_, ?_⟩
    · rw [World.knows, hstore, Bool.and_eq_true, decide_eq_true_eq, decide_eq_true_eq]
      exact ⟨hpos, hle⟩
    · rw [World.uriOf, World.entity, hstore]
      exact huri
  cases stage with
  | whole _ => exact hknown h.ground
  | filed _ _ => exact hknown h.ground
  | gone _ => exact hknown h.ground
  | coming _ _ _ => exact hknown h.ground.1

/-- All entities there were still have their names. -/
def SameNames (w w' : World) : Prop :=
  ∀ e : EntityRef, e.store = 0 → w.knows e → w'.knows e ∧ w'.uriOf e = w.uriOf e ∧ w'.kindOf e = w.kindOf e

theorem sameNames_of_sameGround (h : SameGround w w') : SameNames w w' := fun e he hknows ↦ by
  simp only [World.knows, Bool.and_eq_true, decide_eq_true_eq] at hknows ⊢
  rw [World.uriOf, World.kindOf, World.entity, World.uriOf, World.kindOf, World.entity, he, h.store.size_eq,
    h.store.uri_eq _ hknows.1, h.store.kind_eq _ hknows.1]
  exact ⟨he ▸ hknows, rfl, rfl⟩

namespace Anchored

/-- What is held is the same, and all entities there were still have their names. -/
theorem kept (h : Anchored gone w) (hstate : w'.state 0 = w.state 0)
    (hvalue : ∀ j, IsSlot w 0 j → w'.valueOf j = w.valueOf j) (hnames : SameNames w w') (hsub : gone ⊆ gone')
    (hgone : ∀ e ∈ gone', e.store = 0 ∧ w.knows e)
    (hfind : ∀ uri e, w.find? 0 uri = some e →
      (∃ e ∈ gone', w.uriOf e = uri) ∨ w'.find? 0 uri = some e ∧ w'.kindOf e = w.kindOf e) : Anchored gone' w' where
  known e he := ⟨(hgone e he).1, (hnames e (hgone e he).1 (hgone e he).2).1⟩
  held scope name j uri hj hvalue' := by
    rw [hstate] at hj
    rw [hvalue j ⟨_, hj⟩] at hvalue'
    have hexcused : (∃ e ∈ gone', w.uriOf e = uri) → ∃ e ∈ gone', w'.uriOf e = uri := fun ⟨e, he, huri⟩ ↦
      ⟨e, he, (hnames e (hgone e he).1 (hgone e he).2).2.1.trans huri⟩
    rcases h.held scope name j uri hj hvalue' with ⟨e, he, huri⟩ | ⟨e, hfound, rfl⟩
    · exact .inl (hexcused ⟨e, hsub he, huri⟩)
    · exact (hfind uri e hfound).imp hexcused fun ⟨hfound, hkind⟩ ↦ ⟨e, hfound, hkind⟩

end Anchored

namespace Moored

theorem context (h : Moored gone stage w) (d : Nat) (f : Bool) (frames : List Frame) (pins : List Pin) :
    Moored gone stage { w with depth := d, flushing := f, frames := frames, pins := pins } :=
  ⟨h.setting.context d f frames pins, ⟨h.anchored.known, h.anchored.held⟩⟩

theorem reap (h : Moored gone stage w) : Moored gone stage w.reap := by
  rwa [h.setting.reap_eq]

theorem depthFree : DepthFree (Moored gone stage) := fun w d h ↦ h.context d w.flushing w.frames w.pins

theorem plain (h : Moored gone stage w) : Plain w := h.setting.plain

/-- A step that leaves the tables of entities alone and what is held. -/
theorem steady (h : Moored gone stage w) (hsetting : Setting stage' w') (hexcused : excused gone stage' = excused gone stage)
    (hb : Beside w w') (hvalue : ∀ j, IsSlot w 0 j → w'.valueOf j = w.valueOf j)
    (hnames : SameNames w w') (hfind : ∀ uri, w'.find? 0 uri = w.find? 0 uri) : Moored gone stage' w' := by
  refine ⟨hsetting, hexcused ▸ h.anchored.kept (hb.state_eq 0) hvalue hnames (fun _ h ↦ h) h.anchored.known
    fun uri e hfound ↦ .inr ⟨(hfind uri).trans hfound, ?_⟩⟩
  obtain ⟨hstore, hknows, -⟩ := h.setting.of_found hfound
  exact (hnames e hstore hknows).2.2

/-- A step on the same ground that leaves the entities alone and what is held. -/
theorem same (h : Moored gone stage w) (hsetting : Setting stage w') (hb : Beside w w') (hsame : SameGround w w')
    (hvalue : ∀ j, IsSlot w 0 j → w'.valueOf j = w.valueOf j) : Moored gone stage w' :=
  h.steady hsetting rfl hb hvalue (sameNames_of_sameGround hsame) fun uri ↦ by
    rw [World.find?, hsame.store.live_eq, World.find?]

/-- To write a signal of an entity changes nothing that is held. -/
theorem write_part (h : Moored gone stage w) {e : EntityRef} (he : w.IsLive 0 e) {id : SignalId}
    (hid : w.PartOf e id) (v : Value) : Moored gone stage (w.write id v) := by
  refine h.same (h.setting.write id v) (.write w h.plain.noDeriveds id v) (.write w id v) fun j hj ↦ ?_
  rw [World.valueOf_write_of_ne _ h.plain.noDeriveds]
  rintro rfl
  exact h.setting.not_isSlot he hid hj

theorem assigned_part (h : Moored gone stage w) {e : EntityRef} (he : w.IsLive 0 e) {id : SignalId}
    (hid : w.PartOf e id) (v : Value) : Moored gone stage (w.assigned id v) := by
  rcases w.assigned_cases id v with heq | ⟨-, heq⟩
  · rwa [heq]
  · rw [heq]
    exact h.write_part he hid v

/-- No clock was ever started. -/
theorem counted_clock (h : Moored gone stage w) (key : ClockKey) : w.counted (.clock 0 key) = w := by
  have hnone : (w.store 0).clocks.get? key = none := by
    rw [h.setting.noClocks]
    rfl
  simp only [World.counted, hnone]

/-- A change of other tables of a store. -/
theorem modifyStore (h : Moored gone stage w) (s : StoreId) (F : Store → Store)
    (hlisteners : ∀ s, (F s).listeners = s.listeners) (hincarnations : ∀ s, (F s).incarnations = s.incarnations)
    (hlive : ∀ s, (F s).live = s.live) (hclocks : (w.store s).clocks = ∅ → (F (w.store s)).clocks = ∅)
    (hground : OnGround stage' (w.modifyStore s F)) (hexcused : excused gone stage' = excused gone stage) :
    Moored gone stage' (w.modifyStore s F) := by
  have hsame : ∀ s', ((w.modifyStore s F).store s').incarnations = (w.store s').incarnations := fun s' ↦
    w.part_modifyStore (·.incarnations) hincarnations s s'
  refine h.steady (h.setting.modifyStore s F hlisteners hincarnations hclocks hground) hexcused
    (.modifyStore w s F hlisteners hclocks) (fun _ _ ↦ rfl) (fun e he hknows ↦ ?_) fun uri ↦ ?_
  · rw [World.knows, hsame, World.uriOf, World.kindOf, World.entity, Store.incarnation, hsame]
    exact ⟨hknows, rfl, rfl⟩
  · rw [World.find?, w.part_modifyStore (·.live) hlive, World.find?]

theorem reindex (h : Moored gone (.whole untold) w) (e : EntityRef) : Moored gone (.filed untold e) (w.reindex e).2 :=
  h.modifyStore e.store _ (fun _ ↦ rfl) (fun _ ↦ rfl) (fun _ ↦ rfl) (fun h ↦ h)
    (Ground.same h.setting.ground (.reindex w e)) rfl

theorem putIndex (h : Moored gone stage w) (s : StoreId) (name kind : String) (x : Extractor) :
    Moored gone stage (w.putIndex s name kind x) :=
  h.modifyStore s _ (fun _ ↦ rfl) (fun _ ↦ rfl) (fun _ ↦ rfl) (fun h ↦ h)
    (h.setting.ground.same (.putIndex w s name kind x)) rfl

theorem retireClocks (h : Moored gone stage w) (uri : Uri) : Moored gone stage (w.retireClocks 0 uri) := by
  have hb := Beside.retireClocks w 0 uri
  have hsame := SameGround.retireClocks w 0 uri
  have hentity : ∀ e, (w.retireClocks 0 uri).entity e = w.entity e := fun e ↦ by
    have hincarnations : ((w.retireClocks 0 uri).store e.store).incarnations = (w.store e.store).incarnations := by
      unfold World.retireClocks
      dsimp only
      split <;> exact w.part_modifyStore (·.incarnations) (by intro; rfl) 0 e.store
    rw [World.entity, Store.incarnation, hincarnations, World.entity, Store.incarnation]
  have hsignals : ∀ j, (w.retireClocks 0 uri).valueOf j = w.valueOf j := fun j ↦ by
    unfold World.retireClocks
    dsimp only
    split <;> rfl
  exact h.same (h.setting.same hb hsame fun e ↦ by rw [hentity]; exact ⟨rfl, rfl⟩) hb hsame fun j _ ↦ hsignals j

theorem addProperty (h : Moored gone stage w) {e : EntityRef} (he : w.IsLive 0 e) (prop : String) (v : Value) :
    Moored gone stage (w.addProperty e prop v).2 := by
  refine h.same (h.setting.addProperty he prop v) (.addProperty w e prop v)
    (.addProperty w e prop v ((World.isLive_iff e).mp he).2.1) fun j hj ↦ ?_
  obtain ⟨slot, hslot⟩ := hj
  rw [World.valueOf, World.signal_addProperty, if_neg (Nat.ne_of_lt (h.setting.sound.lt_size slot j hslot)), valueOf]

theorem addIncarnation (h : Moored gone (.whole ∅) w) (uri : Uri) (kind : String)
    (hfree : w.contains 0 uri = false) : Moored gone (.coming ⟨0, (w.store 0).incarnations.size + 1⟩ uri kind)
      (w.addIncarnation 0 uri kind).2 := by
  have hground : Ground (fun _ ↦ False) w := h.setting.ground
  have hb : Beside w (w.addIncarnation 0 uri kind).2 :=
    (Beside.addSignal w (.int 0) .same (.entity ⟨0, (w.store 0).incarnations.size + 1⟩)).trans
      (.modifyStore _ 0 _ (fun _ ↦ rfl) fun h ↦ h)
  have hstore := hground.store_addIncarnation uri kind
  refine h.steady (h.setting.addIncarnation uri kind hfree) rfl hb (fun j hj ↦ ?_) (fun e he hknows ↦ ?_) fun uri' ↦ ?_
  · obtain ⟨slot, hslot⟩ := hj
    have hlt := h.setting.sound.lt_size slot j hslot
    refine (congrArg Signal.value (w.signal_addSignal (.int 0) .same _ j)).trans ?_
    rw [if_neg (Nat.ne_of_lt hlt), valueOf]
  · simp only [World.knows, he, Bool.and_eq_true, decide_eq_true_eq] at hknows ⊢
    rw [World.uriOf, World.kindOf, hground.entity_addIncarnation uri kind he hknows.1, if_neg (by omega), hstore,
      Array.size_push]
    exact ⟨⟨hknows.1, Nat.le_succ_of_le hknows.2⟩, rfl, rfl⟩
  · rw [World.find?, hstore, World.find?]

/-- What becomes live was free, so nothing that is held names it. -/
theorem enlist {e : EntityRef} {uri : Uri} {kind : String} (h : Moored gone (.coming e uri kind) w)
    (U : Set EntityRef) : Moored gone (.whole U) (w.enlist e) := by
  obtain ⟨hground, hnew⟩ := h.setting.ground
  have hsame : ∀ s, ((w.enlist e).store s).incarnations = (w.store s).incarnations := fun s ↦
    w.part_modifyStore (·.incarnations) (by intro; rfl) e.store s
  have hnames : SameNames w (w.enlist e) := fun e' he' hknows ↦ by
    rw [World.knows, hsame, World.uriOf, World.kindOf, World.entity, Store.incarnation, hsame]
    exact ⟨hknows, rfl, rfl⟩
  refine ⟨h.setting.enlist U, h.anchored.kept rfl (fun _ _ ↦ rfl) hnames (fun _ h ↦ h) h.anchored.known
    fun uri' e' hfound ↦ .inr ⟨?_, ?_⟩⟩
  · have hne : uri ≠ uri' := fun heq ↦ by
      obtain ⟨-, hlive⟩ := World.live_of_find? hfound
      have hcontains : w.contains 0 uri = true := by
        rw [World.contains, heq, Std.TreeMap.contains_eq_isSome_getElem?, hlive]
        rfl
      exact Bool.noConfusion (hnew.free.symm.trans hcontains)
    have huri : (w.entity e).uri = uri := hnew.uri_eq
    obtain ⟨s, n⟩ := e
    obtain rfl : s = 0 := hnew.store_eq
    rw [World.find?, World.enlist, hground.store_modifyStore]
    change ((w.store 0).live.insert (w.entity ⟨0, n⟩).uri n)[uri']?.map _ = _
    rw [huri, Std.TreeMap.getElem?_insert, if_neg (by simpa using hne)]
    exact hfound
  · obtain ⟨hstore, hknows, -⟩ := h.setting.of_found hfound
    exact (hnames e' hstore hknows).2.2

/-- What is removed may still be held until that is told. -/
theorem strike (h : Moored gone (.whole ∅) w) {uri : Uri} {e : EntityRef} (hfound : w.find? 0 uri = some e) :
    Moored gone (.gone e) ((w.strike e).2.retire e) := by
  have hground : Ground (fun _ ↦ False) w := h.setting.ground
  obtain ⟨hstore, hknows, huri⟩ := h.setting.of_found hfound
  have he := ((World.live_iff_isLive hground.coherent e hstore uri).mp (World.live_of_find? hfound).2).1
  have hsetting := h.setting.strike hfound
  have hb := h.setting.beside_strike he
  have hstruck := World.struck_of_find? hground hfound
  have hsteady := w.steady_strike e
  have htables := (SameGround.retire (w.strike e).2 e).store
  have hlive : ((w.strike e).2.store 0).live = (w.store 0).live.erase uri := by
    obtain ⟨s, n⟩ := e
    obtain rfl : s = 0 := hstore
    rw [World.strike, hground.store_modifyStore]
    exact congrArg (w.store 0).live.erase huri
  have hsignals : ∀ j, (w.strike e).2.valueOf j = w.valueOf j := fun _ ↦ rfl
  generalize (w.strike e).2 = w₁ at hsetting hb hstruck hsteady htables hlive hsignals ⊢
  have hlive' : ((w₁.retire e).store 0).live = (w.store 0).live.erase uri := by
    rw [htables.live_eq, World.modifyEntity, w₁.part_modifyStore (·.live) (by intro; rfl), hlive]
  have hsize : ((w₁.retire e).store 0).incarnations.size = (w.store 0).incarnations.size := by
    rw [htables.size_eq, World.modifyEntity, World.store_modifyStore]
    split
    · exact Array.size_modify.trans (hsteady.size_eq 0)
    · exact hsteady.size_eq 0
  have hnames : SameNames w (w₁.retire e) := fun e' he' hknows' ↦ by
    simp only [World.knows, he', Bool.and_eq_true, decide_eq_true_eq] at hknows' ⊢
    obtain ⟨huri', hkind'⟩ := hstruck.name_eq e' he' hknows'.1
    rw [hsize]
    exact ⟨hknows', huri'.trans (hsteady.uriOf_eq e'), hkind'.trans (hsteady.kindOf_eq e')⟩
  refine ⟨hsetting, h.anchored.kept (hb.state_eq 0) (fun j hj ↦ ?_) hnames (fun _ h ↦ Set.mem_insert_of_mem e h)
    (fun e' he' ↦ ?_) fun uri' e' hfound' ↦ ?_⟩
  · -- A signal of the focus is none of those that end with the entity.
    have hnot : j ∉ (w₁.entity e).props.values ++ [(w₁.entity e).shape] := fun hmem ↦ by
      rw [hsteady.entity_eq] at hmem
      refine h.setting.not_isSlot he ?_ hj
      rcases List.mem_append.mp hmem with hmem | hmem
      · obtain ⟨prop, hprop⟩ := (Tables.mem_values _ j).mp hmem
        exact .inr ⟨prop, hprop⟩
      · exact .inl (List.mem_singleton.mp hmem)
    have hvalue := congrArg Signal.value (hstruck.signal_eq j hnot)
    exact hvalue.trans (hsignals j)
  · rcases Set.mem_insert_iff.mp he' with rfl | he'
    · exact ⟨hstore, hknows⟩
    · exact h.anchored.known e' he'
  · by_cases heq : uri = uri'
    · exact .inl ⟨e, Set.mem_insert e gone, huri.trans heq⟩
    · refine .inr ⟨?_, ?_⟩
      · rw [World.find?, hlive', Std.TreeMap.get?_eq_getElem?, Std.TreeMap.getElem?_erase, if_neg (by simpa using heq)]
        exact hfound'
      · obtain ⟨hstore', hknows', -⟩ := h.setting.of_found hfound'
        exact (hnames e' hstore' hknows').2.2

/-- Once listeners are being told of it, what was removed counts as gone. -/
theorem visible_iff {e : EntityRef} : Moored gone (.gone e) w ↔ Moored (insert e gone) (.whole ∅) w :=
  ⟨fun h ↦ ⟨⟨h.setting.ground, h.setting.plain, h.setting.noViews, h.setting.noClocks, h.setting.current_eq,
    h.setting.store_eq, h.setting.sound, h.setting.owner_eq, h.setting.unwatched, h.setting.parted, h.setting.usual,
    h.setting.hook⟩, h.anchored⟩, fun h ↦ ⟨⟨h.setting.ground, h.setting.plain, h.setting.noViews, h.setting.noClocks,
    h.setting.current_eq, h.setting.store_eq, h.setting.sound, h.setting.owner_eq, h.setting.unwatched,
    h.setting.parted, h.setting.usual, h.setting.hook⟩, h.anchored⟩⟩

end Moored

end Steps

end LiveGraph.Focus
