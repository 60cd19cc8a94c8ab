import LiveGraph.Proofs.Store.Ground

/-!
# Properties of entities

Every property of a live entity is a signal that tells the store of its changes. A property reads as
before until its signal was written, and from then on its notification is put off until the store was
told.
-/

namespace LiveGraph

namespace World

/-- A live entity keeps a property under a name in a signal. -/
def HasProperty (w : World) (e : EntityRef) (prop : String) (id : SignalId) : Prop :=
  w.IsLive 0 e ∧ (w.entity e).props.get? prop = some id

/-- The notification of a property of an entity is put off. -/
def Pending (w : World) (e : EntityRef) : Prop :=
  ∃ prop id, w.HasProperty e prop id ∧ Effect.signal id ∈ w.effects

/-- A property signal is kept by its entity and watched by the store alone. -/
structure Watched (w : World) (e : EntityRef) (prop : String) (id : SignalId) : Prop where
  lt_size : id < w.signals.size
  undisposed : (w.signal id).disposed = false
  owner_eq : (w.signal id).owner = .entity e
  entries_eq : ∃ n, (w.signal id).watchers.entries = [(n, .property e prop)]
  told : (w.signal id).notifying = true → Effect.signal id ∈ w.effects

/-- The signals that are watched are those of properties. -/
structure Tied (w : World) : Prop where
  property : ∀ e prop id, w.HasProperty e prop id → w.Watched e prop id
  only : ∀ id, (w.signal id).watchers.entries ≠ [] → ∃ e prop, w.HasProperty e prop id
  shape : ∀ e, w.IsLive 0 e → (w.entity e).shape < w.signals.size ∧
    (w.signal (w.entity e).shape).watchers.entries = []

end World

/-- Two worlds with the same entities, where nothing less waits to be told. -/
structure Steady (w w' : World) : Prop where
  entity_eq : ∀ e, w'.entity e = w.entity e
  size_eq : ∀ s, (w'.store s).incarnations.size = (w.store s).incarnations.size
  effects_subset : ∀ effect ∈ w.effects, effect ∈ w'.effects
  signals_le : w.signals.size ≤ w'.signals.size
  owner_eq : ∀ id < w.signals.size, (w'.signal id).owner = (w.signal id).owner
  disposed_eq : ∀ id < w.signals.size, (w'.signal id).disposed = (w.signal id).disposed
  watchers_eq : ∀ id < w.signals.size, (w'.signal id).watchers = (w.signal id).watchers
  notifying : ∀ id < w.signals.size, (w'.signal id).notifying = true →
    (w.signal id).notifying = true ∨ Effect.signal id ∈ w'.effects
  value_eq : ∀ id < w.signals.size, (w.signal id).watchers.entries ≠ [] →
    w'.valueOf id = w.valueOf id ∨ Effect.signal id ∈ w'.effects
  entries_eq : ∀ id, w.signals.size ≤ id → (w'.signal id).watchers.entries = []

/-- What is to be right of an entity in one world, as far as it is not excused there, is right of it
in the other. -/
structure Unmoved (w w' : World) (untold untold' gone gone' : EntityRef → Prop) : Prop where
  same : ∀ e : EntityRef, e.store = 0 → w'.isCurrent e → ¬untold' e → ¬w'.Pending e →
    w.isCurrent e ∧ ¬untold e ∧ ¬w.Pending e ∧ ∀ prop, w'.property? e prop = w.property? e prop
  kept : ∀ e : EntityRef, e.store = 0 → w.isCurrent e ∨ gone e →
    w'.uriOf e = w.uriOf e ∧ w'.kindOf e = w.kindOf e ∧ (w'.isCurrent e ∨ gone' e)

variable {w w' : World}

theorem World.getD_property? (w : World) (e : EntityRef) (prop : String) :
    (w.property? e prop).getD .nil = w.property e prop := by
  rw [property?, property]
  cases (w.entity e).props.get? prop <;> rfl

theorem World.property_congr {e : EntityRef} {prop : String}
    (h : w'.property? e prop = w.property? e prop) : w'.property e prop = w.property e prop := by
  rw [← getD_property?, h, getD_property?]

namespace Steady

/-- Where signals, effects and entities are the same, everything is. -/
theorem of_eq (hsignals : w'.signals = w.signals) (heffects : w'.effects = w.effects)
    (hincarnations : ∀ s, (w'.store s).incarnations = (w.store s).incarnations) : Steady w w' := by
  have hsignal : ∀ id, w'.signal id = w.signal id := fun id ↦ by
    rw [World.signal, hsignals, World.signal]
  refine ⟨fun e ↦ ?_, fun s ↦ by rw [hincarnations], fun effect h ↦ heffects ▸ h, by rw [hsignals],
    fun id _ ↦ by rw [hsignal], fun id _ ↦ by rw [hsignal], fun id _ ↦ by rw [hsignal],
    fun id _ h ↦ .inl (hsignal id ▸ h), fun id _ _ ↦ .inl (by rw [World.valueOf, hsignal]; rfl),
    fun id hid ↦ ?_⟩
  · rw [World.entity, Store.incarnation, hincarnations, World.entity, Store.incarnation]
  · rw [hsignal, World.signal_of_size_le _ hid]
    rfl

variable (h : Steady w w')
include h

theorem kindOf_eq (e : EntityRef) : w'.kindOf e = w.kindOf e := by
  rw [World.kindOf, h.entity_eq, World.kindOf]

theorem uriOf_eq (e : EntityRef) : w'.uriOf e = w.uriOf e := by
  rw [World.uriOf, h.entity_eq, World.uriOf]

theorem isLive_iff (e : EntityRef) : w'.IsLive 0 e ↔ w.IsLive 0 e := by
  rw [World.IsLive, World.knows, h.size_eq, h.entity_eq, World.IsLive, World.knows]

theorem hasProperty_iff (e : EntityRef) (prop : String) (id : SignalId) :
    w'.HasProperty e prop id ↔ w.HasProperty e prop id := by
  rw [World.HasProperty, h.isLive_iff, h.entity_eq, World.HasProperty]

theorem pending (e : EntityRef) (hp : w.Pending e) : w'.Pending e := by
  obtain ⟨prop, id, hid, hmem⟩ := hp
  exact ⟨prop, id, (h.hasProperty_iff e prop id).mpr hid, h.effects_subset _ hmem⟩

/-- A property has its value still, or its notification is put off. -/
theorem property?_eq (hw : w.Tied) {e : EntityRef} (he : w.IsLive 0 e) (hp : ¬w'.Pending e)
    (prop : String) : w'.property? e prop = w.property? e prop := by
  rw [World.property?, h.entity_eq, World.property?]
  cases hprop : (w.entity e).props.get? prop with
  | none => rfl
  | some id =>
    have hwatched := hw.property e prop id ⟨he, hprop⟩
    obtain ⟨n, hentries⟩ := hwatched.entries_eq
    rcases h.value_eq id hwatched.lt_size (by simp [hentries]) with hvalue | hmem
    · exact congrArg some hvalue
    · exact absurd ⟨prop, id, (h.hasProperty_iff e prop id).mpr ⟨he, hprop⟩, hmem⟩ hp

theorem tied (hw : w.Tied) : w'.Tied where
  property e prop id hid := by
    have hwatched := hw.property e prop id ((h.hasProperty_iff e prop id).mp hid)
    have hlt := hwatched.lt_size
    refine ⟨Nat.lt_of_lt_of_le hlt h.signals_le, ?_, ?_, ?_, fun hnotifying ↦ ?_⟩
    · rw [h.disposed_eq id hlt]
      exact hwatched.undisposed
    · rw [h.owner_eq id hlt]
      exact hwatched.owner_eq
    · rw [h.watchers_eq id hlt]
      exact hwatched.entries_eq
    · rcases h.notifying id hlt hnotifying with hbefore | hnow
      · exact h.effects_subset _ (hwatched.told hbefore)
      · exact hnow
  only id hentries := by
    by_cases hid : id < w.signals.size
    · rw [h.watchers_eq id hid] at hentries
      obtain ⟨e, prop, hprop⟩ := hw.only id hentries
      exact ⟨e, prop, (h.hasProperty_iff e prop id).mpr hprop⟩
    · exact absurd (h.entries_eq id (Nat.le_of_not_lt hid)) hentries
  shape e he := by
    obtain ⟨hlt, hentries⟩ := hw.shape e ((h.isLive_iff e).mp he)
    rw [h.entity_eq, h.watchers_eq _ hlt]
    exact ⟨Nat.lt_of_lt_of_le hlt h.signals_le, hentries⟩

theorem unmoved (hw : w.Tied)
    (hcurrent : ∀ e : EntityRef, e.store = 0 → w.isCurrent e → w.IsLive 0 e)
    (hlive : ∀ s, (w'.store s).live = (w.store s).live) {u g : EntityRef → Prop} :
    Unmoved w w' u u g g := by
  have hisCurrent : ∀ e, w'.isCurrent e = w.isCurrent e := fun e ↦ by
    rw [World.isCurrent, hlive, World.uriOf, h.entity_eq, ← World.uriOf, ← World.isCurrent]
  refine ⟨fun e he hcurrent' hnot hp ↦ ?_, fun e _ hkept ↦
    ⟨h.uriOf_eq e, h.kindOf_eq e, ?_⟩⟩
  · rw [hisCurrent] at hcurrent'
    exact ⟨hcurrent', hnot, fun hpending ↦ hp (h.pending e hpending),
      h.property?_eq hw (hcurrent e he hcurrent') hp⟩
  · rwa [hisCurrent]

omit h in
theorem trans {w'' : World} (h : Steady w w') (h' : Steady w' w'') : Steady w w'' := by
  have hlt : ∀ {id}, id < w.signals.size → id < w'.signals.size := fun hid ↦
    Nat.lt_of_lt_of_le hid h.signals_le
  refine ⟨fun e ↦ (h'.entity_eq e).trans (h.entity_eq e), fun s ↦ (h'.size_eq s).trans (h.size_eq s),
    fun effect heffect ↦ h'.effects_subset _ (h.effects_subset _ heffect),
    Nat.le_trans h.signals_le h'.signals_le,
    fun id hid ↦ (h'.owner_eq id (hlt hid)).trans (h.owner_eq id hid),
    fun id hid ↦ (h'.disposed_eq id (hlt hid)).trans (h.disposed_eq id hid),
    fun id hid ↦ (h'.watchers_eq id (hlt hid)).trans (h.watchers_eq id hid),
    fun id hid hnotifying ↦ ?_, fun id hid hentries ↦ ?_, fun id hid ↦ ?_⟩
  · rcases h'.notifying id (hlt hid) hnotifying with hbefore | hmem
    · exact (h.notifying id hid hbefore).imp_right (h'.effects_subset _)
    · exact .inr hmem
  · rcases h.value_eq id hid hentries with hvalue | hmem
    · rw [← h.watchers_eq id hid] at hentries
      exact (h'.value_eq id (hlt hid) hentries).imp_left fun h ↦ h.trans hvalue
    · exact .inr (h'.effects_subset _ hmem)
  · by_cases hid' : id < w'.signals.size
    · rw [h'.watchers_eq id hid']
      exact h.entries_eq id hid
    · exact h'.entries_eq id (Nat.le_of_not_lt hid')

end Steady

namespace World

theorem modifySignal_modifySignal (id : SignalId) (f g : Signal → Signal) :
    (w.modifySignal id f).modifySignal id g = w.modifySignal id (g ∘ f) := by
  have hmodify : (w.signals.modify id f).modify id g = w.signals.modify id (g ∘ f) := by
    refine Array.ext (by simp) fun i hi hi' ↦ ?_
    simp only [Array.getElem_modify]
    split <;> rfl
  exact congrArg (fun signals ↦ { w with signals := signals }) hmodify

end World

namespace Steady

/-- A signal may get another value, if that is put off to be told. -/
theorem modifySignal (id : SignalId) (f : Signal → Signal) (effects : List Effect)
    (heffects : ∀ effect ∈ w.effects, effect ∈ effects) (howner : ∀ s, (f s).owner = s.owner)
    (hdisposed : ∀ s, (f s).disposed = s.disposed) (hwatchers : ∀ s, (f s).watchers = s.watchers)
    (hnotifying : (f (w.signal id)).notifying = true →
      (w.signal id).notifying = true ∨ Effect.signal id ∈ effects)
    (hvalue : (w.signal id).watchers.entries ≠ [] →
      (f (w.signal id)).value = w.valueOf id ∨ Effect.signal id ∈ effects) :
    Steady w { w.modifySignal id f with effects := effects } := by
  have hsignal : ∀ j, World.signal { w.modifySignal id f with effects := effects } j =
      if id = j ∧ j < w.signals.size then f (w.signal j) else w.signal j :=
    w.signal_modifySignal id f
  refine ⟨fun _ ↦ rfl, fun _ ↦ rfl, heffects, Nat.le_of_eq (w.size_modifySignal id f).symm,
    fun j hj ↦ ?_, fun j hj ↦ ?_, fun j hj ↦ ?_, fun j hj ↦ ?_, fun j hj ↦ ?_, fun j hj ↦ ?_⟩
  · rw [hsignal]
    split <;> simp only [howner]
  · rw [hsignal]
    split <;> simp only [hdisposed]
  · rw [hsignal]
    split <;> simp only [hwatchers]
  · rw [hsignal]
    split
    · rename_i hid
      rw [← hid.1]
      exact hnotifying
    · exact .inl
  · rw [World.valueOf, hsignal]
    split
    · rename_i hid
      rw [← hid.1]
      exact hvalue
    · exact fun _ ↦ .inl rfl
  · rw [hsignal, if_neg fun hlt ↦ absurd hlt.2 (Nat.not_lt.mpr hj), World.signal_of_size_le _ hj]
    rfl

theorem write (htied : w.Tied) (hnone : w.deriveds = #[]) (id : SignalId) (v : Value) :
    Steady w (w.write id v) := by
  let w₁ := w.modifySignal id fun s ↦ { s with value := v }
  rw [w.write_of_noDeriveds hnone]
  have hid : (w₁.signal id).watchers = (w.signal id).watchers ∧
      (w₁.signal id).notifying = (w.signal id).notifying := by
    rw [World.signal_modifySignal]
    split <;> exact ⟨rfl, rfl⟩
  by_cases htold : ((w₁.signal id).watchers.isEmpty || (w₁.signal id).notifying) = true
  · rw [w₁.deferSignal_of_told htold]
    refine modifySignal id (fun s ↦ { s with value := v }) w.effects (fun _ h ↦ h) (fun _ ↦ rfl)
      (fun _ ↦ rfl) (fun _ ↦ rfl) .inl fun hentries ↦ .inr ?_
    obtain ⟨e, prop, hprop⟩ := htied.only id hentries
    rw [hid.1, hid.2, Watchers.isEmpty, List.isEmpty_iff.not.mpr hentries |> Bool.eq_false_iff.mpr,
      Bool.false_or] at htold
    exact (htied.property e prop id hprop).told htold
  · rw [w₁.deferSignal_of_untold htold, World.modifySignal_modifySignal]
    exact modifySignal id _ _ (fun _ ↦ List.mem_append_left _) (fun _ ↦ rfl) (fun _ ↦ rfl)
      (fun _ ↦ rfl) (fun _ ↦ .inr (by simp [w₁])) fun _ ↦ .inr (by simp [w₁])

/-- More may be put off. -/
theorem defer (w : World) (effect : Effect) :
    Steady w { w with effects := w.effects ++ [effect] } := by
  refine ⟨fun _ ↦ rfl, fun _ ↦ rfl, fun _ ↦ List.mem_append_left _, Nat.le_refl _,
    fun _ _ ↦ rfl, fun _ _ ↦ rfl, fun _ _ ↦ rfl, fun _ _ ↦ .inl, fun _ _ _ ↦ .inl rfl,
    fun id hid ↦ ?_⟩
  have hnone : w.signal id = default := World.signal_of_size_le _ hid
  exact congrArg (fun s : Signal ↦ s.watchers.entries) hnone

theorem addSignal (v : Value) (equality : Equality) (owner : Owner) :
    Steady w (w.addSignal v equality owner).2 := by
  have hsignal : ∀ j < w.signals.size, (w.addSignal v equality owner).2.signal j = w.signal j :=
    fun j hj ↦ by rw [w.signal_addSignal, if_neg (Nat.ne_of_lt hj)]
  refine ⟨fun _ ↦ rfl, fun _ ↦ rfl, fun _ h ↦ h,
    Nat.le_trans (Nat.le_succ _) (Nat.le_of_eq (w.size_addSignal v equality owner).symm),
    fun j hj ↦ by rw [hsignal j hj], fun j hj ↦ by rw [hsignal j hj],
    fun j hj ↦ by rw [hsignal j hj], fun j hj h ↦ .inl (hsignal j hj ▸ h),
    fun j hj _ ↦ .inl (by rw [World.valueOf, hsignal j hj]; rfl), fun j hj ↦ ?_⟩
  rw [w.signal_addSignal]
  split
  · rfl
  · rw [World.signal_of_size_le _ hj]
    rfl

end Steady

section Ground

variable {hidden : Nat → Prop} {e : EntityRef}

theorem SameGround.isLive_iff (h : SameGround w w') (e : EntityRef) :
    w'.IsLive 0 e ↔ w.IsLive 0 e := by
  rw [World.isLive_iff, World.isLive_iff, h.store.size_eq]
  refine and_congr_right fun _ ↦ and_congr_right fun hpos ↦ ?_
  rw [h.store.flag_eq _ hpos]

theorem Ground.isLive_of_isCurrent (h : Ground hidden w) (he : e.store = 0) (hcurrent : w.isCurrent e) :
    w.IsLive 0 e := by
  obtain ⟨hpos, hsize, -, hlive⟩ := (h.isCurrent_iff he).mp hcurrent
  rw [World.entity, he] at hlive
  exact (World.isLive_iff e).mpr ⟨he, hpos, hsize, hlive⟩

theorem Ground.isCurrent_same (h : Ground hidden w) (hw : SameGround w w') (he : e.store = 0) :
    w'.isCurrent e ↔ w.isCurrent e := by
  have hlive := hw.isLive_iff e
  rw [World.isLive_iff, World.isLive_iff] at hlive
  rw [(h.same hw).isCurrent_iff he, h.isCurrent_iff he, World.entity, World.entity, he]
  tauto

/-- Where nothing is hidden, an entity can be found as long as it is live. -/
theorem Ground.isCurrent_iff_isLive (h : Ground (fun _ ↦ False) w) (he : e.store = 0) :
    w.isCurrent e ↔ w.IsLive 0 e := by
  rw [h.isCurrent_iff he, World.isLive_iff_entity]
  tauto

/-- A change of what is no ground moves no rows where properties are the same. -/
theorem Unmoved.of_sameGround {u u' g : EntityRef → Prop} (hground : Ground hidden w)
    (hsame : SameGround w w') (hgone : ∀ e, g e → 0 < e.serial)
    (h : ∀ e : EntityRef, e.store = 0 → w.isCurrent e → ¬u' e → ¬w'.Pending e →
      ¬u e ∧ ¬w.Pending e ∧ ∀ prop, w'.property? e prop = w.property? e prop) :
    Unmoved w w' u u' g g := by
  refine ⟨fun e he hcurrent hu hp ↦ ?_, fun e he hkept ↦ ?_⟩
  · rw [hground.isCurrent_same hsame he] at hcurrent
    exact ⟨hcurrent, h e he hcurrent hu hp⟩
  · have hpos : 0 < e.serial := hkept.elim (fun hcurrent ↦ ((hground.isCurrent_iff he).mp hcurrent).1)
      (hgone e)
    rw [World.uriOf, World.kindOf, World.entity, he, hsame.store.uri_eq _ hpos,
      hsame.store.kind_eq _ hpos, World.uriOf, World.kindOf, World.entity, he,
      hground.isCurrent_same hsame he]
    exact ⟨rfl, rfl, hkept⟩

theorem World.entity_modifyEntity (hsize : 0 < w.stores.size) (he : e.store = 0) (hpos : 0 < e.serial)
    (f : Entity → Entity) {e' : EntityRef} (he' : e'.store = 0) (hpos' : 0 < e'.serial) :
    (w.modifyEntity e f).entity e' =
      if e = e' ∧ e'.serial ≤ (w.store 0).incarnations.size then f (w.entity e')
      else w.entity e' := by
  have hiff : e = e' ↔ e.serial = e'.serial :=
    ⟨congrArg _, EntityRef.eq_of_serial (he.trans he'.symm)⟩
  rw [World.entity, he', World.modifyEntity, he, w.store_modifyStore_self hsize,
    Store.incarnation_modify _ _ _ _ hpos hpos', World.entity, he']
  exact if_congr (and_congr_left' hiff.symm) rfl rfl

end Ground

section AddProperty

variable {hidden : Nat → Prop} {e : EntityRef} {prop : String} {v : Value}

theorem World.signal_addProperty (id : SignalId) : (w.addProperty e prop v).2.signal id =
    if id = w.signals.size then
      ⟨v, .same, .entity e, Watchers.empty.add (.property e prop), [], false, false⟩
    else w.signal id := by
  let w₁ := (w.addSignal v .same (.entity e)).2
  change (w₁.modifySignal w.signals.size _).signal id = _
  rw [World.signal_modifySignal, World.signal_addSignal, World.size_addSignal]
  by_cases hid : id = w.signals.size
  · subst hid
    simp
  · rw [if_neg fun h ↦ hid h.1.symm, if_neg hid, if_neg hid]

theorem World.entity_addProperty (hsize : 0 < w.stores.size) (he : w.IsLive 0 e) {e' : EntityRef}
    (he' : w.IsLive 0 e') : (w.addProperty e prop v).2.entity e' =
      if e = e' then { w.entity e' with props := (w.entity e').props.insert prop w.signals.size }
      else w.entity e' := by
  rw [World.isLive_iff] at he he'
  let w₁ := (((w.addSignal v .same (.entity e)).2.subscribe (.signal w.signals.size)
    (.property e prop)).2)
  have hentity := w₁.entity_modifyEntity (f := fun x ↦
    { x with props := x.props.insert prop w.signals.size }) hsize he.1 he.2.1 he'.1 he'.2.1
  refine Eq.trans hentity (if_congr (and_iff_left he'.2.2.1) rfl rfl)

/-- An entity gets a property that it did not have, and all others are what they were. -/
theorem World.property?_addProperty (hsize : 0 < w.stores.size) (htied : w.Tied) (he : w.IsLive 0 e) {e' : EntityRef}
    (he' : w.IsLive 0 e') (prop' : String) : (w.addProperty e prop v).2.property? e' prop' =
      if e = e' ∧ prop = prop' then some v else w.property? e' prop' := by
  have hentity : (w.addProperty e prop v).2.entity e' = _ := World.entity_addProperty hsize he he'
  have hold : ∀ id, (w.entity e').props.get? prop' = some id →
      (w.addProperty e prop v).2.valueOf id = w.valueOf id := fun id hid ↦ by
    have hlt := (htied.property e' prop' id ⟨he', hid⟩).lt_size
    rw [World.valueOf, World.signal_addProperty, if_neg (Nat.ne_of_lt hlt), World.valueOf]
  rw [World.property?, hentity]
  by_cases heq : e = e' ∧ prop = prop'
  · obtain ⟨rfl, rfl⟩ := heq
    rw [if_pos rfl, if_pos ⟨rfl, rfl⟩]
    have hinsert : ((w.entity e).props.insert prop w.signals.size).get? prop = some w.signals.size := by
      rw [Std.TreeMap.get?_eq_getElem?, Std.TreeMap.getElem?_insert_self]
    rw [hinsert, Option.map_some, World.valueOf, World.signal_addProperty, if_pos rfl]
  · have hprops : (if e = e' then { w.entity e' with
        props := (w.entity e').props.insert prop w.signals.size } else w.entity e').props.get? prop' =
        (w.entity e').props.get? prop' := by
      split
      · rename_i he
        have hprop : ¬prop = prop' := fun hprop ↦ heq ⟨he, hprop⟩
        rw [Std.TreeMap.get?_eq_getElem?, Std.TreeMap.getElem?_insert, if_neg (by simpa using hprop),
          Std.TreeMap.get?_eq_getElem?]
      · rfl
    rw [if_neg heq, hprops, World.property?]
    cases hid : (w.entity e').props.get? prop' with
    | none => rw [Option.map_none, Option.map_none]
    | some id => rw [Option.map_some, Option.map_some, hold id hid]

theorem World.hasProperty_addProperty (hsize : 0 < w.stores.size) (he : w.IsLive 0 e)
    (hnone : (w.entity e).props.get? prop = none) (e' : EntityRef) (prop' : String) (id : SignalId) :
    (w.addProperty e prop v).2.HasProperty e' prop' id ↔
      w.HasProperty e' prop' id ∨ e = e' ∧ prop = prop' ∧ w.signals.size = id := by
  have hlive := (SameGround.addProperty w e prop v ((World.isLive_iff e).mp he).2.1).isLive_iff e'
  unfold World.HasProperty
  rw [hlive]
  by_cases he' : w.IsLive 0 e'
  · rw [World.entity_addProperty hsize he he']
    by_cases heq : e = e'
    · subst heq
      by_cases hprop : prop = prop'
      · subst hprop
        rw [Std.TreeMap.get?_eq_getElem?] at hnone
        simp [he, hnone, eq_comm]
      · simp [he, hprop, Std.TreeMap.getElem?_insert]
    · simp [he', heq]
  · have hne : e ≠ e' := fun heq ↦ he' (heq ▸ he)
    simp [he', hne]

theorem World.Tied.addProperty (h : w.Tied) (hsize : 0 < w.stores.size) (he : w.IsLive 0 e)
    (hnone : (w.entity e).props.get? prop = none) : (w.addProperty e prop v).2.Tied := by
  have hproperty := World.hasProperty_addProperty (v := v) hsize he hnone
  have hsame := SameGround.addProperty w e prop v ((World.isLive_iff e).mp he).2.1
  have hsignals : (w.addProperty e prop v).2.signals.size = w.signals.size + 1 :=
    Array.size_modify.trans (w.size_addSignal v .same (.entity e))
  have hsignal : ∀ id < w.signals.size, (w.addProperty e prop v).2.signal id = w.signal id :=
    fun id hid ↦ by rw [World.signal_addProperty, if_neg (Nat.ne_of_lt hid)]
  refine ⟨fun e' prop' id hid ↦ ?_, fun id hentries ↦ ?_, fun e' he' ↦ ?_⟩
  · rcases (hproperty e' prop' id).mp hid with hold | ⟨rfl, rfl, rfl⟩
    · obtain ⟨hlt, hundisposed, howner, hentries, htold⟩ := h.property e' prop' id hold
      rw [← hsignal id hlt] at hundisposed howner hentries htold
      exact ⟨hsignals ▸ Nat.lt_succ_of_lt hlt, hundisposed, howner, hentries, htold⟩
    · have hnew : (w.addProperty e prop v).2.signal w.signals.size = _ := World.signal_addProperty _
      rw [if_pos rfl] at hnew
      refine ⟨hsignals ▸ Nat.lt_succ_self _, ?_, ?_, ⟨1, ?_⟩, fun hnotifying ↦ ?_⟩
      · rw [hnew]
      · rw [hnew]
      · rw [hnew]
        rfl
      · rw [hnew] at hnotifying
        exact Bool.noConfusion hnotifying
  · by_cases hid : id = w.signals.size
    · exact ⟨e, prop, (hproperty e prop id).mpr (.inr ⟨rfl, rfl, hid.symm⟩)⟩
    · rw [World.signal_addProperty, if_neg hid] at hentries
      obtain ⟨e', prop', hold⟩ := h.only id hentries
      exact ⟨e', prop', (hproperty e' prop' id).mpr (.inl hold)⟩
  · rw [hsame.isLive_iff] at he'
    have hshape : ((w.addProperty e prop v).2.entity e').shape = (w.entity e').shape := by
      rw [World.entity_addProperty hsize he he']
      split <;> rfl
    obtain ⟨hlt, hentries⟩ := h.shape e' he'
    rw [hshape, hsignal _ hlt]
    exact ⟨hsignals ▸ Nat.lt_succ_of_lt hlt, hentries⟩

/-- A new property leaves all other entities as they are. -/
theorem World.Tied.unmoved_addProperty {u u' g : EntityRef → Prop} (h : w.Tied)
    (hground : Ground hidden w) (he : w.IsLive 0 e) (hnone : (w.entity e).props.get? prop = none)
    (hgone : ∀ e, g e → 0 < e.serial) (hu : ∀ e', w.isCurrent e' → u e' ∨ e = e' → u' e') :
    Unmoved w (w.addProperty e prop v).2 u u' g g := by
  have hsize : 0 < w.stores.size := by
    rw [hground.stores_size]
    exact Nat.one_pos
  have hsame := SameGround.addProperty w e prop v ((World.isLive_iff e).mp he).2.1
  refine Unmoved.of_sameGround hground hsame hgone fun e' he' hcurrent hu' hp ↦ ?_
  have hlive' := hground.isLive_of_isCurrent he' hcurrent
  have hne : e ≠ e' := fun heq ↦ hu' (hu e' hcurrent (.inr heq))
  refine ⟨fun hold ↦ hu' (hu e' hcurrent (.inl hold)), fun ⟨prop', id', hid, hmem⟩ ↦ hp
    ⟨prop', id', (World.hasProperty_addProperty hsize he hnone _ _ _).mpr (.inl hid), hmem⟩,
    fun prop' ↦ ?_⟩
  rw [World.property?, World.entity_addProperty hsize he hlive', if_neg hne, World.property?]
  cases hprop : (w.entity e').props.get? prop' with
  | none => rfl
  | some id' =>
    have hlt := (h.property e' prop' id' ⟨hlive', hprop⟩).lt_size
    simp only [Option.map_some, World.valueOf, World.signal_addProperty,
      if_neg (Nat.ne_of_lt hlt)]

end AddProperty

end LiveGraph
