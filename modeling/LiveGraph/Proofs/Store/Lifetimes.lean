import LiveGraph.Proofs.Store.Properties
import LiveGraph.Proofs.Tables

/-!
# Entities that come and go

What becomes of the properties of all entities when one is created, can be found from now on, or
ends.
-/

namespace LiveGraph

variable {w : World}

/-- Entities may come and go where that changes no property. -/
theorem World.Tied.congr {w' : World} (h : w.Tied) (hsignals : w'.signals = w.signals)
    (heffects : w'.effects = w.effects)
    (hproperty : ∀ e prop id, w'.HasProperty e prop id ↔ w.HasProperty e prop id)
    (hshape : ∀ e, w'.IsLive 0 e → (w'.entity e).shape < w.signals.size ∧
      (w.signal (w'.entity e).shape).watchers.entries = []) : w'.Tied := by
  have hsignal : ∀ id, w'.signal id = w.signal id := fun id ↦ by
    rw [World.signal, hsignals, World.signal]
  refine ⟨fun e prop id hid ↦ ?_, fun id hentries ↦ ?_, fun e he ↦ ?_⟩
  · obtain ⟨hlt, hundisposed, howner, hentries, htold⟩ :=
      h.property e prop id ((hproperty e prop id).mp hid)
    rw [← hsignal id] at hundisposed howner hentries htold
    rw [← hsignals] at hlt
    rw [← heffects] at htold
    exact ⟨hlt, hundisposed, howner, hentries, htold⟩
  · rw [hsignal] at hentries
    obtain ⟨e, prop, hprop⟩ := h.only id hentries
    exact ⟨e, prop, (hproperty e prop id).mpr hprop⟩
  · rw [hsignals, hsignal]
    exact hshape e he

/-- A world with one more entity, which has no properties yet. -/
theorem World.Tied.addIncarnation {u g : EntityRef → Prop} (h : w.Tied)
    (hground : Ground (fun _ ↦ False) w) {uri : Uri} {kind : String}
    (hfree : w.contains 0 uri = false) (hgone : ∀ e, ¬g e) :
    (w.addIncarnation 0 uri kind).2.Tied ∧ Unmoved w (w.addIncarnation 0 uri kind).2 u u g g := by
  let w₁ := (w.addSignal (.int 0) .same (.entity ⟨0, (w.store 0).incarnations.size + 1⟩)).2
  let w' := (w.addIncarnation 0 uri kind).2
  let n := (w.store 0).incarnations.size
  obtain ⟨hground', -⟩ := OnGround.addIncarnation hground uri kind hfree
  have hstore := hground.store_addIncarnation uri kind
  have hsize : (w'.store 0).incarnations.size = n + 1 := by
    rw [hstore]
    exact Array.size_push _
  have hentity : ∀ {e : EntityRef}, e.store = 0 → 0 < e.serial → w'.entity e =
      if e.serial = n + 1 then ⟨uri, kind, ∅, w.signals.size, true⟩ else w.entity e :=
    hground.entity_addIncarnation uri kind
  have hold : ∀ {e : EntityRef}, e.store = 0 → 0 < e.serial → e.serial ≠ n + 1 →
      w'.entity e = w.entity e := fun he hpos hne ↦ by rw [hentity he hpos, if_neg hne]
  have hlive : ∀ e : EntityRef, w.IsLive 0 e → w'.entity e = w.entity e ∧ w'.IsLive 0 e := by
    intro e he
    obtain ⟨hstore, hpos, hle, hflag⟩ := (World.isLive_iff_entity e).mp he
    have heq := hold hstore hpos (Nat.ne_of_lt (Nat.lt_succ_of_le hle))
    refine ⟨heq, (World.isLive_iff_entity e).mpr ⟨hstore, hpos, ?_, heq ▸ hflag⟩⟩
    exact hsize ▸ Nat.le_succ_of_le hle
  have hnew : ∀ e : EntityRef, w'.IsLive 0 e → ¬w.IsLive 0 e →
      w'.entity e = ⟨uri, kind, ∅, w.signals.size, true⟩ := by
    intro e he hdead
    obtain ⟨hstore, hpos, hle, hflag⟩ := (World.isLive_iff_entity e).mp he
    rw [hentity hstore hpos]
    refine if_pos (by_contra fun hne ↦ hdead ((World.isLive_iff_entity e).mpr ⟨hstore, hpos, ?_,
      hold hstore hpos hne ▸ hflag⟩))
    rw [hsize] at hle
    exact Nat.le_of_lt_succ (Nat.lt_of_le_of_ne hle hne)
  have hproperty : ∀ e prop id, w'.HasProperty e prop id ↔ w.HasProperty e prop id := by
    refine fun e prop id ↦ ⟨fun ⟨he, hprop⟩ ↦ ?_, fun ⟨he, hprop⟩ ↦ ?_⟩
    · by_cases hbefore : w.IsLive 0 e
      · exact ⟨hbefore, (hlive e hbefore).1 ▸ hprop⟩
      · rw [hnew e he hbefore] at hprop
        simp at hprop
    · exact ⟨(hlive e he).2, (hlive e he).1.symm ▸ hprop⟩
  have hcurrent : ∀ e : EntityRef, e.store = 0 → (w'.isCurrent e ↔ w.isCurrent e) := by
    intro e he
    rw [hground'.isCurrent_iff he, hground.isCurrent_iff he, hsize]
    constructor
    · rintro ⟨hpos, hle, hne, hflag⟩
      exact ⟨hpos, Nat.le_of_lt_succ (Nat.lt_of_le_of_ne hle hne), not_false,
        hold he hpos hne ▸ hflag⟩
    · rintro ⟨hpos, hle, -, hflag⟩
      have hne := Nat.ne_of_lt (Nat.lt_succ_of_le hle)
      exact ⟨hpos, Nat.le_succ_of_le hle, hne, (hold he hpos hne).symm ▸ hflag⟩
  have hsteady : Steady w w₁ := .addSignal _ _ _
  refine ⟨World.Tied.congr (w := w₁) (hsteady.tied h) rfl rfl hproperty fun e he ↦ ?_,
    fun e he hcurrent' hnot hp ↦ ?_, fun e he hkept ↦ ?_⟩
  · by_cases hbefore : w.IsLive 0 e
    · have hshape := (hsteady.tied h).shape e hbefore
      rwa [(hlive e hbefore).1]
    · rw [hnew e he hbefore, w.size_addSignal, w.signal_addSignal, if_pos rfl]
      exact ⟨Nat.lt_succ_self _, rfl⟩
  · have hbefore := (hcurrent e he).mp hcurrent'
    have hp₁ : ¬w₁.Pending e := fun ⟨prop, id, hid, hmem⟩ ↦
      hp ⟨prop, id, (hproperty e prop id).mpr hid, hmem⟩
    have he' := hground.isLive_of_isCurrent he hbefore
    refine ⟨hbefore, hnot, fun hpending ↦ hp₁ (hsteady.pending e hpending), fun prop ↦ ?_⟩
    rw [World.property?, (hlive e he').1]
    exact hsteady.property?_eq h he' hp₁ prop
  · have hbefore := hkept.resolve_right (hgone e)
    rw [World.uriOf, World.kindOf, (hlive e (hground.isLive_of_isCurrent he hbefore)).1]
    exact ⟨rfl, rfl, .inl ((hcurrent e he).mpr hbefore)⟩

theorem World.steady_enlist (w : World) (e : EntityRef) : Steady w (w.enlist e) :=
  .of_eq rfl rfl fun s ↦ w.part_modifyStore (·.incarnations) (by intro; rfl) e.store s

/-- Of an entity that can be found from now on it was not told yet. -/
theorem World.Tied.unmoved_enlist {u u' g : EntityRef → Prop} {e : EntityRef} {uri : Uri}
    {kind : String} (h : w.Tied) (hground : OnGround (.coming e uri kind) w) (hgone : ∀ e, ¬g e)
    (hu : ∀ e', u e' ∨ e = e' → u' e') : Unmoved w (w.enlist e) u u' g g := by
  have hground' := (OnGround.enlist hground).1
  have hsteady := w.steady_enlist e
  have hcurrent : ∀ e' : EntityRef, e'.store = 0 → e ≠ e' →
      ((w.enlist e).isCurrent e' ↔ w.isCurrent e') := by
    intro e' he' hne
    have hserial : ¬e'.serial = e.serial := fun heq ↦
      hne (EntityRef.eq_of_serial (hground.2.store_eq.trans he'.symm) heq.symm)
    rw [hground'.isCurrent_iff he', hground.1.isCurrent_iff he', hsteady.size_eq, hsteady.entity_eq]
    tauto
  refine ⟨fun e' he' hcurrent' hnot hp ↦ ?_, fun e' he' hkept ↦ ?_⟩
  · have hne : e ≠ e' := fun heq ↦ hnot (hu e' (.inr heq))
    have hbefore := (hcurrent e' he' hne).mp hcurrent'
    exact ⟨hbefore, fun hun ↦ hnot (hu e' (.inl hun)), fun hpending ↦ hp (hsteady.pending e' hpending),
      hsteady.property?_eq h (hground.1.isLive_of_isCurrent he' hbefore) hp⟩
  · have hbefore := hkept.resolve_right (hgone e')
    have hne : e ≠ e' := fun heq ↦ by
      subst heq
      exact ((hground.1.isCurrent_iff he').mp hbefore).2.2.1 rfl
    exact ⟨hsteady.uriOf_eq e', hsteady.kindOf_eq e', .inl ((hcurrent e' he' hne).mpr hbefore)⟩

section Strike

variable (w) (ids : List SignalId)

theorem World.foldl_disposeSignal_eq :
    ∃ signals, ids.foldl World.disposeSignal w = { w with signals := signals } ∧
      signals.size = w.signals.size := by
  induction ids generalizing w with
  | nil => exact ⟨w.signals, rfl, rfl⟩
  | cons id rest ih =>
    obtain ⟨signals, hrest, hsize⟩ := ih (w.disposeSignal id)
    refine ⟨signals, hrest.trans ?_, hsize.trans ?_⟩
    all_goals unfold World.disposeSignal
    · split <;> rfl
    · split
      · rfl
      · exact w.size_modifySignal id _

theorem World.signal_disposeSignal (id j : SignalId) : (w.disposeSignal id).signal j = w.signal j ∨
    id = j ∧ ((w.disposeSignal id).signal j).watchers.entries = [] := by
  unfold World.disposeSignal
  split
  · exact .inl rfl
  · rw [World.signal_modifySignal]
    split
    · rename_i hid
      exact .inr ⟨hid.1, rfl⟩
    · exact .inl rfl

theorem World.entries_disposeSignal {id : SignalId} (h : (w.signal id).disposed = false) :
    ((w.disposeSignal id).signal id).watchers.entries = [] := by
  rw [World.disposeSignal, if_neg (by simp [h]), World.signal_modifySignal]
  split
  · rfl
  · rename_i hid
    rw [World.signal_of_size_le _ (Nat.le_of_not_lt fun hlt ↦ hid ⟨rfl, hlt⟩)]
    rfl

theorem World.entries_foldl_disposeSignal {j : SignalId} (h : (w.signal j).watchers.entries = []) :
    ((ids.foldl World.disposeSignal w).signal j).watchers.entries = [] := by
  induction ids generalizing w with
  | nil => exact h
  | cons id rest ih =>
    refine ih (w.disposeSignal id) ?_
    rcases w.signal_disposeSignal id j with hsame | ⟨-, hempty⟩
    · rwa [hsame]
    · exact hempty

theorem World.signal_foldl_disposeSignal {j : SignalId} (h : j ∉ ids) :
    (ids.foldl World.disposeSignal w).signal j = w.signal j := by
  induction ids generalizing w with
  | nil => rfl
  | cons id rest ih =>
    rw [List.mem_cons, not_or] at h
    refine (ih (w.disposeSignal id) h.2).trans ?_
    exact (w.signal_disposeSignal id j).resolve_right fun hid ↦ h.1 hid.1.symm

theorem World.entries_foldl_of_mem {j : SignalId} (h : j ∈ ids)
    (hdisposed : (w.signal j).disposed = false) :
    ((ids.foldl World.disposeSignal w).signal j).watchers.entries = [] := by
  induction ids generalizing w with
  | nil => exact absurd h List.not_mem_nil
  | cons id rest ih =>
    by_cases hid : j = id
    · subst hid
      exact World.entries_foldl_disposeSignal _ rest (w.entries_disposeSignal hdisposed)
    · have hsame := (w.signal_disposeSignal id j).resolve_right fun h ↦ hid h.1.symm
      exact ih (w.disposeSignal id) ((List.mem_cons.mp h).resolve_left hid) (hsame.symm ▸ hdisposed)

theorem World.retire_eq (e : EntityRef) : w.retire e =
    ((w.entity e).props.values ++ [(w.entity e).shape]).foldl World.disposeSignal
      (w.modifyEntity e fun x ↦ { x with live := false }) := by
  rw [List.foldl_append]
  rfl

/-- A world after an entity has ended, with its signals. -/
structure Struck (w w' : World) (e : EntityRef) : Prop where
  isLive_iff : ∀ e', w'.IsLive 0 e' ↔ w.IsLive 0 e' ∧ e ≠ e'
  entity_eq : ∀ e' : EntityRef, e'.store = 0 → 0 < e'.serial → e ≠ e' → w'.entity e' = w.entity e'
  name_eq : ∀ e' : EntityRef, e'.store = 0 → 0 < e'.serial →
    w'.uriOf e' = w.uriOf e' ∧ w'.kindOf e' = w.kindOf e'
  size_eq : w'.signals.size = w.signals.size
  effects_eq : w'.effects = w.effects
  views_eq : w'.views = w.views
  names_eq : w'.session.views = w.session.views
  listeners_eq : (w'.store 0).listeners = (w.store 0).listeners
  indices_eq : (w'.store 0).indices = (w.store 0).indices
  signal_eq : ∀ id ∉ (w.entity e).props.values ++ [(w.entity e).shape], w'.signal id = w.signal id
  ended : ∀ id ∈ (w.entity e).props.values, (w.signal id).disposed = false →
    (w'.signal id).watchers.entries = []
  unwatched : ∀ id, (w.signal id).watchers.entries = [] → (w'.signal id).watchers.entries = []

variable {w} {untold gone gone' : Excuse} {e : EntityRef} {uri : Uri}

theorem World.struck_retire (hstores : 0 < w.stores.size) (hstore : e.store = 0)
    (hserial : 0 < e.serial) : Struck w (w.retire e) e := by
  obtain ⟨w₁, hw₁⟩ : ∃ w₁, w₁ = w.modifyEntity e fun x ↦ { x with live := false } := ⟨_, rfl⟩
  have hretire := w.retire_eq e
  rw [← hw₁] at hretire
  obtain ⟨signals, hretired, hsize⟩ := w₁.foldl_disposeSignal_eq
    ((w.entity e).props.values ++ [(w.entity e).shape])
  have heq := hretire.trans hretired
  have hsize₁ : (w₁.store 0).incarnations.size = (w.store 0).incarnations.size := by
    rw [hw₁, World.modifyEntity, World.store_modifyStore]
    split
    · exact Array.size_modify
    · rfl
  have hentity : ∀ e' : EntityRef, e'.store = 0 → 0 < e'.serial → (w.retire e).entity e' =
      if e = e' ∧ e'.serial ≤ (w.store 0).incarnations.size then
        { w.entity e' with live := false } else w.entity e' := by
    intro e' he' hpos'
    have hmodified := w.entity_modifyEntity (f := fun x ↦ { x with live := false }) hstores hstore
      hserial he' hpos'
    rw [← hw₁] at hmodified
    rw [heq]
    exact hmodified
  have hother : ∀ e' : EntityRef, e'.store = 0 → 0 < e'.serial → e ≠ e' →
      (w.retire e).entity e' = w.entity e' := fun e' he' hpos' hne ↦ by
    rw [hentity e' he' hpos', if_neg fun h ↦ hne h.1]
  have hsignal : ∀ id, w₁.signal id = w.signal id := fun id ↦ by rw [hw₁]; rfl
  refine ⟨fun e' ↦ ?_, hother, fun e' he' hpos' ↦ ?_, ?_, ?_, ?_, ?_, ?_, ?_, fun id hid ↦ ?_,
    fun id hid hdisposed ↦ ?_, fun id hentries ↦ ?_⟩
  · have hsize' : ((w.retire e).store 0).incarnations.size = (w.store 0).incarnations.size := by
      rw [heq]
      exact hsize₁
    rw [World.isLive_iff_entity, World.isLive_iff_entity, hsize']
    constructor
    · rintro ⟨he', hpos', hle, hflag⟩
      have hne : e ≠ e' := fun heq ↦ by
        rw [hentity e' he' hpos', if_pos ⟨heq, hle⟩] at hflag
        exact Bool.noConfusion hflag
      exact ⟨⟨he', hpos', hle, hother e' he' hpos' hne ▸ hflag⟩, hne⟩
    · rintro ⟨⟨he', hpos', hle, hflag⟩, hne⟩
      exact ⟨he', hpos', hle, (hother e' he' hpos' hne).symm ▸ hflag⟩
  · rw [World.uriOf, World.kindOf, hentity e' he' hpos', World.uriOf, World.kindOf]
    split <;> exact ⟨rfl, rfl⟩
  · rw [heq, hsize, hw₁]
    rfl
  · rw [heq, hw₁]
    rfl
  · rw [heq, hw₁]
    rfl
  · rw [heq, hw₁]
    rfl
  · rw [heq]
    refine Eq.trans (b := (w₁.store 0).listeners) rfl ?_
    rw [hw₁]
    exact w.part_modifyStore (·.listeners) (by intro; rfl) _ _
  · rw [heq]
    refine Eq.trans (b := (w₁.store 0).indices) rfl ?_
    rw [hw₁]
    exact w.part_modifyStore (·.indices) (by intro; rfl) _ _
  · rw [hretire, w₁.signal_foldl_disposeSignal _ hid, hsignal]
  · rw [hretire]
    refine w₁.entries_foldl_of_mem _ (List.mem_append_left _ hid) ?_
    rwa [hsignal]
  · rw [hretire]
    refine w₁.entries_foldl_disposeSignal _ ?_
    rwa [hsignal]

section Struck

variable {w' : World} (h : Struck w w' e) (htied : w.Tied) (he : w.IsLive 0 e)
include h

theorem Struck.hasProperty_iff (e' : EntityRef) (prop : String) (id : SignalId) :
    w'.HasProperty e' prop id ↔ w.HasProperty e' prop id ∧ e ≠ e' := by
  have hentity : w.IsLive 0 e' → e ≠ e' → w'.entity e' = w.entity e' := fun hlive hne ↦
    have hlive := (World.isLive_iff_entity e').mp hlive
    h.entity_eq e' hlive.1 hlive.2.1 hne
  rw [World.HasProperty, h.isLive_iff, World.HasProperty]
  constructor
  · rintro ⟨⟨hlive, hne⟩, hprop⟩
    exact ⟨⟨hlive, hentity hlive hne ▸ hprop⟩, hne⟩
  · rintro ⟨⟨hlive, hprop⟩, hne⟩
    exact ⟨⟨hlive, hne⟩, (hentity hlive hne).symm ▸ hprop⟩

include htied he

/-- What another entity has for properties is left alone. -/
theorem Struck.signal_property {e' : EntityRef} {prop : String} {id : SignalId}
    (hid : w.HasProperty e' prop id) (hne : e ≠ e') : w'.signal id = w.signal id := by
  have hwatched := htied.property e' prop id hid
  refine h.signal_eq id fun hmem ↦ ?_
  rcases List.mem_append.mp hmem with hvalue | hshape
  · obtain ⟨prop', hprop'⟩ := (Tables.mem_values _ id).mp hvalue
    have howner := (htied.property e prop' id ⟨he, hprop'⟩).owner_eq
    rw [hwatched.owner_eq, Owner.entity.injEq] at howner
    exact hne howner.symm
  · obtain ⟨n, hentries⟩ := hwatched.entries_eq
    rw [List.mem_singleton.mp hshape, (htied.shape e he).2] at hentries
    exact List.cons_ne_nil _ _ hentries.symm

theorem Struck.tied : w'.Tied where
  property e' prop id hid := by
    obtain ⟨hid, hne⟩ := (h.hasProperty_iff e' prop id).mp hid
    obtain ⟨hlt, hundisposed, howner, hentries, htold⟩ := htied.property e' prop id hid
    have hsignal := h.signal_property htied he hid hne
    rw [← hsignal] at hundisposed howner hentries htold
    rw [← h.size_eq] at hlt
    rw [← h.effects_eq] at htold
    exact ⟨hlt, hundisposed, howner, hentries, htold⟩
  only id hentries := by
    obtain ⟨e', prop, hid⟩ := htied.only id (mt (h.unwatched id) hentries)
    refine ⟨e', prop, (h.hasProperty_iff e' prop id).mpr ⟨hid, fun heq ↦ hentries ?_⟩⟩
    subst heq
    exact h.ended id ((Tables.mem_values _ id).mpr ⟨prop, hid.2⟩) (htied.property e prop id hid).undisposed
  shape e' he' := by
    obtain ⟨hlive, hne⟩ := (h.isLive_iff e').mp he'
    obtain ⟨hlt, hentries⟩ := htied.shape e' hlive
    obtain ⟨hstore, hpos, -⟩ := (World.isLive_iff_entity e').mp hlive
    rw [h.entity_eq e' hstore hpos hne, h.size_eq]
    exact ⟨hlt, h.unwatched _ hentries⟩

end Struck

theorem World.struck_of_find? (hground : Ground (fun _ ↦ False) w) (hfound : w.find? 0 uri = some e) :
    Struck (w.strike e).2 ((w.strike e).2.retire e) e := by
  obtain ⟨hstore, hfind⟩ := World.live_of_find? hfound
  refine World.struck_retire ?_ hstore (hground.coherent.pos hfind)
  rw [show (w.strike e).2.stores.size = 1 from Array.size_modify.trans hground.stores_size]
  exact Nat.one_pos

/-- Striking an entity takes it out of the tables and leaves all properties as they are. -/
theorem World.steady_strike (w : World) (e : EntityRef) : Steady w (w.strike e).2 :=
  .of_eq rfl rfl fun s ↦ w.part_modifyStore (·.incarnations) (by intro; rfl) e.store s

/-- An entity that was removed is gone, with its properties, and all others are as they were. -/
theorem World.Tied.strike {u u' g g' : EntityRef → Prop} (h : w.Tied)
    (hground : Ground (fun _ ↦ False) w) (hfound : w.find? 0 uri = some e)
    (hu : ∀ e', u e' → e = e' ∨ u' e') (hgone : ∀ e', g e' ∨ e = e' → g' e')
    (hpos : ∀ e', g e' → 0 < e'.serial) :
    ((w.strike e).2.retire e).Tied ∧ Unmoved w ((w.strike e).2.retire e) u u' g g' := by
  have hground' := OnGround.strike hground hfound
  obtain ⟨hstore, hfind⟩ := World.live_of_find? hfound
  have he : w.IsLive 0 e := ((World.live_iff_isLive hground.coherent e hstore uri).mp hfind).1
  have hsteady := w.steady_strike e
  have hstruck := World.struck_of_find? hground hfound
  generalize (w.strike e).2 = w₁ at hground' hsteady hstruck ⊢
  have he₁ : w₁.IsLive 0 e := (hsteady.isLive_iff e).mpr he
  have hcurrent : ∀ e' : EntityRef, e'.store = 0 →
      ((w₁.retire e).isCurrent e' ↔ w.isCurrent e' ∧ e ≠ e') := fun e' he' ↦ by
    rw [hground'.isCurrent_iff_isLive he', hground.isCurrent_iff_isLive he', hstruck.isLive_iff,
      hsteady.isLive_iff]
  refine ⟨hstruck.tied (hsteady.tied h) he₁, fun e' he' hcurrent' hnot hp ↦ ?_,
    fun e' he' hkept ↦ ?_⟩
  · obtain ⟨hbefore, hne⟩ := (hcurrent e' he').mp hcurrent'
    have hlive := (hground.isCurrent_iff_isLive he').mp hbefore
    have hlive₁ := (hsteady.isLive_iff e').mpr hlive
    have hpos' := ((World.isLive_iff_entity e').mp hlive).2.1
    have hp₁ : ¬w₁.Pending e' := fun ⟨prop, id, hid, hmem⟩ ↦ hp ⟨prop, id,
      (hstruck.hasProperty_iff e' prop id).mpr ⟨hid, hne⟩, hstruck.effects_eq ▸ hmem⟩
    refine ⟨hbefore, fun hun ↦ (hu e' hun).elim hne hnot,
      fun hpending ↦ hp₁ (hsteady.pending e' hpending), fun prop ↦ ?_⟩
    rw [← hsteady.property?_eq h hlive hp₁ prop, World.property?,
      hstruck.entity_eq e' he' hpos' hne, World.property?]
    cases hprop : (w₁.entity e').props.get? prop with
    | none => rw [Option.map_none, Option.map_none]
    | some id =>
      simp only [Option.map_some, World.valueOf,
        hstruck.signal_property (hsteady.tied h) he₁ ⟨hlive₁, hprop⟩ hne]
  · have hpos' : 0 < e'.serial := hkept.elim
      (fun hbefore ↦ ((hground.isCurrent_iff he').mp hbefore).1) (hpos e')
    obtain ⟨huri, hkind⟩ := hstruck.name_eq e' he' hpos'
    refine ⟨huri.trans (hsteady.uriOf_eq e'), hkind.trans (hsteady.kindOf_eq e'), ?_⟩
    by_cases heq : e = e'
    · exact .inr (hgone e' (.inr heq))
    · exact hkept.imp (fun hbefore ↦ (hcurrent e' he').mpr ⟨hbefore, heq⟩) fun h ↦ hgone e' (.inl h)

end Strike

end LiveGraph
