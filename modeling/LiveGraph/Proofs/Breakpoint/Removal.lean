import LiveGraph.Proofs.Breakpoint.Scene
import LiveGraph.Proofs.Client.Run

/-!
# Breakpoints that are removed

The store tells its listeners while a breakpoint is removed. As long as they leave the path alone, the breakpoint is
gone from it afterwards and everything else is as it was.
-/

/-!
## Operations while others leave a path alone

The steps of an operation on the store that only count, file or tell leave every path as it is, and so do
listeners that are sealed against changes of it. What is known of a path is kept by all of them.
-/

namespace LiveGraph.Breakpoint

open Act

variable {own : String → Prop} {δ : Definitions} {β : Background} {path : String}
variable {Φ Ψ : Scene → Prop} {stage stage' : Stage} {w w' : World}

/-- The indices are right, and something is known of a path. -/
structure Scened (own : String → Prop) (δ : Definitions) (β : Background) (path : String)
    (Φ : Scene → Prop) (stage : Stage) (w : World) : Prop where
  indexed : Indexed own δ β stage w
  known : Φ (scene w path)

namespace Scened

theorem mono (h : Scened own δ β path Φ stage w) (hΦ : ∀ ς, Φ ς → Ψ ς) :
    Scened own δ β path Ψ stage w :=
  ⟨h.indexed, hΦ _ h.known⟩

theorem alike (h : Scened own δ β path Φ stage w) (hw : Indexed own δ β stage' w') (halike : Alike w w') :
    Scened own δ β path Φ stage' w' := by
  obtain ⟨hidden, hground⟩ := h.indexed.ground.exists_ground
  exact ⟨hw, halike.scene_eq hground path ▸ h.known⟩

/-- A write of what is no property leaves all properties. -/
theorem valueOf_write (h : Indexed own δ β stage w) {id j : SignalId} {e : EntityRef} {prop : String}
    (hid : ∀ e prop, ¬w.HasProperty e prop id) (hj : w.HasProperty e prop j) (v : Value) :
    (w.write id v).valueOf j = w.valueOf j := by
  refine w.valueOf_write_of_ne h.plain.noDeriveds (fun heq ↦ ?_) v
  exact hid e prop (heq ▸ hj)

theorem property?_write (h : Indexed own δ β stage w) {id : SignalId} {e : EntityRef}
    (hid : ∀ e prop, ¬w.HasProperty e prop id) (he : w.IsLive 0 e) (v : Value) (prop : String) :
    (w.write id v).property? e prop = w.property? e prop := by
  have hstore : (w.write id v).store e.store = w.store e.store := by
    rw [World.store, w.stores_write, World.store]
  rw [World.property?, World.entity, hstore, ← World.entity, World.property?]
  cases hprop : (w.entity e).props.get? prop with
  | none => rw [Option.map_none, Option.map_none]
  | some j => rw [Option.map_some, Option.map_some, valueOf_write h hid ⟨he, hprop⟩]

theorem alike_write (h : Indexed own δ β stage w) {id : SignalId}
    (hid : ∀ e prop, ¬w.HasProperty e prop id) (v : Value) : Alike w (w.write id v) :=
  .signals (w.stores_write id v) fun _ _ _ he hcurrent hprop ↦
    valueOf_write h hid ⟨h.isLive he hcurrent, hprop⟩ v

/-- The signals of roles are no properties. -/
theorem write (h : Scened own δ β path Φ stage w) {id : SignalId} (hid : w.Reserved id) (v : Value) :
    Scened own δ β path Φ stage (w.write id v) := by
  refine h.alike (h.indexed.write id v) (alike_write h.indexed (fun e prop hprop ↦ ?_) v)
  obtain ⟨state, howner⟩ := h.indexed.behind.owner_eq id hid
  exact Owner.noConfusion (howner.symm.trans (h.indexed.tied.property e prop id hprop).owner_eq)

/-- Nothing is counted where there are no clocks. -/
theorem counted_eq (h : Indexed own δ β stage w) (key : ClockKey) : w.counted (.clock 0 key) = w := by
  have hnone : (∅ : Std.TreeMap ClockKey SignalId).get? key = none := rfl
  simp only [World.counted, h.behind.noClocks, hnone]

theorem viewless : Viewless (Scened own δ β path Φ stage) where
  plain _ h := h.indexed.plain
  context _ d f frames pins h := ⟨h.indexed.context d f frames pins, h.known⟩
  reap w h := by rwa [h.indexed.reap_eq]
  noViews _ h := h.indexed.noViews
  roles w id h roles hroles role signal hsignal w' v h' _ := by
    rw [h.indexed.behind.allRoles_eq, ← h'.indexed.behind.allRoles_eq] at hroles
    exact h'.write (.inr ⟨id, roles, hroles, role, hsignal⟩) v
  version _ v h _ := h.write (.inl rfl) v

theorem excusing : Excusing fun U ↦ Scened own δ β path Φ (.whole U) where
  robust _ := viewless.toRobust
  ground _ _ h := h.indexed.ground
  tied _ _ h := h.indexed.tied
  pop U U' w w' effect h hU hpopped htold :=
    h.alike (Indexed.excusing.pop U U' w w' effect h.indexed hU hpopped htold)
      (.signals hpopped.stores_eq fun _ _ id _ _ _ ↦ (hpopped.signal_kept id).2.2.2.1)

/-- What is known of a path is kept by all that operations do besides changing it. -/
theorem filed : Filed (Scened own δ β path Φ) where
  viewless _ := viewless
  excusing := excusing
  mono U U' w h hU := ⟨Indexed.filed.mono U U' w h.indexed hU, h.known⟩
  count stage key w h := by rwa [counted_eq h.indexed]
  reindex U w e h he hcurrent := h.alike (h.indexed.reindex he hcurrent)
    (.modifyStore w (fun _ ↦ rfl) (fun _ ↦ rfl) (fun _ ↦ rfl) fun _ ↦ rfl)
  obsolete U w e h hcurrent := ⟨Indexed.filed.obsolete U w e h.indexed hcurrent, h.known⟩
  told e w h := ⟨h.indexed.told, h.known⟩
  gone_iff e w := ⟨fun h ↦ ⟨Indexed.gone_iff.mp h.indexed, h.known⟩,
    fun h ↦ ⟨Indexed.gone_iff.mpr h.indexed, h.known⟩⟩
  retireClocks w uri h := by
    refine h.alike (h.indexed.retireClocks uri) ?_
    unfold World.retireClocks
    dsimp only
    split
    all_goals exact .modifyStore w (fun _ ↦ rfl) (fun _ ↦ rfl) (fun _ ↦ rfl) fun _ ↦ rfl

end Scened

/-- Listeners that leave a path alone. -/
noncomputable def sealedReact (path : String) (react : String → Event → Client (Reaction own)) :
    String → Event → Client (Reaction own) :=
  fun name event ↦ (react name event).sparing (SamePath path)

/-- Calls where all listeners leave a path alone. -/
@[reducible]
noncomputable def sealedDispatch (path : String) (react : String → Event → Client (Reaction own))
    (n : Nat) : Dispatch :=
  Reaction.dispatch (sealedReact path react) n

variable (react : String → Event → Client (Reaction own)) (n : Nat)

end LiveGraph.Breakpoint

/-!
## Taking a breakpoint off its path

When a breakpoint ends it is gone from its path, and what else there is on the path stays as it is and in
order. That is what the removal of a breakpoint comes to, as long as listeners leave the path alone.
-/

namespace LiveGraph.Breakpoint

variable {own : String → Prop} {δ : Definitions} {β : Background} {path : String}
variable {w : World} {e : EntityRef} {uri : Uri} {kind : String}

/-- What there is on a path once a breakpoint was removed. -/
def Scene.without (ς : Scene) (m : Mark) : Scene where
  source := ς.source
  marks := ς.marks.filter (· ≠ m)
  stated := Function.update ς.stated m.entity none

/-- The same entities of a type are listed where the same can be found. -/
theorem entitiesOf_congr {hidden hidden' : Nat → Prop} {w' : World} (hground : Ground hidden w)
    (hground' : Ground hidden' w') (kind : String)
    (h : ∀ e : EntityRef, e.store = 0 → (w'.isCurrent e ∧ w'.kindOf e = kind ↔
      w.isCurrent e ∧ w.kindOf e = kind)) : w'.entitiesOf 0 kind = w.entitiesOf 0 kind := by
  have : Std.Antisymm fun a b : EntityRef ↦ a.serial < b.serial :=
    ⟨fun a b hab hba ↦ absurd hab (Nat.lt_asymm hba)⟩
  have : Std.Irrefl fun a b : EntityRef ↦ a.serial < b.serial := ⟨fun a ↦ Nat.lt_irrefl _⟩
  refine (World.sorted_entitiesOf kind).eq_of_mem_iff (World.sorted_entitiesOf kind) fun e ↦ ?_
  rw [mem_entitiesOf hground, mem_entitiesOf hground']
  exact and_congr_right (h e)

/-- Two worlds of which the second lacks one entity, and all others are as they were. -/
structure Departed (w w' : World) (e : EntityRef) : Prop where
  live_eq : (w'.store 0).live = (w.store 0).live.erase (w.uriOf e)
  edges_eq : (w'.store 0).edges = ((w.store 0).edges.detach (w.uriOf e)).2
  isCurrent_iff : ∀ e' : EntityRef, e'.store = 0 → (w'.isCurrent e' ↔ w.isCurrent e' ∧ e ≠ e')
  uri_eq : ∀ e' : EntityRef, e'.store = 0 → w.isCurrent e' → e ≠ e' → w'.uriOf e' = w.uriOf e'
  kind_eq : ∀ e' : EntityRef, e'.store = 0 → w.isCurrent e' → e ≠ e' → w'.kindOf e' = w.kindOf e'
  property_eq : ∀ e' : EntityRef, e'.store = 0 → w.isCurrent e' → e ≠ e' → ∀ prop,
    w'.property e' prop = w.property e' prop

/-- Striking and retiring an entity takes it out of the store. -/
theorem departed_strike (hground : Ground (fun _ ↦ False) w) (htied : w.Tied)
    (hfound : w.find? 0 uri = some e) : Departed w ((w.strike e).2.retire e) e := by
  obtain ⟨he, hcurrent, -⟩ := isCurrent_of_find? hground hfound
  have hsteady := w.steady_strike e
  have hstruck := World.struck_of_find? hground hfound
  have hground' := OnGround.strike hground hfound
  have hsame : SameGround _ ((w.strike e).2.retire e) := .retire (w.strike e).2 e
  have hvalue : ∀ id, (w.strike e).2.valueOf id = w.valueOf id := fun _ ↦ rfl
  have hstore : (w.strike e).2.store e.store = _ :=
    w.store_modifyStore_self (by rw [he, hground.stores_size]; exact Nat.one_pos) _
  have hlive : ((w.strike e).2.store 0).live = (w.store 0).live.erase (w.uriOf e) := by
    rw [← he, hstore]
    rfl
  have hedges : ((w.strike e).2.store 0).edges = ((w.store 0).edges.detach (w.uriOf e)).2 := by
    rw [← he, hstore]
    rfl
  clear hstore
  generalize (w.strike e).2 = w₁ at *
  have hisLive := hground.isLive_of_isCurrent he hcurrent
  have hentity : ∀ e' : EntityRef, e'.store = 0 → w.isCurrent e' → e ≠ e' →
      (w₁.retire e).entity e' = w.entity e' := fun e' he' hcurrent' hne ↦ by
    have hlive' := hground.isLive_of_isCurrent he' hcurrent'
    rw [hstruck.entity_eq e' he' ((World.isLive_iff_entity e').mp hlive').2.1 hne,
      hsteady.entity_eq]
  refine ⟨?_, ?_, fun e' he' ↦ ?_, fun e' he' hcurrent' hne ↦ ?_, fun e' he' hcurrent' hne ↦ ?_,
    fun e' he' hcurrent' hne prop ↦ World.property_congr ?_⟩
  · rw [hsame.store.live_eq, ← hlive]
    exact w₁.part_modifyStore (·.live) (by intro; rfl) e.store 0
  · rw [hsame.store.edges_eq, ← hedges]
    exact w₁.part_modifyStore (·.edges) (by intro; rfl) e.store 0
  · rw [Ground.isCurrent_iff_isLive hground' he', hground.isCurrent_iff_isLive he',
      hstruck.isLive_iff, hsteady.isLive_iff]
  · rw [World.uriOf, hentity e' he' hcurrent' hne, World.uriOf]
  · rw [World.kindOf, hentity e' he' hcurrent' hne, World.kindOf]
  · rw [World.property?, hentity e' he' hcurrent' hne, World.property?]
    cases hprop : (w.entity e').props.get? prop with
    | none => rw [Option.map_none, Option.map_none]
    | some id =>
      have hid : w₁.HasProperty e' prop id := (hsteady.hasProperty_iff e' prop id).mpr
        ⟨hground.isLive_of_isCurrent he' hcurrent', hprop⟩
      have hsignal := hstruck.signal_property (hsteady.tied htied) ((hsteady.isLive_iff e).mpr hisLive)
        hid hne
      rw [Option.map_some, Option.map_some, World.valueOf, hsignal, ← World.valueOf, hvalue]

namespace Departed

variable {w' : World} (h : Departed w w' e)
include h

theorem mark_eq {e' : EntityRef} (he' : e'.store = 0) (hcurrent : w.isCurrent e') (hne : e ≠ e') :
    mark w' e' = mark w e' := by
  rw [mark, h.uri_eq e' he' hcurrent hne, h.property_eq e' he' hcurrent hne,
    h.property_eq e' he' hcurrent hne, mark]

theorem find?_eq (uri' : Uri) : w'.find? 0 uri' = if w.uriOf e = uri' then none else w.find? 0 uri' := by
  rw [World.find?, h.live_eq, Std.TreeMap.get?_eq_getElem?, Std.TreeMap.getElem?_erase]
  by_cases huri : w.uriOf e = uri'
  · rw [if_pos huri, if_pos (by simpa using huri)]
    rfl
  · rw [if_neg huri, if_neg (by simpa using huri)]
    rfl

variable (hground : Ground (fun _ ↦ False) w) (he : e.store = 0) (hcurrent : w.isCurrent e)
  (hkind : w.kindOf e = Breakpoint.kind)
include hground he hcurrent hkind

/-- Of the breakpoints at some URIs, one that ends is left out. -/
theorem marks_eq (uris : List Uri) :
    (((uris.filter (· ≠ w.uriOf e)).filterMap (w'.find? 0)).filter fun e ↦
      w'.kindOf e = Breakpoint.kind).map (mark w') =
    (((uris.filterMap (w.find? 0)).filter fun e ↦ w.kindOf e = Breakpoint.kind).map
      (mark w)).filter (· ≠ mark w e) := by
  have hfound := find?_of_isCurrent he hcurrent
  induction uris with
  | nil => rfl
  | cons uri rest ih =>
    by_cases huri : uri = w.uriOf e
    · rw [huri, List.filter_cons_of_neg (by simp), List.filterMap_cons_some hfound,
        List.filter_cons_of_pos (by simpa using hkind), List.map_cons,
        List.filter_cons_of_neg (by simp)]
      exact ih
    · have hfind := h.find?_eq uri
      rw [if_neg (Ne.symm huri)] at hfind
      rw [List.filter_cons_of_pos (by simpa using huri)]
      cases hfind' : w.find? 0 uri with
      | none =>
        rw [List.filterMap_cons_none hfind', List.filterMap_cons_none (hfind.trans hfind')]
        exact ih
      | some e' =>
        obtain ⟨he', hcurrent', huri'⟩ := isCurrent_of_find? hground hfind'
        have hne : e ≠ e' := fun heq ↦ huri (huri'.symm.trans (heq ▸ rfl))
        have hmark := h.mark_eq he' hcurrent' hne
        have hapart : mark w e' ≠ mark w e := fun heq ↦ hne (congrArg Mark.entity heq).symm
        have hkind' := h.kind_eq e' he' hcurrent' hne
        rw [List.filterMap_cons_some hfind', List.filterMap_cons_some (hfind.trans hfind')]
        by_cases hk : w.kindOf e' = Breakpoint.kind
        · rw [List.filter_cons_of_pos (by simpa [hkind'] using hk),
            List.filter_cons_of_pos (by simpa using hk), List.map_cons, List.map_cons,
            List.filter_cons_of_pos (by simpa using hapart), hmark]
          exact congrArg _ ih
        · rw [List.filter_cons_of_neg (by simpa [hkind'] using hk),
            List.filter_cons_of_neg (by simpa using hk)]
          exact ih

/-- When a breakpoint ends, it is gone from the path, and everything else is as it was. -/
theorem scene_eq (hground' : Ground (fun _ ↦ False) w') (path : String) :
    scene w' path = (scene w path).without (mark w e) := by
  have hapart : ∀ e' : EntityRef, w.kindOf e' = sourceKind → e ≠ e' := fun e' hkind' heq ↦ by
    rw [heq, hkind'] at hkind
    exact absurd hkind (by decide)
  have hlist : w'.entitiesOf 0 sourceKind = w.entitiesOf 0 sourceKind := by
    refine entitiesOf_congr hground hground' sourceKind fun e' he' ↦ ?_
    rw [h.isCurrent_iff e' he']
    constructor
    · rintro ⟨⟨hcurrent', hne⟩, hkind'⟩
      exact ⟨hcurrent', h.kind_eq e' he' hcurrent' hne ▸ hkind'⟩
    · rintro ⟨hcurrent', hkind'⟩
      have hne := hapart e' hkind'
      exact ⟨⟨hcurrent', hne⟩, (h.kind_eq e' he' hcurrent' hne).trans hkind'⟩
  have hsource : sourceOn w' path = sourceOn w path := by
    rw [sourceOn, hlist, sourceOn, List.filter_congr fun e' he' ↦ ?_]
    obtain ⟨hstore, hcurrent', hkind'⟩ := (mem_entitiesOf hground).mp he'
    rw [h.property_eq e' hstore hcurrent' (hapart e' hkind')]
  refine Scene.ext hsource ?_ (funext fun e' ↦ ?_)
  · have hmarks : ∀ source, sourceOn w path = some source →
        linked w' source = (linked w source).filter (· ≠ mark w e) := fun source heq ↦ by
      obtain ⟨hstore, hcurrent', hkind', -⟩ := sourceOn_current hground heq
      have hne := hapart source hkind'
      have hapart' : w.uriOf source ≠ w.uriOf e := fun huri ↦
        hne (World.eq_of_isCurrent (he.trans hstore.symm) hcurrent hcurrent' huri.symm)
      rw [linked, h.edges_eq, h.uri_eq source hstore hcurrent' hne,
        hground.coherent.edges.sources_detach hapart']
      exact h.marks_eq hground he hcurrent hkind _
    have hscene : (scene w' path).marks = (sourceOn w path).elim [] (linked w') := by
      rw [scene, hsource]
    have hscene' : ((scene w path).without (mark w e)).marks =
        ((sourceOn w path).elim [] (linked w)).filter (· ≠ mark w e) := rfl
    rw [hscene, hscene']
    cases heq : sourceOn w path with
    | none => rfl
    | some source => exact hmarks source heq
  · have hstated : ((scene w path).without (mark w e)).stated e' =
        Function.update (stated w path) e none e' := rfl
    rw [hstated]
    by_cases heq : e' = e
    · rw [heq, Function.update_self]
      exact if_neg fun hcond ↦ ((h.isCurrent_iff e hcond.1).mp hcond.2.1).2 rfl
    · rw [Function.update_of_ne heq]
      by_cases hbefore : e'.store = 0 ∧ w.isCurrent e'
      · obtain ⟨hstore, hcurrent'⟩ := hbefore
        have hne := Ne.symm heq
        have hnow : w'.isCurrent e' := (h.isCurrent_iff e' hstore).mpr ⟨hcurrent', hne⟩
        have hstated' : (scene w' path).stated e' = stated w' path e' := rfl
        rw [hstated', stated, h.kind_eq e' hstore hcurrent' hne, h.property_eq e' hstore hcurrent' hne,
          h.mark_eq hstore hcurrent' hne, hnow, stated, hcurrent']
      · refine (if_neg fun hcond ↦ hbefore ?_).trans
          (if_neg fun hcond ↦ hbefore ⟨hcond.1, hcond.2.1⟩).symm
        exact ⟨hcond.1, ((h.isCurrent_iff e' hcond.1).mp hcond.2.1).1⟩

end Departed

open Act

variable {D : Dispatch} {d : Nat} {f : Bool} {ς : Scene} {m : Mark}

/-- What is known of a breakpoint before it is removed. -/
def Removing (uri : Uri) (m : Mark) (w : World) : Prop :=
  w.find? 0 uri = some m.entity ∧ w.kindOf m.entity = Breakpoint.kind ∧ mark w m.entity = m

/-- A breakpoint that is removed is gone from the path. -/
theorem agree_remove (h : ∀ Φ, Filing (Scened own δ β path Φ) D D) (uri : Uri) :
    Agree (Held (fun w ↦ Scened own δ β path (· = ς) (.whole ∅) w ∧ Removing uri m w) d f)
      (@Store.remove D 0 uri) (@Store.remove D 0 uri)
      (fun _ ↦ At (Scened own δ β path (· = ς.without m) (.whole ∅)) d f) fun _ ↦ False := by
  have htelling := (h (· = ς.without m)).telling Scened.filed
  refine htelling.agree_remove htelling.flushes uri
    (fun w d hw ↦ ⟨Scened.viewless.depthFree w d hw.1, hw.2⟩) (fun w hw hnone ↦ ?_)
    fun w e hw hfound ↦ ?_
  · exact absurd (hw.2.1.symm.trans hnone) (Option.some_ne_none _)
  · obtain ⟨hscened, hfind, hkind, hmark⟩ := hw
    obtain rfl := Option.some.inj (hfound.symm.trans hfind)
    have hground : Ground (fun _ ↦ False) w := hscened.indexed.ground
    obtain ⟨he, hcurrent, -⟩ := isCurrent_of_find? hground hfound
    have hdeparted := departed_strike hground hscened.indexed.tied hfound
    refine ⟨hscened.indexed.strike hfound, ?_⟩
    rw [hdeparted.scene_eq hground he hcurrent hkind (OnGround.strike hground hfound) path,
      hscened.known, hmark]

end LiveGraph.Breakpoint
