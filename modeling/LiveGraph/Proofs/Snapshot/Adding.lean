import LiveGraph.Proofs.Snapshot.Contents

/-!
# Adding an entity

A new entity is given its properties while it cannot be found, so nobody hears of them; of a property that repeats
the first value stays. Then it is enlisted, and is the youngest that its store holds.
-/

namespace LiveGraph

open Act

variable {w₀ w : World} {s : StoreId} {uri : Uri} {kind prop : String} {v : Value}
variable {given : List (String × Value)}

theorem Array.modify_push_size {α : Type} (xs : Array α) (x : α) (f : α → α) :
    (xs.push x).modify xs.size f = xs.push (f x) := by
  refine Array.ext (by simp) fun i hi _ ↦ ?_
  rw [Array.getElem_modify, Array.getElem_push, Array.getElem_push]
  have hlt : i < xs.size + 1 := by simpa using hi
  by_cases hi : xs.size = i
  · simp [hi]
  · simp [hi, Nat.lt_of_le_of_ne (Nat.le_of_lt_succ hlt) (Ne.symm hi)]

namespace World

/-- The next entity of a store. -/
def newcomer (w : World) (s : StoreId) : EntityRef :=
  ⟨s, (w.store s).incarnations.size + 1⟩

/-- The world with a new entity that can be found from now on, and is filed in all indices. -/
def enlisted (w : World) (e : EntityRef) : World :=
  ((w.enlist e).reindex e).2

/-- To raise an unheard counter changes its value. -/
theorem advanced_of_unheard {id : SignalId} (h : w.Unheard id) :
    ∃ v, w.advanced id = w ∨ w.advanced id = w.modifySignal id fun s ↦ { s with value := v } := by
  rcases w.advanced_cases id with heq | ⟨-, v, heq⟩
  · exact ⟨.nil, .inl heq⟩
  · exact ⟨v, .inr (heq.trans (w.write_of_unheard h v))⟩

end World

/-- Nobody hears of a property of an entity that cannot be found. -/
theorem Entity.propertyChanged_run [Dispatch] {e : EntityRef} (h : w.isCurrent e = false) (prop : String) :
    Entity.propertyChanged e prop w = .ok () w := by
  simp [Entity.propertyChanged, bind_run, get_run, h]

/-- The next entity of a store is none that can be found. -/
theorem Stocked.ne_newcomer (h : Stocked s w) {e : EntityRef} (he : e.store = s) (hcurrent : w.isCurrent e) :
    0 < e.serial ∧ e ≠ w.newcomer s := by
  rw [World.isCurrent, he, decide_eq_true_eq] at hcurrent
  refine ⟨h.coherent.pos hcurrent, fun heq ↦ ?_⟩
  have hle := h.coherent.le_size hcurrent
  rw [heq] at hle
  exact absurd hle (Nat.not_succ_le_self _)

/-- A world in which the next entity of a store was created and given some properties. -/
structure Filling (s : StoreId) (uri : Uri) (kind : String) (given : List (String × Value)) (w₀ w : World) :
    Prop where
  rest_eq : { w with signals := w₀.signals, stores := w₀.stores } = w₀
  stores_size : w.stores.size = w₀.stores.size
  signals_le : w₀.signals.size ≤ w.signals.size
  signal_eq : ∀ j < w₀.signals.size, w.signal j = w₀.signal j
  store_eq : w.store s = { w₀.store s with
    incarnations := (w₀.store s).incarnations.push (w.entity (w₀.newcomer s)) }
  writable : w.Writable (w₀.newcomer s)
  shape_le : w₀.signals.size ≤ (w.entity (w₀.newcomer s)).shape
  unheard : w.Unheard (w.entity (w₀.newcomer s)).shape
  uri_eq : w.uriOf (w₀.newcomer s) = uri
  kind_eq : w.kindOf (w₀.newcomer s) = kind
  property_eq : ∀ name, w.property? (w₀.newcomer s) name = (given.find? (·.1 = name)).map (·.2)
  owner_eq : (w.signal (w.entity (w₀.newcomer s)).shape).owner = .entity (w₀.newcomer s)
  indexed : s = 0 → w₀.contains s uri = false → ∀ own δ β, Indexed own δ β (.whole ∅) w₀ →
    Indexed own δ β (.coming (w₀.newcomer s) uri kind) w

theorem filling_addIncarnation (hs : s < w.stores.size) (uri : Uri) (kind : String) :
    Filling s uri kind [] w (w.addIncarnation s uri kind).2 := by
  have hentity : (w.addIncarnation s uri kind).2.entity (w.newcomer s) = ⟨uri, kind, ∅, w.signals.size, true⟩ :=
    World.entity_addIncarnation_self hs uri kind
  have hsignal : ∀ j, (w.addIncarnation s uri kind).2.signal j =
      if j = w.signals.size then ⟨.int 0, .same, .entity (w.newcomer s), .empty, [], false, false⟩
      else w.signal j :=
    w.signal_addSignal (.int 0) .same (.entity (w.newcomer s))
  refine ⟨rfl, w.size_modifyStore s _, ?_, fun j hj ↦ ?_, ?_, World.writable_addIncarnation hs uri kind, ?_, ?_,
    ?_, ?_, fun name ↦ ?_, ?_, fun hs hfree own δ β hw ↦ ?_⟩
  · exact Nat.le_trans (Nat.le_succ _) (Nat.le_of_eq (w.size_addSignal _ _ _).symm)
  · rw [hsignal, if_neg (Nat.ne_of_lt hj)]
  · rw [hentity]
    exact World.store_addIncarnation_self hs uri kind
  · rw [hentity]
  · rw [hentity, World.Unheard, hsignal, if_pos rfl]
    exact ⟨rfl, rfl⟩
  · rw [World.uriOf, hentity]
  · rw [World.kindOf, hentity]
  · rw [World.property?, hentity]
    rfl
  · rw [hentity, hsignal, if_pos rfl]
  · subst hs
    exact hw.addIncarnation uri kind hfree

namespace Filling

variable (h : Filling s uri kind given w₀ w)
include h

theorem part_eq {α : Type} (part : World → α)
    (hpart : ∀ (w : World) signals stores, part { w with signals := signals, stores := stores } = part w) :
    part w = part w₀ := by
  rw [← hpart w w₀.signals w₀.stores, h.rest_eq]

theorem quiet : w₀.Quiet w :=
  ⟨h.part_eq World.depth fun _ _ _ ↦ rfl, h.part_eq World.flushing fun _ _ _ ↦ rfl,
    h.part_eq World.queue fun _ _ _ ↦ rfl, h.part_eq World.effects fun _ _ _ ↦ rfl⟩

theorem live_eq : (w.store s).live = (w₀.store s).live := by
  rw [h.store_eq]

/-- The entity cannot be found meanwhile. -/
theorem not_current (hfree : w₀.contains s uri = false) : w.isCurrent (w₀.newcomer s) = false := by
  have hnone : (w₀.store s).live.get? uri = none := Std.TreeMap.getElem?_eq_none_of_contains_eq_false hfree
  have hstore : (w₀.newcomer s).store = s := rfl
  rw [World.isCurrent, h.uri_eq, hstore, h.live_eq, hnone]
  rfl

/-- It gets a property that it does not have yet. -/
theorem addProperty (hnone : given.find? (·.1 = prop) = none) :
    Filling s uri kind (given ++ [(prop, v)]) w₀ (w.addProperty (w₀.newcomer s) prop v).2 := by
  let e := w₀.newcomer s
  let w₁ := (w.addProperty e prop v).2
  have hentity : w₁.entity e = { w.entity e with props := (w.entity e).props.insert prop w.signals.size } :=
    World.entity_addProperty_self h.writable.live prop v
  have hsignal : ∀ j < w.signals.size, w₁.signal j = w.signal j := fun j hj ↦ by
    rw [World.signal_addProperty, if_neg (Nat.ne_of_lt hj)]
  have hstore : w₁.store s = { w.store s with
      incarnations := (w.store s).incarnations.modify (w₀.store s).incarnations.size fun x ↦
        { x with props := x.props.insert prop w.signals.size } } :=
    World.store_modifyStore_self
      ((w.addSignal v .same (.entity e)).2.subscribe (.signal w.signals.size) (.property e prop)).2
      (World.lt_of_live h.writable.live).1 _
  refine ⟨Eq.trans rfl h.rest_eq, (World.size_modifyStore _ _ _).trans h.stores_size, ?_, fun j hj ↦ ?_, ?_,
    h.writable.addProperty prop v, ?_, ?_, ?_, ?_, fun name ↦ ?_, ?_, fun hs hfree own δ β hw ↦ ?_⟩
  · rw [World.size_addProperty]
    exact Nat.le_succ_of_le h.signals_le
  · rw [hsignal j (Nat.lt_of_lt_of_le hj h.signals_le), h.signal_eq j hj]
  · rw [hstore, hentity, h.store_eq]
    exact congrArg (fun xs ↦ ({ w₀.store s with incarnations := xs } : Store)) (Array.modify_push_size _ _ _)
  · rw [hentity]
    exact h.shape_le
  · rw [hentity, World.Unheard, hsignal _ h.writable.shape_lt]
    exact h.unheard
  · rw [World.uriOf, hentity]
    exact h.uri_eq
  · rw [World.kindOf, hentity]
    exact h.kind_eq
  · rw [World.property?_addProperty_self h.writable, h.property_eq, List.find?_append]
    by_cases hname : name = prop
    · rw [if_pos hname, hname, hnone]
      simp
    · rw [if_neg hname]
      simp [Ne.symm hname]
  · rw [hentity, hsignal _ h.writable.shape_lt]
    exact h.owner_eq
  · have hprop := h.property_eq prop
    rw [hnone, World.property?, Option.map_none, Option.map_eq_none_iff] at hprop
    exact (h.indexed hs hfree own δ β hw).addComing hprop

/-- Its properties are counted. -/
theorem advanced : Filling s uri kind given w₀ (w.advanced (w.entity (w₀.newcomer s)).shape) := by
  let e := w₀.newcomer s
  let w₁ := w.advanced (w.entity e).shape
  have hrewritten : w.Rewritten w₁ := .assigned _ _ _
  have hentity : w₁.entity e = w.entity e := hrewritten.entity_eq e
  have hstores : w₁.stores = w.stores := hrewritten.stores_eq
  obtain ⟨v, heq | heq⟩ := World.advanced_of_unheard h.unheard
  · rwa [heq]
  have hsignal : ∀ j, j ≠ (w.entity e).shape → w₁.signal j = w.signal j := fun j hj ↦ by
    rw [show w₁ = _ from heq, World.signal_modifySignal, if_neg fun hand ↦ hj hand.1.symm]
  refine ⟨?_, hstores ▸ h.stores_size, ?_, fun j hj ↦ ?_, ?_, h.writable.advanced, ?_, ?_, ?_, ?_, fun name ↦ ?_, ?_,
    fun hs hfree own δ β hw ↦ ?_⟩
  · rw [heq]
    exact h.rest_eq
  · exact Nat.le_trans h.signals_le (Nat.le_of_eq (w.size_assigned _ _).symm)
  · rw [hsignal j (Nat.ne_of_lt (Nat.lt_of_lt_of_le hj h.shape_le)), h.signal_eq j hj]
  · rw [hentity, World.store, hstores]
    exact h.store_eq
  · rw [hentity]
    exact h.shape_le
  · rw [hentity, heq, World.Unheard, World.signal_modifySignal]
    split <;> exact h.unheard
  · rw [World.uriOf, hentity]
    exact h.uri_eq
  · rw [World.kindOf, hentity]
    exact h.kind_eq
  · rw [World.property?_advanced h.writable, h.property_eq]
  · rw [hentity, heq, World.signal_modifySignal]
    split <;> exact h.owner_eq
  · have hindexed := h.indexed hs hfree own δ β hw
    rcases w.advanced_cases (w.entity e).shape with hsame | ⟨-, v', hwritten⟩
    · exact hsame.symm ▸ hindexed
    · exact hwritten.symm ▸ hindexed.write _ v'

/-- A property that it has already is left as it is. -/
theorem again {v' : Value} (hprop : given.find? (·.1 = prop) = some (prop, v')) :
    Filling s uri kind (given ++ [(prop, v)]) w₀ w :=
  { h with
    property_eq := fun name ↦ by
      rw [h.property_eq, List.find?_append]
      by_cases hname : prop = name
      · rw [← hname, hprop]
        rfl
      · simp [hname] }

section Run

variable [Dispatch] (hdepth : 0 < w₀.depth) (hfree : w₀.contains s uri = false)
include hdepth hfree

theorem ends_define (prop : String) (v : Value) : (Entity.define (w₀.newcomer s) prop v).Ends w fun r w' ↦
    (∃ id, r = .ok id) ∧ Filling s uri kind (given ++ [(prop, v)]) w₀ w' := by
  let e := w₀.newcomer s
  refine ends_get ?_
  have hprop := h.property_eq prop
  rw [World.property?] at hprop
  simp only [h.writable.live, Bool.not_true, Bool.false_eq_true, if_false]
  cases hid : (w.entity e).props.get? prop with
  | some id =>
    rw [hid, Option.map_some] at hprop
    obtain ⟨⟨prop', v'⟩, hfind, -⟩ := Option.map_eq_some_iff.mp hprop.symm
    have hname : prop' = prop := by simpa using List.find?_some hfind
    exact ends_pure ⟨⟨id, rfl⟩, h.again (hname ▸ hfind)⟩
  | none =>
    rw [hid, Option.map_none] at hprop
    have hadded := h.addProperty (v := v) (Option.map_eq_none_iff.mp hprop.symm)
    have hfilling := hadded.advanced
    rw [← World.withNewProperty_eq h.writable.live] at hfilling
    have hdepth₁ : 0 < (w.addProperty e prop v).2.depth := hadded.quiet.depth_eq ▸ hdepth
    have hcurrent := hfilling.not_current hfree
    refine ends_after (modifyGet_run _ _) (ends_after (Entity.advance_run hdepth₁ _) (ends_get ?_))
    have hdone : Ends (return Except.ok w.signals.size : Act (Except Fault SignalId)) (w.withNewProperty e prop v)
        fun r w' ↦ (∃ id, r = .ok id) ∧ Filling s uri kind (given ++ [(prop, v)]) w₀ w' :=
      ends_pure ⟨⟨_, rfl⟩, hfilling⟩
    split
    · exact ends_after (Entity.propertyChanged_run hcurrent prop) hdone
    · exact hdone

theorem ends_defineAll (props : List (String × Value)) :
    (Store.add.defineAll (w₀.newcomer s) props).Ends w fun r w' ↦
      r = .ok () ∧ Filling s uri kind (given ++ props) w₀ w' := by
  induction props generalizing given w with
  | nil => exact ends_pure ⟨rfl, given.append_nil.symm ▸ h⟩
  | cons p rest ih =>
    refine (h.ends_define hdepth hfree p.1 p.2).bind fun r w' hdefined ↦ ?_
    obtain ⟨⟨id, rfl⟩, hfilling⟩ := hdefined
    have hrest := ih hfilling
    rwa [List.append_assoc] at hrest

end Run

section Enlist

variable (hstocked : Stocked s w₀) (hfree : w₀.contains s uri = false)
include hstocked

theorem store_lt : s < w.stores.size :=
  Nat.lt_of_lt_of_eq hstocked.lt_size h.stores_size.symm

/-- The store after the entity was enlisted, before it is filed. -/
theorem store_enlist : (w.enlist (w₀.newcomer s)).store s =
    { (w.store s).setBucket kind (((w.store s).bucket kind).insert (w₀.newcomer s).serial uri) with
      live := (w.store s).live.insert uri (w₀.newcomer s).serial } := by
  have hlisted : (w.enlist (w₀.newcomer s)).store s = _ := w.store_modifyStore_self (h.store_lt hstocked) _
  have huri : (w.entity (w₀.newcomer s)).uri = uri := h.uri_eq
  have hkind : (w.entity (w₀.newcomer s)).kind = kind := h.kind_eq
  rw [hlisted, huri, hkind]

/-- To file the entity changes indices alone. -/
theorem store_enlisted : ∃ indices, (w.enlisted (w₀.newcomer s)).store s =
    { (w.enlist (w₀.newcomer s)).store s with indices := indices } :=
  ⟨_, (w.enlist (w₀.newcomer s)).store_modifyStore_self
    (Nat.lt_of_lt_of_eq (h.store_lt hstocked) (w.size_modifyStore s _).symm) _⟩

theorem incarnations_enlisted : ((w.enlisted (w₀.newcomer s)).store s).incarnations =
    (w₀.store s).incarnations.push (w.entity (w₀.newcomer s)) := by
  obtain ⟨indices, hstore⟩ := h.store_enlisted hstocked
  rw [hstore, h.store_enlist hstocked]
  exact congrArg Store.incarnations h.store_eq

theorem live_enlisted : ((w.enlisted (w₀.newcomer s)).store s).live =
    (w₀.store s).live.insert uri (w₀.newcomer s).serial := by
  obtain ⟨indices, hstore⟩ := h.store_enlisted hstocked
  rw [hstore, h.store_enlist hstocked, ← h.live_eq]

/-- A part of the store that has to do neither with its entities nor with how they are found. -/
theorem part_enlisted {α : Type} (part : Store → α) (hpart : ∀ (t : Store) incarnations live byKind indices,
    part { t with incarnations := incarnations, live := live, byKind := byKind, indices := indices } = part t) :
    part ((w.enlisted (w₀.newcomer s)).store s) = part (w₀.store s) := by
  obtain ⟨indices, hstore⟩ := h.store_enlisted hstocked
  rw [hstore, h.store_enlist hstocked, h.store_eq]
  exact hpart (w₀.store s) _ _ _ _

theorem entity_enlisted {e : EntityRef} (he : e.store = s) (hpos : 0 < e.serial) :
    (w.enlisted (w₀.newcomer s)).entity e =
      if e = w₀.newcomer s then w.entity (w₀.newcomer s) else w₀.entity e := by
  have hiff : e.serial - 1 = (w₀.store s).incarnations.size ↔ e = w₀.newcomer s := by
    refine ⟨fun hserial ↦ EntityRef.eq_of_serial he ?_, fun heq ↦ by rw [heq]; rfl⟩
    exact (Nat.sub_add_cancel hpos).symm.trans (congrArg (· + 1) hserial)
  have hnew : (w.enlisted (w₀.newcomer s)).entity e =
      ((w.enlisted (w₀.newcomer s)).store s).incarnation e.serial := by rw [World.entity, he]
  have hold : w₀.entity e = (w₀.store s).incarnation e.serial := by rw [World.entity, he]
  rw [hnew, hold, Store.incarnation, h.incarnations_enlisted hstocked, ← if_congr hiff rfl rfl]
  exact (w₀.store s).incarnation_push (w.entity (w₀.newcomer s)) e.serial

include hfree

theorem coherent_enlisted : ((w.enlisted (w₀.newcomer s)).store s).Coherent := by
  have hpushed := hstocked.coherent.push (w.entity (w₀.newcomer s))
  rw [← h.store_eq] at hpushed
  have hsize : (w.store s).incarnations.size = (w₀.newcomer s).serial := by
    rw [h.store_eq]
    exact Array.size_push _
  have hfree' : (w.store s).live.contains uri = false := by
    rw [h.live_eq]
    exact hfree
  have hlisted := hpushed.enlist (Nat.succ_pos _) (Nat.le_of_eq hsize.symm) h.uri_eq h.kind_eq h.writable.live
    hfree'
  obtain ⟨indices, hstore⟩ := h.store_enlisted hstocked
  rw [hstore, h.store_enlist hstocked]
  exact hlisted.sameGraph ⟨rfl, rfl, rfl, rfl, fun _ _ ↦ rfl, fun _ _ ↦ rfl, fun _ _ ↦ rfl⟩

/-- Afterwards it can be found, and all others can be found as before. -/
theorem isCurrent_enlisted {e : EntityRef} (he : e.store = s) :
    (w.enlisted (w₀.newcomer s)).isCurrent e ↔ w₀.isCurrent e ∨ e = w₀.newcomer s := by
  have hcoherent := h.coherent_enlisted hstocked hfree
  have hfresh : (w₀.store s).live[uri]? = none := Std.TreeMap.getElem?_eq_none_of_contains_eq_false hfree
  have hlive : ∀ u, ((w.enlisted (w₀.newcomer s)).store s).live[u]? =
      if uri = u then some (w₀.newcomer s).serial else (w₀.store s).live[u]? := fun u ↦ by
    rw [h.live_enlisted hstocked, Std.TreeMap.getElem?_insert]
    exact if_congr Std.LawfulEqOrd.compare_eq_iff_eq rfl rfl
  constructor
  · intro hcurrent
    rw [World.isCurrent, he, decide_eq_true_eq] at hcurrent
    have hpos := hcoherent.pos hcurrent
    by_cases heq : e = w₀.newcomer s
    · exact .inr heq
    · refine .inl ?_
      have huri : (w.enlisted (w₀.newcomer s)).uriOf e = w₀.uriOf e := by
        rw [World.uriOf, h.entity_enlisted hstocked he hpos, if_neg heq, World.uriOf]
      rw [World.isCurrent, he, decide_eq_true_eq, Std.TreeMap.get?_eq_getElem?]
      rw [huri, Std.TreeMap.get?_eq_getElem?, hlive] at hcurrent
      split at hcurrent
      · exact absurd (EntityRef.eq_of_serial he (Option.some.inj hcurrent).symm) heq
      · exact hcurrent
  · rintro (hcurrent | rfl)
    · obtain ⟨hpos, hne⟩ := hstocked.ne_newcomer he hcurrent
      rw [World.isCurrent, he, decide_eq_true_eq] at hcurrent
      have huri : (w.enlisted (w₀.newcomer s)).uriOf e = w₀.uriOf e := by
        rw [World.uriOf, h.entity_enlisted hstocked he hpos, if_neg hne, World.uriOf]
      rw [World.isCurrent, huri, he, decide_eq_true_eq, Std.TreeMap.get?_eq_getElem?, hlive, if_neg fun heq ↦ ?_]
      · exact hcurrent
      · rw [Std.TreeMap.get?_eq_getElem?, ← heq, hfresh] at hcurrent
        exact Option.some_ne_none _ hcurrent.symm
    · have huri : (w.enlisted (w₀.newcomer s)).uriOf (w₀.newcomer s) = uri := by
        rw [World.uriOf, h.entity_enlisted hstocked rfl (Nat.succ_pos _), if_pos rfl]
        exact h.uri_eq
      have hstore : (w₀.newcomer s).store = s := rfl
      rw [World.isCurrent, huri, hstore, decide_eq_true_eq, Std.TreeMap.get?_eq_getElem?, hlive, if_pos rfl]

omit hstocked hfree in
/-- The signals that were there before are as they were. -/
theorem signal_enlisted {j : SignalId} (hj : j < w₀.signals.size) :
    (w.enlisted (w₀.newcomer s)).signal j = w₀.signal j :=
  h.signal_eq j hj

theorem editable_enlisted (hs : s = 0) {own : String → Prop} {δ : Definitions} {β : Background}
    (hw : Editable own δ β w₀) : Editable own δ β (w.enlisted (w₀.newcomer s)) := by
  have henlist := (h.indexed hs hfree own δ β hw.indexed).enlist
  have hcurrent : (w.enlist (w₀.newcomer s)).isCurrent (w₀.newcomer s) :=
    (OnGround.enlist (h.indexed hs hfree own δ β hw.indexed).ground).2
  refine ⟨(henlist.reindex hs hcurrent).told, fun e he hcurrent' ↦ ?_⟩
  rcases (h.isCurrent_enlisted hstocked hfree (he.trans hs.symm)).mp hcurrent' with hold | rfl
  · obtain ⟨hpos, hne⟩ := hstocked.ne_newcomer (he.trans hs.symm) hold
    obtain ⟨hwritable, howner⟩ := hw.writable e he hold
    have hentity : (w.enlisted (w₀.newcomer s)).entity e = w₀.entity e := by
      rw [h.entity_enlisted hstocked (he.trans hs.symm) hpos, if_neg hne]
    refine ⟨hwritable.congr hentity h.signals_le fun prop id hid ↦ ?_, ?_⟩
    · rw [h.signal_enlisted (hwritable.separate.lt_size prop id hid)]
      exact ⟨rfl, rfl⟩
    · rw [hentity, h.signal_enlisted hwritable.shape_lt, howner]
  · have hentity : (w.enlisted (w₀.newcomer s)).entity (w₀.newcomer s) = w.entity (w₀.newcomer s) := by
      rw [h.entity_enlisted hstocked rfl (Nat.succ_pos _), if_pos rfl]
    refine ⟨h.writable.congr hentity (Nat.le_refl _) fun _ _ _ ↦ ⟨rfl, rfl⟩, ?_⟩
    rw [hentity]
    exact h.owner_eq

theorem grown_enlisted : Grown s w₀ (w.enlisted (w₀.newcomer s)) := by
  have hquiet : w.Quiet (w.enlisted (w₀.newcomer s)) := (w.quiet_enlist _).trans (World.quiet_reindex _ _)
  refine ⟨h.quiet.trans hquiet, h.part_eq World.session fun _ _ _ ↦ rfl, h.part_eq World.states fun _ _ _ ↦ rfl,
    h.signals_le, fun j hj ↦ h.signal_enlisted hj,
    h.part_enlisted hstocked Store.listeners fun _ _ _ _ _ ↦ rfl, fun e he hcurrent ↦ ?_,
    fun hs own δ β hw ↦ h.editable_enlisted hstocked hfree hs hw⟩
  obtain ⟨hpos, hne⟩ := hstocked.ne_newcomer he hcurrent
  refine ⟨(h.isCurrent_enlisted hstocked hfree he).mpr (.inl hcurrent), World.specOf_congr ?_ fun prop id hid ↦ ?_⟩
  · rw [h.entity_enlisted hstocked he hpos, if_neg hne]
  · exact congrArg Signal.value (h.signal_eq id (hstocked.lt_signals e he hcurrent prop id hid))

theorem stocked_enlisted : Stocked s (w.enlisted (w₀.newcomer s)) where
  lt_size := by
    refine Nat.lt_of_lt_of_eq (h.store_lt hstocked) (Eq.symm ?_)
    exact (World.size_modifyStore _ s _).trans (w.size_modifyStore s _)
  coherent := h.coherent_enlisted hstocked hfree
  clocks_eq := (h.part_enlisted hstocked Store.clocks fun _ _ _ _ _ ↦ rfl).trans hstocked.clocks_eq
  added_eq := (h.part_enlisted hstocked (·.listeners.added.entries) fun _ _ _ _ _ ↦ rfl).trans hstocked.added_eq
  edgeAdded_eq :=
    (h.part_enlisted hstocked (·.listeners.edgeAdded.entries) fun _ _ _ _ _ ↦ rfl).trans hstocked.edgeAdded_eq
  lt_signals e he hcurrent prop id hid := by
    rcases (h.isCurrent_enlisted hstocked hfree he).mp hcurrent with hold | rfl
    · obtain ⟨hpos, hne⟩ := hstocked.ne_newcomer he hold
      rw [h.entity_enlisted hstocked he hpos, if_neg hne] at hid
      exact Nat.lt_of_lt_of_le (hstocked.lt_signals e he hold prop id hid) h.signals_le
    · rw [h.entity_enlisted hstocked rfl (Nat.succ_pos _), if_pos rfl] at hid
      exact h.writable.separate.lt_size prop id hid

theorem byAge_enlisted : (w.enlisted (w₀.newcomer s)).byAge s = w₀.byAge s ++ [w₀.newcomer s] := by
  rw [World.byAge, h.incarnations_enlisted hstocked, Array.size_push, List.range'_1_concat, List.map_append,
    List.filter_append]
  congr 1
  · refine List.filter_congr fun e he ↦ ?_
    obtain ⟨n, hn, rfl⟩ := List.mem_map.mp he
    have hne : EntityRef.mk s n ≠ w₀.newcomer s := fun heq ↦ by
      have hserial : n = (w₀.store s).incarnations.size + 1 := congrArg EntityRef.serial heq
      have hlt := (List.mem_range'_1.mp hn).2
      rw [hserial, Nat.add_comm] at hlt
      exact Nat.lt_irrefl _ hlt
    rw [Bool.eq_iff_iff, h.isCurrent_enlisted hstocked hfree rfl]
    exact or_iff_left hne
  · rw [Nat.add_comm]
    exact List.filter_cons_of_pos ((h.isCurrent_enlisted hstocked hfree rfl).mpr (.inr rfl))

end Enlist

end Filling

/-- The new entity is recorded by what it was given. -/
theorem Filling.specOf_enlisted {spec : EntitySpec} (h : Filling s spec.uri spec.kind spec.props w₀ w)
    (hstocked : Stocked s w₀) : (w.enlisted (w₀.newcomer s)).specOf (w₀.newcomer s) = spec.normal := by
  have hentity : (w.enlisted (w₀.newcomer s)).entity (w₀.newcomer s) = w.entity (w₀.newcomer s) := by
    rw [h.entity_enlisted hstocked rfl (Nat.succ_pos _), if_pos rfl]
  have hspec : (w.enlisted (w₀.newcomer s)).specOf (w₀.newcomer s) = w.specOf (w₀.newcomer s) :=
    World.specOf_congr hentity fun _ _ _ ↦ rfl
  have hprops : w.properties (w₀.newcomer s) = spec.normal.props := by
    refine spec.eq_normal (w.pairwise_properties _) fun p ↦ ?_
    rw [World.mem_properties, h.property_eq, Option.map_eq_some_iff]
    constructor
    · rintro ⟨q, hfind, hvalue⟩
      have hname : q.1 = p.1 := by simpa using List.find?_some hfind
      rw [hfind, Prod.ext hname hvalue]
    · exact fun hfind ↦ ⟨p, hfind, rfl⟩
  rw [hspec, World.specOf, h.uri_eq, h.kind_eq, hprops]
  rfl

theorem Filling.contents_enlisted {spec : EntitySpec} (h : Filling s spec.uri spec.kind spec.props w₀ w)
    (hstocked : Stocked s w₀) (hfree : w₀.contains s spec.uri = false) :
    (w.enlisted (w₀.newcomer s)).contents s = (w₀.contents s).withEntity spec := by
  have hedges : ((w.enlisted (w₀.newcomer s)).store s).edges = (w₀.store s).edges :=
    h.part_enlisted hstocked Store.edges fun _ _ _ _ _ ↦ rfl
  have hold : (w₀.byAge s).map (w.enlisted (w₀.newcomer s)).specOf = (w₀.byAge s).map w₀.specOf := by
    refine List.map_congr_left fun e he ↦ ?_
    obtain ⟨hs, hcurrent⟩ := (World.mem_byAge hstocked.coherent).mp he
    exact ((h.grown_enlisted hstocked hfree).kept e hs hcurrent).2
  rw [World.contents, h.byAge_enlisted hstocked hfree, List.map_append, hold, hedges, List.map_singleton,
    h.specOf_enlisted hstocked]
  rfl

/-- What adding an entity comes to: it is refused where another has its URI, and is the youngest otherwise. -/
structure Added (s : StoreId) (spec : EntitySpec) (r : Except Fault EntityRef) (w w' : World) : Prop where
  grown : Grown s w w'
  stocked : Stocked s w'
  refused : w.contains s spec.uri = true → r = .error (.taken spec.uri) ∧ w'.contents s = w.contents s
  taken : w.contains s spec.uri = false → r = .ok (w.newcomer s) ∧ w'.isCurrent (w.newcomer s) ∧
    w'.specOf (w.newcomer s) = spec.normal ∧ w'.contents s = (w.contents s).withEntity spec

/-- To add an entity comes to an end, and nobody hears of it. -/
theorem Stocked.ends_add [Dispatch] (h : Stocked s w) (hdepth : 0 < w.depth) (hrounds : 0 < Dispatch.rounds)
    (spec : EntitySpec) : (Store.add s spec).Ends w fun r w' ↦ Added s spec r w w' := by
  let w₁ := w.setDepth (w.depth + 1)
  have h₁ : Stocked s w₁ := h.setDepth _
  refine ends_batch_quiet (.inl (.inl hdepth)) hrounds (ends_get ?_)
  cases hfree : w₁.contains s spec.uri with
  | true =>
    refine ends_pure ⟨.refl _, .refl s w, h, fun _ ↦ ⟨rfl, rfl⟩, fun hnone ↦ ?_⟩
    exact absurd (hnone.symm.trans hfree) Bool.false_ne_true
  | false =>
    have hstart := filling_addIncarnation h₁.lt_size spec.uri spec.kind
    have hdefine := hstart.ends_defineAll (Nat.succ_pos _) hfree spec.props
    refine ends_after (modifyGet_run _ _) (hdefine.bind fun r w₂ hdefined ↦ ?_)
    obtain ⟨rfl, hfilling⟩ := hdefined
    have hgrown := hfilling.grown_enlisted h₁ hfree
    have hstocked := hfilling.stocked_enlisted h₁ hfree
    have hnotify := notify_run (.store s .added) hstocked.added_eq (.entity .added (w₁.newcomer s))
    refine ends_after (modify_run _ _) (ends_after (modifyGet_run _ _) ?_)
    refine ends_after (bumpAll_run hstocked.clocks_eq _) (ends_after hnotify (ends_pure ?_))
    refine ⟨hgrown.toQuiet, hgrown.setDepth, hstocked.setDepth _, fun hsome ↦ ?_, fun _ ↦ ?_⟩
    · exact absurd (hfree.symm.trans hsome) Bool.false_ne_true
    · exact ⟨rfl, (hfilling.isCurrent_enlisted h₁ hfree rfl).mpr (.inr rfl), hfilling.specOf_enlisted h₁,
        hfilling.contents_enlisted h₁ hfree⟩

end LiveGraph
