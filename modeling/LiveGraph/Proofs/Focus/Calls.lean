import LiveGraph.Proofs.Focus.Holdings
import LiveGraph.State

/-!
# Calls on a focus

To focus something, for all or in a scope, to clear a role and to clear a scope are the calls on a focus. Each of
them comes to an end, changes what is held in its own scope only, and changes nothing where it is refused.
-/

namespace LiveGraph.Focus

open World Act

variable {w w' : World} {id : StateId} {scope : String} {own : Override}

/-- A scope was given roles of its own, which hold nothing. -/
structure Widened (id : StateId) (scope : String) (own : Override) (w w' : World) : Prop where
  rest_eq : { w' with signals := w.signals, states := w.states } = w
  states_size : w'.states.size = w.states.size
  state_eq : w'.state id = { w.state id with overrides := (w.state id).overrides.insert scope own }
  size_le : w.signals.size ≤ w'.signals.size
  signal_eq : ∀ j < w.signals.size, w'.signal j = w.signal j
  fresh : ∀ j, w.signals.size ≤ j → j < w'.signals.size →
    w'.signal j = ⟨.nil, .same, .state id, .empty, [], false, false⟩
  role_mem : ∀ name j, own.roles.get? name = some j → w.signals.size ≤ j ∧ j < w'.signals.size
  owned_mem : w.signals.size ≤ own.ownedFrom ∧ own.ownedFrom < w'.signals.size
  role_ne : ∀ name, own.roles.get? name ≠ some own.ownedFrom
  injective : ∀ name name' j, own.roles.get? name = some j → own.roles.get? name' = some j → name = name'

theorem widened_scopeRoles (hid : id < w.states.size) (scope : String) :
    Widened id scope (w.scopeRoles id scope).1 w (w.scopeRoles id scope).2 := by
  let names := (w.state id).schema.roles
  let w₁ := (w.addRoles (.state id) names).2
  let roles := (w.addRoles (.state id) names).1
  let w₂ := (w₁.addSignal .nil .same (.state id)).2
  let own : Override := ⟨roles, w₁.signals.size⟩
  obtain ⟨signals, hw₁⟩ := w.addRoles_eq (.state id) names
  have hrange := (w.owner_addRoles (.state id) names).2
  have hle : w.signals.size ≤ w₁.signals.size := (Aloof.addRoles w (.state id) names).signals_le
  have hsize : w₂.signals.size = w₁.signals.size + 1 := w₁.size_addSignal _ _ _
  have hstate : w₂.state id = w.state id := by
    change w₁.state id = w.state id
    rw [show w₁ = _ from hw₁]
    rfl
  have hstates : w₂.states = w.states := by
    change w₁.states = w.states
    rw [show w₁ = _ from hw₁]
  change Widened id scope own w
    (w₂.modifyState id fun s ↦ { s with overrides := s.overrides.insert scope own })
  refine ⟨?_, ?_, ?_, Nat.le_trans hle (Nat.le_of_lt (hsize ▸ Nat.lt_succ_self _)),
    fun j hj ↦ ?_, fun j hj hlt ↦ ?_, fun name j hj ↦ ?_, ⟨hle, hsize ▸ Nat.lt_succ_self _⟩, fun name hj ↦ ?_,
    (w.separate_addRoles (.state id) names).injective⟩
  · change { w₁ with signals := w.signals, states := w.states } = w
    rw [show w₁ = _ from hw₁]
  · rw [World.size_modifyState, hstates]
  · rw [World.state_modifyState, if_pos ⟨rfl, hstates ▸ hid⟩, hstate]
  · change w₂.signal j = w.signal j
    rw [w₁.signal_addSignal, if_neg (Nat.ne_of_lt (Nat.lt_of_lt_of_le hj hle))]
    exact w.signal_addRoles (.state id) names hj
  · change w₂.signal j = _
    rw [w₁.signal_addSignal]
    split
    · rfl
    · rename_i hne
      exact w.signal_addRoles_new (.state id) names hj
        (Nat.lt_of_le_of_ne (Nat.le_of_lt_succ (Nat.lt_of_lt_of_eq hlt hsize)) hne)
  · obtain ⟨hj, hlt⟩ := hrange name j hj
    exact ⟨hj, Nat.lt_of_lt_of_le hlt (hsize ▸ Nat.le_succ _)⟩
  · exact Nat.lt_irrefl _ (hrange name _ hj).2

/-- A number is not less than what is left of it in 64 bits. -/
theorem toNat_ofNat_le (n : Nat) : (Int64.ofNat n).toInt.toNat ≤ n := by
  rw [Int64.toInt_ofNat', Int.bmod_def, show (Int64.size : Int) = 18446744073709551616 from rfl]
  split <;> omega

namespace Widened

variable (h : Widened id scope own w w')
include h

/-- A part of the world that has to do neither with signals nor with debug states. -/
theorem part_eq {α : Type} (part : World → α)
    (hpart : ∀ (w : World) signals states, part { w with signals := signals, states := states } = part w) :
    part w' = part w := by
  rw [← hpart w' w.signals w.states, h.rest_eq]

theorem get?_overrides (s : String) : (w'.state id).overrides.get? s =
    if scope = s then some own else (w.state id).overrides.get? s := by
  rw [h.state_eq, Std.TreeMap.get?_eq_getElem?, Std.TreeMap.getElem?_insert, Std.TreeMap.get?_eq_getElem?]
  exact if_congr Std.LawfulEqOrd.compare_eq_iff_eq rfl rfl

/-- A signal of the focus is one that was there before, or one that was made for the scope. -/
theorem slot?_cases {slot : Slot} {j : SignalId} (hj : (w'.state id).slot? slot = some j) :
    (w.state id).slot? slot = some j ∨
      w.signals.size ≤ j ∧ j < w'.signals.size ∧ ((∃ name, slot = .role (some scope) name ∧
        own.roles.get? name = some j) ∨ slot = .owned scope ∧ j = own.ownedFrom) := by
  have hroles : (w'.state id).roles = (w.state id).roles := by rw [h.state_eq]
  have hscopes : (w'.state id).scopes = (w.state id).scopes := by rw [h.state_eq]
  match slot with
  | .role none name =>
    change (w'.state id).roles.get? name = some j at hj
    rw [hroles] at hj
    exact .inl hj
  | .scopes =>
    change some (w'.state id).scopes = some j at hj
    rw [hscopes] at hj
    exact .inl hj
  | .role (some s) name =>
    simp only [State.slot?, State.rolesOf?, h.get?_overrides] at hj
    by_cases hs : scope = s
    · subst hs
      rw [if_pos rfl] at hj
      obtain ⟨hle, hlt⟩ := h.role_mem name j hj
      exact .inr ⟨hle, hlt, .inl ⟨name, rfl, hj⟩⟩
    · rw [if_neg hs] at hj
      exact .inl hj
  | .owned s =>
    simp only [State.slot?, h.get?_overrides] at hj
    by_cases hs : scope = s
    · subst hs
      rw [if_pos rfl] at hj
      obtain rfl := Option.some.inj hj
      exact .inr ⟨h.owned_mem.1, h.owned_mem.2, .inr ⟨rfl, rfl⟩⟩
    · rw [if_neg hs] at hj
      exact .inl hj

/-- A signal of the focus is as it was, or as it was made. -/
theorem part_slot (hw : Sound w id) {slot : Slot} {j : SignalId} (part : Signal → Prop)
    (hj : (w'.state id).slot? slot = some j) (hold : (w.state id).slot? slot = some j → part (w.signal j))
    (hnew : part ⟨.nil, .same, .state id, .empty, [], false, false⟩) : part (w'.signal j) := by
  rcases h.slot?_cases hj with hj | ⟨hle, hlt, -⟩
  · rw [h.signal_eq _ (hw.lt_size _ _ hj)]
    exact hold hj
  · rw [h.fresh _ hle hlt]
    exact hnew

theorem sound (hw : Sound w id) : Sound w' id := by
  refine ⟨h.states_size ▸ hw.state_lt, fun slot j hj ↦ ?_, fun slot j hj ↦ ?_, fun slot j hj ↦ ?_,
    fun slot slot' j hj hj' ↦ ?_⟩
  · rcases h.slot?_cases hj with hj | ⟨-, hlt, -⟩
    · exact Nat.lt_of_lt_of_le (hw.lt_size slot j hj) h.size_le
    · exact hlt
  · exact h.part_slot hw (·.disposed = false) hj (hw.undisposed slot j) rfl
  · exact h.part_slot hw (·.equality = .same) hj (hw.equality_eq slot j) rfl
  · rcases h.slot?_cases hj with hj | ⟨hle, -, hnew⟩ <;> rcases h.slot?_cases hj' with hj' | ⟨hle', -, hnew'⟩
    · exact hw.injective slot slot' j hj hj'
    · exact absurd (hw.lt_size slot j hj) (Nat.not_lt.mpr hle')
    · exact absurd (hw.lt_size slot' j hj') (Nat.not_lt.mpr hle)
    · rcases hnew with ⟨name, rfl, hname⟩ | ⟨rfl, hfirst⟩ <;>
        rcases hnew' with ⟨name', rfl, hname'⟩ | ⟨rfl, hfirst'⟩
      · rw [h.injective name name' j hname hname']
      · exact absurd hname (hfirst' ▸ h.role_ne name)
      · exact absurd hname' (hfirst ▸ h.role_ne name')
      · rfl

theorem ready (hw : Ready w id) : Ready w' id := by
  refine ⟨h.sound hw.toSound, ?_⟩
  have hdepth : w'.depth = w.depth := h.part_eq World.depth fun _ _ _ ↦ rfl
  have hflushing : w'.flushing = w.flushing := h.part_eq World.flushing fun _ _ _ ↦ rfl
  have hqueue : w'.queue = w.queue := h.part_eq World.queue fun _ _ _ ↦ rfl
  have heffects : w'.effects = w.effects := h.part_eq World.effects fun _ _ _ ↦ rfl
  rw [World.Busy, World.Idle, hdepth, hflushing, hqueue, heffects]
  refine hw.calm.imp_right fun hcalm ↦ ⟨hcalm.1, fun slot j hj ↦ ?_⟩
  exact h.part_slot hw.toSound (fun s ↦ s.watchers.entries = [] ∧ s.observers = []) hj (hcalm.2 slot j) ⟨rfl, rfl⟩

/-- A scope that holds nothing of its own reads the same as one that is not there. -/
theorem holding_eq (hw : Ready w id) (hnone : (w.state id).overrides.get? scope = none) (s : Option String) :
    holding w' id s = holding w id s := by
  have hvalue : ∀ j < w.signals.size, w'.valueOf j = w.valueOf j := fun j hj ↦
    congrArg Signal.value (h.signal_eq j hj)
  have hnil : ∀ j, w.signals.size ≤ j → j < w'.signals.size → w'.valueOf j = .nil := fun j hj hlt ↦
    congrArg Signal.value (h.fresh j hj hlt)
  cases s with
  | none =>
    have hroles : w'.focusedIn (w.state id).roles = w.focusedIn (w.state id).roles :=
      focusedIn_congr fun name j hj ↦ hvalue j (hw.lt_size (.role none name) j hj)
    have heq : (w'.state id).roles = (w.state id).roles := by rw [h.state_eq]
    rw [holding, heq, hroles, holding]
  | some s =>
    have hget := h.get?_overrides s
    by_cases hs : scope = s
    · subst hs
      rw [if_pos rfl] at hget
      rw [holding_of_some hget, holding_of_none hnone, hnil _ h.owned_mem.1 h.owned_mem.2]
      have hnothing : w'.focusedIn own.roles = fun _ ↦ none := funext fun name ↦ by
        rw [focusedIn]
        cases hj : own.roles.get? name with
        | none => rfl
        | some j => rw [Option.bind_some, hnil j (h.role_mem name j hj).1 (h.role_mem name j hj).2]; rfl
      rw [hnothing]
      rfl
    · rw [if_neg hs] at hget
      cases hown : (w.state id).overrides.get? s with
      | none => rw [holding_of_none hown, holding_of_none (hget.trans hown)]
      | some own' =>
        have hroles : w'.focusedIn own'.roles = w.focusedIn own'.roles := focusedIn_congr fun name j hj ↦
          hvalue j (hw.lt_size (.role (some s) name) j ((State.slot?_role hown name).trans hj))
        rw [holding_of_some hown, holding_of_some (hget.trans hown), hroles,
          hvalue _ (hw.lt_size (.owned s) _ (State.slot?_owned hown))]

end Widened

/-- A world with one more debug state, and whatever the stores are to hold by then. -/
def withState (w : World) (schema : Schema) (stores : Array Store) : World :=
  { (w.addState schema).2 with stores := stores }

/-- The focus of a new debug state is ready. -/
theorem ready_withState (w : World) (hcalm : w.Busy ∨ w.Idle) (schema : Schema) (stores : Array Store) :
    Ready (withState w schema stores) w.states.size := by
  let owner : Owner := .state w.states.size
  let w₀ : World := { w with stores := w.stores.push .empty }
  let w₁ := (w₀.addRoles owner schema.roles).2
  let roles := (w₀.addRoles owner schema.roles).1
  let w₂ := (w₁.addSignal (.int 0) .same owner).2
  let s : State := ⟨w.stores.size, schema, roles, ∅, w₁.signals.size, ∅, 0⟩
  obtain ⟨signals, hw₁⟩ := w₀.addRoles_eq owner schema.roles
  have hstates : w₁.states = w.states := by rw [show w₁ = _ from hw₁]
  let w' := withState w schema stores
  have hsignal : ∀ j, w'.signal j = w₂.signal j := fun _ ↦ rfl
  have hsize : w'.signals.size = w₁.signals.size + 1 := w₁.size_addSignal _ _ _
  have hstate : w'.state w.states.size = s := by
    change (w₁.states.push s).getD w.states.size default = s
    rw [hstates]
    simp
  have hrange := (w₀.owner_addRoles owner schema.roles).2
  have hslot : ∀ slot j, s.slot? slot = some j → (∃ name, slot = .role none name ∧ roles.get? name = some j) ∨
      slot = .scopes ∧ j = w₁.signals.size := fun slot j hj ↦ by
    match slot with
    | .role none name => exact .inl ⟨name, rfl, hj⟩
    | .scopes => exact .inr ⟨rfl, (Option.some.inj hj).symm⟩
    | .role (some scope) name => exact nomatch hj
    | .owned scope => exact nomatch hj
  have hquiet : ∀ slot j, s.slot? slot = some j → j < w'.signals.size ∧ (w'.signal j).disposed = false ∧
      (w'.signal j).equality = .same ∧ (w'.signal j).watchers.entries = [] ∧ (w'.signal j).observers = [] :=
    fun slot j hj ↦ by
      rw [hsignal, w₁.signal_addSignal, hsize]
      rcases hslot slot j hj with ⟨name, -, hname⟩ | ⟨-, rfl⟩
      · obtain ⟨hle, hlt⟩ := hrange name j hname
        rw [if_neg (Nat.ne_of_lt hlt), w₀.signal_addRoles_new owner schema.roles hle hlt]
        exact ⟨Nat.lt_succ_of_lt hlt, rfl, rfl, rfl, rfl⟩
      · rw [if_pos rfl]
        exact ⟨Nat.lt_succ_self _, rfl, rfl, rfl, rfl⟩
  have hwaits : w₁.depth = w.depth ∧ w₁.flushing = w.flushing ∧ w₁.queue = w.queue ∧ w₁.effects = w.effects := by
    rw [show w₁ = _ from hw₁]
    exact ⟨rfl, rfl, rfl, rfl⟩
  obtain ⟨hdepth, hflushing, hqueue, heffects⟩ := hwaits
  change Ready w' w.states.size
  rw [← hstate] at hslot hquiet
  refine ⟨⟨?_, fun slot j hj ↦ (hquiet slot j hj).1, fun slot j hj ↦ (hquiet slot j hj).2.1,
    fun slot j hj ↦ (hquiet slot j hj).2.2.1, fun slot slot' j hj hj' ↦ ?_⟩, ?_⟩
  · change w.states.size < (w₁.states.push s).size
    rw [hstates, Array.size_push]
    exact Nat.lt_succ_self _
  · rcases hslot slot j hj with ⟨name, rfl, hname⟩ | ⟨rfl, rfl⟩ <;>
      rcases hslot slot' _ hj' with ⟨name', rfl, hname'⟩ | ⟨rfl, hscopes⟩
    · rw [(w₀.separate_addRoles owner schema.roles).injective name name' j hname hname']
    · exact absurd (hrange name j hname).2 (Nat.not_lt.mpr (Nat.le_of_eq hscopes.symm))
    · exact absurd (hrange name' _ hname').2 (Nat.lt_irrefl _)
    · rfl
  · have hbusy : w'.Busy ↔ w.Busy := by
      change 0 < w₁.depth ∨ w₁.flushing = true ↔ _
      rw [hdepth, hflushing, World.Busy]
    have hidle : w'.Idle ↔ w.Idle := by
      change (w₁.depth = 0 → w₁.flushing = false → w₁.queue = [] ∧ w₁.effects = []) ↔ _
      rw [hdepth, hflushing, hqueue, heffects, World.Idle]
    rw [hbusy, hidle]
    exact hcalm.imp_right fun h ↦ ⟨h, fun slot j hj ↦ (hquiet slot j hj).2.2.2⟩

/-- A change of what is held in some scopes, or for all. -/
structure Moves (id : StateId) (some? : Option String → Prop) (w w' : World) : Prop where
  ready : Ready w' id
  stores_eq : w'.stores = w.stores
  store_eq : (w'.state id).store = (w.state id).store
  schema_eq : (w'.state id).schema = (w.state id).schema
  holding_eq : ∀ scope, ¬some? scope → holding w' id scope = holding w id scope

namespace Moves

variable {some? some?' : Option String → Prop} {w'' : World}

theorem refl (h : Ready w id) : Moves id some? w w :=
  ⟨h, rfl, rfl, rfl, fun _ _ ↦ rfl⟩

theorem mono (h : Moves id some? w w') (hsome : ∀ scope, some? scope → some?' scope) : Moves id some?' w w' :=
  ⟨h.ready, h.stores_eq, h.store_eq, h.schema_eq, fun scope hnot ↦
    h.holding_eq scope fun hs ↦ hnot (hsome scope hs)⟩

theorem trans (h : Moves id some? w w') (h' : Moves id some? w' w'') : Moves id some? w w'' :=
  ⟨h'.ready, h'.stores_eq.trans h.stores_eq, h'.store_eq.trans h.store_eq, h'.schema_eq.trans h.schema_eq,
    fun scope hnot ↦ (h'.holding_eq scope hnot).trans (h.holding_eq scope hnot)⟩

/-- To touch the signals of one scope changes what that scope holds. -/
theorem of_touched {P : SignalId → Prop} {target : Option String} (h : Ready w id) (ht : Touched P w w')
    (hP : ∀ j, P j → Of w id target j) : Moves id (· = target) w w' := by
  refine ⟨h.touched ht fun j hj ↦ (hP j hj).isSlot, ht.rewritten.stores_eq, by rw [ht.state_eq], by rw [ht.state_eq],
    fun scope hne ↦ holding_untouched ht fun j ⟨slot, hof, hj⟩ hp ↦ ?_⟩
  obtain ⟨slot', hof', hj'⟩ := hP j hp
  obtain rfl := h.injective slot slot' j hj hj'
  cases slot with
  | role s name => exact hne (hof.symm.trans hof')
  | owned s => exact hne (hof.symm.trans hof')
  | scopes => exact hof

/-- What can be focused at a URI stays the same. -/
theorem found?_eq (h : Moves id some? w w') (uri : Uri) : found? w' (w'.state id) uri = found? w (w.state id) uri := by
  have hstore : ∀ s, w'.store s = w.store s := fun s ↦ by rw [World.store, h.stores_eq, World.store]
  have hkind : ∀ e, w'.kindOf e = w.kindOf e := fun e ↦ by rw [kindOf, entity, hstore, kindOf, entity]
  simp only [found?, h.store_eq, h.schema_eq, World.find?, hstore, hkind]

end Moves

section Operations

variable [Dispatch] (hrounds : 0 < Dispatch.rounds)
include hrounds

/-- To ask for the roles of a scope changes nothing that is held anywhere. -/
theorem ends_override (h : Ready w id) (scope : String) : (override id scope).Ends w fun own w' ↦
    Moves id (fun _ ↦ False) w w' ∧ (w'.state id).overrides.get? scope = some own := by
  refine ends_get ?_
  cases hown : (w.state id).overrides.get? scope with
  | some own => exact ends_pure ⟨.refl h, hown⟩
  | none =>
    let own := (w.scopeRoles id scope).1
    let w₁ := (w.scopeRoles id scope).2
    have hwidened : Widened id scope own w w₁ := widened_scopeRoles h.state_lt scope
    have hready := hwidened.ready h
    have hget : (w₁.state id).overrides.get? scope = some own := by
      rw [hwidened.get?_overrides, if_pos rfl]
    refine Ends.bind (P := fun x w' ↦ x = own ∧ w' = w₁) (ends_modifyGet ⟨rfl, rfl⟩) ?_
    rintro _ _ ⟨rfl, rfl⟩
    have hslot : (w₁.state id).slot? .scopes = some (w₁.state id).scopes := rfl
    have hset := hready.ends_set hrounds ⟨.scopes, hslot⟩
      (.int ((w₁.valueOf (w₁.state id).scopes).asInt?.getD 0 + 1))
    refine ends_get (Ends.bind (P := fun _ w' ↦ Touched (· = (w₁.state id).scopes) w₁ w')
      (ends_get (hset.bind fun _ w' hw' ↦ ends_pure hw'.2.1)) fun _ w' ht ↦ ends_pure ⟨?_, ?_⟩)
    · refine ⟨hready.touched ht fun j hj ↦ hj ▸ ⟨.scopes, hslot⟩, ?_, ?_, ?_, fun s _ ↦ ?_⟩
      · exact ht.rewritten.stores_eq.trans (hwidened.part_eq World.stores fun _ _ _ ↦ rfl)
      · rw [ht.state_eq, hwidened.state_eq]
      · rw [ht.state_eq, hwidened.state_eq]
      · refine (holding_untouched ht fun j ⟨slot, hof, hj⟩ hscopes ↦ ?_).trans (hwidened.holding_eq h hown s)
        rw [hready.injective slot .scopes j hj (hscopes ▸ hslot)] at hof
        exact hof
    · rw [ht.state_eq]
      exact hget

/-- A claim leaves a scope the owner of what it owned, and makes it the owner from a depth on. -/
theorem ends_claim (h : Ready w id) (hown : (w.state id).overrides.get? scope = some own) (depth : Nat) :
    (claim own depth).Ends w fun _ w' ↦ Touched (· = own.ownedFrom) w w' ∧
      ∃ owner ≤ depth, (holding w' id (some scope)).ownedFrom = some owner ∧
        ∀ owner', (holding w id (some scope)).ownedFrom = some owner' → owner ≤ owner' := by
  let owned := (w.valueOf own.ownedFrom).asInt?
  let owner := owned.elim depth fun i ↦ min i.toInt.toNat depth
  have hset := h.ends_set hrounds ⟨.owned scope, State.slot?_owned hown⟩ (.int (Int64.ofNat owner))
  refine ends_get (hset.bind fun _ w' hw' ↦ ends_pure ⟨hw'.2.1, (Int64.ofNat owner).toInt.toNat, ?_, ?_, ?_⟩)
  · refine Nat.le_trans (toNat_ofNat_le owner) ?_
    change owned.elim depth _ ≤ depth
    cases owned with
    | none => exact Nat.le_refl _
    | some i => exact Nat.min_le_right _ _
  · rw [holding_of_some (hw'.2.1.state_eq id ▸ hown), hw'.2.2]
    rfl
  · intro owner' howner'
    rw [holding_of_some hown] at howner'
    obtain ⟨i, hi, rfl⟩ := Option.map_eq_some_iff.mp howner'
    refine Nat.le_trans (toNat_ofNat_le owner) ?_
    change owned.elim depth _ ≤ _
    rw [show owned = some i from hi]
    exact Nat.min_le_left _ _

/-- Roles that are cleared hold nothing, and what held nothing before still does. -/
theorem ends_clearAll {P : SignalId → Prop} {roles : Roles} (h : Ready w id) (hP : ∀ j, P j → IsSlot w id j)
    (hroles : ∀ name j, roles.get? name = some j → P j) (names : List String) :
    (clearAll roles names).Ends w fun _ w' ↦ Touched P w w' ∧
      ∀ name, name ∈ names ∨ w.focusedIn roles name = none → w'.focusedIn roles name = none := by
  induction names generalizing w with
  | nil => exact ends_pure ⟨.refl P w, fun name hname ↦ hname.resolve_left List.not_mem_nil⟩
  | cons name rest ih =>
    have hwrite := ends_write hrounds h (P := (roles.get? name = some ·)) (fun j hj ↦ hP j (hroles name j hj))
      (fun _ hj ↦ hj) none
    refine hwrite.bind fun _ w₁ h₁ ↦ ?_
    have htouched : Touched P w w₁ := h₁.1.mono fun j hj ↦ hroles name j hj
    have hcleared : ∀ name', name' = name ∨ w.focusedIn roles name' = none → w₁.focusedIn roles name' = none :=
      fun name' hname' ↦ by
        rw [focusedIn]
        cases hj : roles.get? name' with
        | none => rfl
        | some j =>
          by_cases hwritten : roles.get? name = some j
          · rw [Option.bind_some, h₁.2 j hwritten]
            rfl
          · have hne : name' ≠ name := fun heq ↦ hwritten (heq ▸ hj)
            have hnone := hname'.resolve_left hne
            rw [focusedIn, hj, Option.bind_some] at hnone
            rw [Option.bind_some, h₁.1.value_eq j hwritten, hnone]
    have hP₁ : ∀ j, P j → IsSlot w₁ id j := fun j hj ↦ by
      rw [IsSlot, htouched.state_eq]
      exact hP j hj
    refine (ih (h.touched htouched hP) hP₁).mono fun _ w' hw' ↦ ⟨htouched.trans hw'.1, fun name' hname' ↦ ?_⟩
    rw [List.mem_cons, or_right_comm, or_comm (b := name' ∈ rest)] at hname'
    exact hw'.2 name' (hname'.imp_right (hcleared name'))

end Operations

/-- The calls on a focus. -/
inductive Call
  | focus (uri : Uri)
  | unfocus (role : String)
  | focusIn (scope : String) (uri : Uri)
  | clearScope (scope : String)
  deriving DecidableEq

namespace Call

/-- The scope that a call is on, if it is not for all. -/
def target : Call → Option String
  | focus _ => none
  | unfocus _ => none
  | focusIn scope _ => some scope
  | clearScope scope => some scope

/-- Makes a call; only what is to be focused can be refused. -/
def perform [Dispatch] (id : StateId) : Call → Act Bool
  | focus uri => Focus.focus id uri
  | unfocus role => do
    Focus.unfocus id role
    return true
  | focusIn scope uri => Focus.focusIn id scope uri
  | clearScope scope => do
    Focus.clearScope id scope
    return true

end Call

/-- What a call has come to. -/
structure Done (id : StateId) (call : Call) (answer : Bool) (w w' : World) : Prop where
  moves : Moves id (· = call.target) w w'
  refused : answer = false → ∀ scope, holding w' id scope = holding w id scope
  claimed : ∀ scope uri e depth, call = .focusIn scope uri → answer = true →
    found? w (w.state id) uri = some (e, depth) → ∃ owner ≤ depth, (holding w' id (some scope)).ownedFrom = some owner
  kept : ∀ scope owner, call ≠ .clearScope scope → (holding w id (some scope)).ownedFrom = some owner →
    ∃ owner' ≤ owner, (holding w' id (some scope)).ownedFrom = some owner'
  cleared : ∀ scope, call = .clearScope scope → holding w' id (some scope) = .empty

/-- A call on what is held for all changes that alone. -/
theorem Done.of_moves {call : Call} {answer : Bool} (htarget : call.target = none)
    (hmoves : Moves id (· = none) w w') (hrefused : answer = false → w' = w) : Done id call answer w w' where
  moves := htarget ▸ hmoves
  refused hanswer scope := by rw [hrefused hanswer]
  claimed scope uri e depth hcall := by
    rw [hcall] at htarget
    exact absurd htarget (Option.some_ne_none scope)
  kept scope owner _ howner := by
    rw [← hmoves.holding_eq (some scope) (Option.some_ne_none scope)] at howner
    exact ⟨owner, Nat.le_refl _, howner⟩
  cleared scope hcall := by
    rw [hcall] at htarget
    exact absurd htarget (Option.some_ne_none scope)

section Calls

variable [Dispatch] (hrounds : 0 < Dispatch.rounds)
include hrounds

theorem ends_focus (h : Ready w id) (uri : Uri) :
    (Call.perform id (.focus uri)).Ends w fun answer w' ↦ Done id (.focus uri) answer w w' := by
  have happly := ends_apply hrounds h (P := Of w id none) (fun _ hj ↦ hj.isSlot)
    (fun name j hj ↦ ⟨.role none name, rfl, hj⟩) uri
  refine ends_get (happly.bind fun depth? w' hw' ↦ ends_pure ?_)
  exact .of_moves rfl (.of_touched h hw'.1 fun _ hj ↦ hj) fun hanswer ↦ hw'.2.2 (Option.not_isSome_iff_eq_none.mp
    (Bool.eq_false_iff.mp hanswer))

theorem ends_unfocus (h : Ready w id) (role : String) :
    (Call.perform id (.unfocus role)).Ends w fun answer w' ↦ Done id (.unfocus role) answer w w' := by
  have hwrite : (write (w.state id).roles role none).Ends w fun _ w' ↦ Touched (Of w id none) w w' ∧ _ :=
    ends_write hrounds h (fun _ hj ↦ hj.isSlot) (fun j hj ↦ ⟨.role none role, rfl, hj⟩) none
  refine Ends.bind (ends_get hwrite) fun _ w' hw' ↦ ends_pure ?_
  exact .of_moves rfl (.of_touched h hw'.1 fun _ hj ↦ hj) nofun

/-- What a scope focuses is its own from then on, and all that is below. -/
theorem ends_focusIn (h : Ready w id) (scope : String) (uri : Uri) :
    (Call.perform id (.focusIn scope uri)).Ends w fun answer w' ↦ Done id (.focusIn scope uri) answer w w' := by
  refine (ends_override hrounds h scope).bind fun own w₁ hw₁ ↦ ?_
  obtain ⟨hmoves₁, hown⟩ := hw₁
  have hready := hmoves₁.ready
  let P := Of w₁ id (some scope)
  have hslot : ∀ j, P j → IsSlot w₁ id j := fun _ hj ↦ hj.isSlot
  let R := fun j ↦ ∃ name, own.roles.get? name = some j
  have hroles : ∀ j, R j → P j := by
    rintro j ⟨name, hj⟩
    exact ⟨.role (some scope) name, rfl, (State.slot?_role hown name).trans hj⟩
  have howned : P own.ownedFrom := ⟨.owned scope, rfl, State.slot?_owned hown⟩
  have hapart : ¬R own.ownedFrom := by
    rintro ⟨name, hj⟩
    exact Slot.noConfusion (hready.injective (.role (some scope) name) (.owned scope) _
      ((State.slot?_role hown name).trans hj) (State.slot?_owned hown))
  -- What the batch that holds and claims leaves.
  let Q := fun (answer : Bool) (w' : World) ↦
    (answer = false → ∀ s, holding w' id s = holding w₁ id s) ∧
      (∀ e depth, answer = true → found? w₁ (w₁.state id) uri = some (e, depth) →
        ∃ owner ≤ depth, (holding w' id (some scope)).ownedFrom = some owner) ∧
      ∀ owner, (holding w₁ id (some scope)).ownedFrom = some owner →
        ∃ owner' ≤ owner, (holding w' id (some scope)).ownedFrom = some owner'
  refine (hready.ends_batch (Q := Q) hrounds hslot ?_ fun _ _ _ hQ ↦ hQ).mono fun answer w' hw' ↦ ?_
  · have hwithin := hready.within w₁.depth
    have happly := ends_apply hrounds hwithin (fun j hj ↦ hslot j (hroles j hj)) (fun name _ hj ↦ ⟨name, hj⟩) uri
    refine happly.bind fun depth? w₂ hw₂ ↦ ?_
    obtain ⟨ht, hfound, hsame⟩ := hw₂
    cases depth? with
    | none =>
      rw [hsame rfl]
      exact ends_pure ⟨.refl P _, fun _ _ ↦ rfl, fun _ _ h ↦ absurd h Bool.false_ne_true,
        fun owner howner ↦ ⟨owner, Nat.le_refl _, howner⟩⟩
    | some depth =>
      have hown₂ : (w₂.state id).overrides.get? scope = some own := ht.state_eq id ▸ hown
      have hstill : (holding w₂ id (some scope)).ownedFrom = (holding w₁ id (some scope)).ownedFrom := by
        rw [holding_of_some hown₂, holding_of_some hown, ht.value_eq _ hapart]
        rfl
      have hready₂ := hwithin.touched ht fun j hj ↦ hslot j (hroles j hj)
      refine (ends_claim hrounds hready₂ hown₂ depth).bind fun _ w₃ hw₃ ↦ ends_pure ?_
      obtain ⟨ht₃, owner, hle, howner, hmin⟩ := hw₃
      refine ⟨(ht.mono hroles).trans (ht₃.mono fun j hj ↦ hj ▸ howned), fun h ↦ absurd h.symm Bool.false_ne_true,
        fun e depth' _ hfind ↦ ?_, fun owner' howner' ↦ ⟨owner, hmin owner' (hstill.trans howner'), howner⟩⟩
      obtain rfl : depth = depth' := Option.some.inj (hfound.trans (congrArg (Option.map (·.2)) hfind))
      exact ⟨owner, hle, howner⟩
  obtain ⟨ht, hrefused, hclaimed, hkept⟩ := hw'
  have hsame : ∀ s, holding w₁ id s = holding w id s := fun s ↦ hmoves₁.holding_eq s not_false
  have hmoves := (hmoves₁.mono fun _ ↦ False.elim).trans (.of_touched hready ht fun _ hj ↦ hj)
  refine ⟨hmoves, fun hanswer s ↦ (hrefused hanswer s).trans (hsame s), fun s uri' e depth hcall hanswer hfind ↦ ?_,
    fun s owner _ howner ↦ ?_, fun _ hcall ↦ Call.noConfusion hcall⟩
  · obtain ⟨rfl, rfl⟩ := Call.focusIn.inj hcall
    exact hclaimed e depth hanswer ((hmoves₁.found?_eq uri).trans hfind)
  · by_cases hs : s = scope
    · subst hs
      exact hkept owner (hsame _ ▸ howner)
    · rw [← hmoves.holding_eq (some s) fun heq ↦ hs (Option.some.inj heq)] at howner
      exact ⟨owner, Nat.le_refl _, howner⟩

/-- A scope that was cleared holds nothing and owns nothing. -/
theorem ends_clearScope (h : Ready w id) (scope : String) :
    (Call.perform id (.clearScope scope)).Ends w fun answer w' ↦ Done id (.clearScope scope) answer w w' := by
  have hdone : ∀ w', Moves id (· = some scope) w w' → holding w' id (some scope) = .empty →
      Done id (.clearScope scope) true w w' := fun w' hmoves hempty ↦ by
    refine ⟨hmoves, fun h ↦ absurd h.symm Bool.false_ne_true, fun _ _ _ _ hcall ↦ Call.noConfusion hcall,
      fun s owner hne howner ↦ ?_, fun s hcall ↦ ?_⟩
    · have hs : some s ≠ some scope := fun heq ↦ hne (congrArg Call.clearScope (Option.some.inj heq).symm)
      rw [← hmoves.holding_eq (some s) hs] at howner
      exact ⟨owner, Nat.le_refl _, howner⟩
    · obtain rfl := Call.clearScope.inj hcall
      exact hempty
  refine Ends.bind (P := fun _ w' ↦ Done id (.clearScope scope) true w w') (ends_get ?_) fun _ _ hw' ↦ ends_pure hw'
  cases hown : (w.state id).overrides.get? scope with
  | none => exact ends_pure (hdone w (.refl h) (holding_of_none hown))
  | some own =>
    let P := Of w id (some scope)
    have hslot : ∀ j, P j → IsSlot w id j := fun _ hj ↦ hj.isSlot
    have hroles : ∀ name j, own.roles.get? name = some j → P j := fun name j hj ↦
      ⟨.role (some scope) name, rfl, (State.slot?_role hown name).trans hj⟩
    have howned : P own.ownedFrom := ⟨.owned scope, rfl, State.slot?_owned hown⟩
    have hbody : (do
        clearAll own.roles own.roles.keys
        let _ ← Signal.set own.ownedFrom .nil : Act Unit).Ends (w.setDepth (w.depth + 1)) fun _ w' ↦
        Touched P (w.setDepth (w.depth + 1)) w' ∧ holding w' id (some scope) = .empty := by
      have hwithin := h.within w.depth
      refine (ends_clearAll hrounds hwithin hslot hroles own.roles.keys).bind fun _ w₁ hw₁ ↦ ?_
      obtain ⟨ht₁, hcleared⟩ := hw₁
      have hown₁ : (w₁.state id).overrides.get? scope = some own := ht₁.state_eq id ▸ hown
      have hready₁ := hwithin.touched ht₁ hslot
      refine (hready₁.ends_set hrounds ⟨.owned scope, State.slot?_owned hown₁⟩ .nil).bind fun _ w₂ hw₂ ↦ ?_
      obtain ⟨-, ht₂, hnil⟩ := hw₂
      refine ends_pure ⟨ht₁.trans (ht₂.mono fun j hj ↦ hj ▸ howned), ?_⟩
      have hnothing : w₂.focusedIn own.roles = fun _ ↦ none := funext fun name ↦ by
        cases hj : own.roles.get? name with
        | none => rw [focusedIn, hj, Option.bind_none]
        | some j =>
          have hmem : name ∈ own.roles.keys := by
            rw [Std.TreeMap.mem_keys, Std.TreeMap.mem_iff_isSome_getElem?, ← Std.TreeMap.get?_eq_getElem?, hj]
            rfl
          have hne : j ≠ own.ownedFrom := fun heq ↦ Slot.noConfusion
            (h.injective (.role (some scope) name) (.owned scope) j ((State.slot?_role hown name).trans hj)
              (heq ▸ State.slot?_owned hown))
          have hcleared := hcleared name (.inl hmem)
          rw [focusedIn, hj, Option.bind_some] at hcleared ⊢
          rw [ht₂.value_eq j hne, hcleared]
      rw [holding_of_some (ht₂.state_eq id ▸ hown₁), hnothing, hnil]
      rfl
    exact (h.ends_batch hrounds hslot hbody fun _ _ _ hQ ↦ hQ).mono fun _ w' hw' ↦
      hdone w' (.of_touched h hw'.1 fun _ hj ↦ hj) hw'.2

/-- Every call comes to an end. -/
theorem Call.ends_perform (h : Ready w id) (call : Call) :
    (call.perform id).Ends w fun answer w' ↦ Done id call answer w w' := by
  cases call with
  | focus uri => exact ends_focus hrounds h uri
  | unfocus role => exact ends_unfocus hrounds h role
  | focusIn scope uri => exact ends_focusIn hrounds h scope uri
  | clearScope scope => exact ends_clearScope hrounds h scope

end Calls

end LiveGraph.Focus
