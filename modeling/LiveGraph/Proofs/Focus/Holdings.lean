import LiveGraph.Proofs.Focus.Propagation
import LiveGraph.Proofs.Focus.Slots
import LiveGraph.Proofs.Reactive.Within
import LiveGraph.Proofs.Store.Start

/-!
# What a focus holds

For all, and in each scope, a focus holds something in some of its roles, and a scope may own them from a depth
on. Every operation changes what one scope holds, or what is held for all, and nothing else; what is read in a
scope is what it holds, or what is held for all where it holds nothing and owns nothing.

## The roles of a new debug state

New roles are read and written independently of each other, and there is one for each name of the schema,
so that what is said of focusing holds of a session from its start.
-/

namespace LiveGraph

namespace World

theorem signal_addRoles (w : World) (owner : Owner) (names : List String) {id : SignalId}
    (hid : id < w.signals.size) : (w.addRoles owner names).2.signal id = w.signal id := by
  induction names generalizing w with
  | nil => rfl
  | cons name rest ih =>
    have hid' : id < (w.addSignal .nil .same owner).2.signals.size := by
      rw [size_addSignal]
      exact Nat.lt_succ_of_lt hid
    calc
      (w.addRoles owner (name :: rest)).2.signal id = (w.addSignal .nil .same owner).2.signal id := ih _ hid'
      _ = w.signal id := by rw [signal_addSignal, if_neg (Nat.ne_of_lt hid)]

/-- The signals that are added hold nothing, and nobody is told of them. -/
theorem signal_addRoles_new (w : World) (owner : Owner) (names : List String) {j : SignalId}
    (hle : w.signals.size ≤ j) (hlt : j < (w.addRoles owner names).2.signals.size) :
    (w.addRoles owner names).2.signal j = ⟨.nil, .same, owner, .empty, [], false, false⟩ := by
  induction names generalizing w with
  | nil => exact absurd hlt (Nat.not_lt.mpr hle)
  | cons name rest ih =>
    have hsize : (w.addSignal .nil .same owner).2.signals.size = w.signals.size + 1 := w.size_addSignal _ _ _
    rcases Nat.eq_or_lt_of_le hle with rfl | hlater
    · have hfirst := w.signal_addSignal .nil .same owner w.signals.size
      rw [if_pos rfl] at hfirst
      exact (signal_addRoles _ owner rest (hsize ▸ Nat.lt_succ_self _)).trans hfirst
    · exact ih _ (hsize ▸ hlater) hlt

/-- A new role has the signal that was added first, unless the name is listed once more. -/
theorem get?_addRoles_cons (w : World) (owner : Owner) (name : String) (rest : List String) (role : String) :
    (w.addRoles owner (name :: rest)).1.get? role =
      if name = role ∧ role ∉ ((w.addSignal .nil .same owner).2.addRoles owner rest).1 then
        some w.signals.size
      else ((w.addSignal .nil .same owner).2.addRoles owner rest).1.get? role := by
  change (((w.addSignal .nil .same owner).2.addRoles owner rest).1.insertIfNew name w.signals.size).get? role = _
  rw [Std.TreeMap.get?_eq_getElem?, Std.TreeMap.getElem?_insertIfNew, Std.TreeMap.get?_eq_getElem?]
  simp only [Std.LawfulEqOrd.compare_eq_iff_eq]
  by_cases hname : name = role
  · subst hname
    rfl
  · simp [hname]

/-- There is a new role under each name. -/
theorem exists_get?_addRoles (w : World) (owner : Owner) (names : List String) :
    ∀ role ∈ names, ∃ id, (w.addRoles owner names).1.get? role = some id := by
  induction names generalizing w with
  | nil => exact fun role hrole ↦ absurd hrole List.not_mem_nil
  | cons name rest ih =>
    intro role hrole
    rw [get?_addRoles_cons]
    split
    · exact ⟨_, rfl⟩
    · rename_i hold
      rcases List.mem_cons.mp hrole with rfl | hmem
      · have hthere : role ∈ ((w.addSignal .nil .same owner).2.addRoles owner rest).1 := by
          by_contra hnot
          exact hold ⟨rfl, hnot⟩
        rw [Std.TreeMap.get?_eq_getElem?]
        exact Option.isSome_iff_exists.mp (Std.TreeMap.isSome_getElem?_iff_mem.mpr hthere)
      · exact ih _ role hmem

/-- A new role has the signal that was added first, or it is one of those that were added after it. -/
theorem get?_addRoles_cons_cases {w : World} {owner : Owner} {name : String} {rest : List String} {role : String}
    {id : SignalId} (h : (w.addRoles owner (name :: rest)).1.get? role = some id) :
    role = name ∧ id = w.signals.size ∨
      ((w.addSignal .nil .same owner).2.addRoles owner rest).1.get? role = some id := by
  rw [get?_addRoles_cons] at h
  split at h
  · rename_i hnew
    exact .inl ⟨hnew.1.symm, (Option.some.inj h).symm⟩
  · exact .inr h

/-- New roles are read and written independently of each other. -/
theorem separate_addRoles (w : World) (owner : Owner) (names : List String) :
    (w.addRoles owner names).2.Separate (w.addRoles owner names).1 := by
  induction names generalizing w with
  | nil =>
    have hnone : ∀ name id, (∅ : Roles).get? name ≠ some id := fun name id h ↦ by
      rw [Std.TreeMap.get?_eq_getElem?, Std.TreeMap.getElem?_emptyc] at h
      exact Option.some_ne_none id h.symm
    exact ⟨fun name id h ↦ absurd h (hnone name id), fun name id h ↦ absurd h (hnone name id),
      fun name id h ↦ absurd h (hnone name id), fun name _ id h ↦ absurd h (hnone name id)⟩
  | cons name rest ih =>
    let w₁ := (w.addSignal .nil .same owner).2
    have hrest : (w₁.addRoles owner rest).2.Separate (w₁.addRoles owner rest).1 := ih w₁
    have hsize : w.signals.size < w₁.signals.size := by
      rw [size_addSignal]
      exact Nat.lt_succ_self _
    have hnew : (w₁.addRoles owner rest).2.signal w.signals.size =
        ⟨.nil, .same, owner, .empty, [], false, false⟩ := by
      rw [w₁.signal_addRoles owner rest hsize, signal_addSignal, if_pos rfl]
    -- What was added first is older than all the rest, so it is none of them.
    have holder : ∀ {role id}, (w₁.addRoles owner rest).1.get? role = some id → id ≠ w.signals.size :=
      fun {role id} hid hold ↦ by
        have hle := ((w₁.owner_addRoles owner rest).2 role id hid).1
        exact absurd hle (hold ▸ Nat.not_le.mpr hsize)
    change (w₁.addRoles owner rest).2.Separate (w.addRoles owner (name :: rest)).1
    refine ⟨fun role id hid ↦ ?_, fun role id hid ↦ ?_, fun role id hid ↦ ?_, fun role role' id hid hid' ↦ ?_⟩
    · rcases get?_addRoles_cons_cases hid with ⟨-, rfl⟩ | hid
      · exact Nat.lt_of_lt_of_le hsize (Aloof.addRoles w₁ owner rest).signals_le
      · exact hrest.lt_size role id hid
    · rcases get?_addRoles_cons_cases hid with ⟨-, rfl⟩ | hid
      · rw [hnew]
      · exact hrest.undisposed role id hid
    · rcases get?_addRoles_cons_cases hid with ⟨-, rfl⟩ | hid
      · rw [hnew]
      · exact hrest.equality_eq role id hid
    · rcases get?_addRoles_cons_cases hid with ⟨hrole, hfirst⟩ | hid
      · rcases get?_addRoles_cons_cases hid' with ⟨hrole', -⟩ | hid'
        · exact hrole.trans hrole'.symm
        · exact absurd hfirst (holder hid')
      · rcases get?_addRoles_cons_cases hid' with ⟨-, hfirst⟩ | hid'
        · exact absurd hfirst (holder hid)
        · exact hrest.injective role role' id hid hid'

end World

/-- A session starts with separate roles, one for each of its schema. -/
theorem separate_start (schema : Schema) (keepsFirst : Bool) :
    (Session.start schema keepsFirst).Separate ((Session.start schema keepsFirst).state 0).roles ∧
      ∀ role ∈ schema.roles, ∃ id, ((Session.start schema keepsFirst).state 0).roles.get? role = some id := by
  let w₀ : World := { World.empty with stores := #[.empty] }
  have hseparate := w₀.separate_addRoles (.state 0) schema.roles
  obtain ⟨scopes, hstates⟩ := start_states schema keepsFirst
  have hroles : ((Session.start schema keepsFirst).state 0).roles = (w₀.addRoles (.state 0) schema.roles).1 := by
    rw [World.state, hstates]
    rfl
  have hsignal : ∀ id < (w₀.addRoles (.state 0) schema.roles).2.signals.size,
      (Session.start schema keepsFirst).signal id = (w₀.addRoles (.state 0) schema.roles).2.signal id :=
    fun id hid ↦ by
      change (((w₀.addRoles (.state 0) schema.roles).2.addSignal (.int 0) .same (.state 0)).2).signal id = _
      rw [World.signal_addSignal, if_neg (Nat.ne_of_lt hid)]
  have hsize : (Session.start schema keepsFirst).signals.size =
      (w₀.addRoles (.state 0) schema.roles).2.signals.size + 1 :=
    World.size_addSignal (w₀.addRoles (.state 0) schema.roles).2 (.int 0) .same (.state 0)
  rw [hroles]
  refine ⟨⟨fun role id hid ↦ ?_, fun role id hid ↦ ?_, fun role id hid ↦ ?_, hseparate.injective⟩,
    w₀.exists_get?_addRoles (.state 0) schema.roles⟩
  · rw [hsize]
    exact Nat.lt_succ_of_lt (hseparate.lt_size role id hid)
  · rw [hsignal id (hseparate.lt_size role id hid)]
    exact hseparate.undisposed role id hid
  · rw [hsignal id (hseparate.lt_size role id hid)]
    exact hseparate.equality_eq role id hid

end LiveGraph

/-! ## Holdings -/

namespace LiveGraph.Focus

open World Act

/-- What is held in the roles of a scope, or for all, and from which depth on the scope owns them. -/
@[ext]
structure Holding where
  roles : String → Option Uri
  ownedFrom : Option Nat

namespace Holding

/-- Nothing is held and nothing owned. -/
def empty : Holding := ⟨fun _ ↦ none, none⟩

def owns (h : Holding) (depth : Option Nat) : Bool :=
  h.ownedFrom.any fun owner ↦ depth.any (owner ≤ ·)

end Holding

/-- What the focus of a debug state holds in a scope, or for all. -/
def holding (w : World) (id : StateId) : Option String → Holding
  | none => ⟨w.focusedIn (w.state id).roles, none⟩
  | some scope =>
    match (w.state id).overrides.get? scope with
    | none => .empty
    | some own => ⟨w.focusedIn own.roles, (w.valueOf own.ownedFrom).asInt?.map (·.toInt.toNat)⟩

theorem holding_of_none {w : World} {id : StateId} {scope : String}
    (h : (w.state id).overrides.get? scope = none) : holding w id (some scope) = .empty := by
  simp only [holding, h]

theorem holding_of_some {w : World} {id : StateId} {scope : String} {own : Override}
    (h : (w.state id).overrides.get? scope = some own) : holding w id (some scope) =
      ⟨w.focusedIn own.roles, (w.valueOf own.ownedFrom).asInt?.map (·.toInt.toNat)⟩ := by
  simp only [holding, h]

section Reading

variable (w : World) (id : StateId) (role : String)

theorem value_readIn (roles : Roles) : (readIn roles role).value w = w.focusedIn roles role := by
  rw [readIn, focusedIn]
  cases roles.get? role <;> rfl

theorem value_read_none : (read id none role).value w = (holding w id none).roles role :=
  value_readIn w role (w.state id).roles

/-- Whether a scope owns a role is read off from what it holds. -/
theorem value_owns (own : Override) (depth : Option Nat) : (owns own depth).value w =
    Holding.owns ⟨w.focusedIn own.roles, (w.valueOf own.ownedFrom).asInt?.map (·.toInt.toNat)⟩ depth := by
  have howned : (Reads.signal own.ownedFrom).value w = w.valueOf own.ownedFrom := rfl
  rw [owns, Reads.value_bind, howned, Holding.owns]
  cases (w.valueOf own.ownedFrom).asInt? <;> cases depth <;> rfl

/-- A scope reads what it holds, or else, unless it owns the role, what is held for all. -/
theorem value_read_some (scope : String) : (read id (some scope) role).value w =
    ((holding w id (some scope)).roles role).or
      (if (holding w id (some scope)).owns ((w.state id).schema.roleDepth role) then none
      else (holding w id none).roles role) := by
  have hpeek : (Reads.peek (·.state id)).value w = w.state id := rfl
  rw [read, Reads.value_bind, hpeek]
  cases hown : (w.state id).overrides.get? scope with
  | none =>
    simp only [Reads.value_bind, hown]
    rw [holding_of_none hown, value_readIn]
    rfl
  | some own =>
    simp only [Reads.value_bind, hown, value_readIn]
    rw [holding_of_some hown]
    dsimp only
    cases w.focusedIn own.roles role with
    | some uri => rfl
    | none =>
      simp only [Reads.value_bind, value_owns, Option.none_or]
      split
      · rfl
      · exact value_readIn w role (w.state id).roles

end Reading

variable {w w' : World} {id : StateId} {P : SignalId → Prop} {roles : Roles} {target : Option String}

theorem focusedIn_congr (h : ∀ name j, roles.get? name = some j → w'.valueOf j = w.valueOf j) :
    w'.focusedIn roles = w.focusedIn roles := by
  funext name
  rw [focusedIn, focusedIn]
  cases hj : roles.get? name with
  | none => rfl
  | some j => rw [Option.bind_some, Option.bind_some, h name j hj]

/-- What a scope holds is the same where none of its signals was touched. -/
theorem holding_untouched (ht : Touched P w w') {scope : Option String} (hP : ∀ j, Of w id scope j → ¬P j) :
    holding w' id scope = holding w id scope := by
  cases scope with
  | none =>
    have hroles : w'.focusedIn (w.state id).roles = w.focusedIn (w.state id).roles :=
      focusedIn_congr fun name j hj ↦ ht.value_eq j (hP j ⟨.role none name, rfl, hj⟩)
    rw [holding, ht.state_eq, hroles, holding]
  | some scope =>
    cases hown : (w.state id).overrides.get? scope with
    | none => rw [holding_of_none hown, holding_of_none (ht.state_eq id ▸ hown)]
    | some own =>
      have hroles : w'.focusedIn own.roles = w.focusedIn own.roles := focusedIn_congr fun name j hj ↦
        ht.value_eq j (hP j ⟨.role (some scope) name, rfl, (State.slot?_role hown name).trans hj⟩)
      have howned : w'.valueOf own.ownedFrom = w.valueOf own.ownedFrom :=
        ht.value_eq _ (hP _ ⟨.owned scope, rfl, State.slot?_owned hown⟩)
      rw [holding_of_some hown, holding_of_some (ht.state_eq id ▸ hown), hroles, howned]

section Operations

variable [Dispatch] (hrounds : 0 < Dispatch.rounds)
include hrounds

/-- A role that is there holds what is written to it. -/
theorem ends_write (h : Ready w id) (hP : ∀ j, P j → IsSlot w id j) {role : String}
    (hrole : ∀ j, roles.get? role = some j → P j) (uri : Option Uri) :
    (write roles role uri).Ends w fun _ w' ↦
      Touched P w w' ∧ ∀ j, roles.get? role = some j → w'.valueOf j = .ofUri? uri := by
  rw [write]
  cases hid : roles.get? role with
  | none => exact ends_pure ⟨.refl P w, fun j hj ↦ absurd hj.symm (Option.some_ne_none j)⟩
  | some id =>
    have hset := h.ends_set hrounds (hP id (hrole id hid)) (.ofUri? uri)
    refine hset.bind fun _ w' hw' ↦ ends_pure ⟨hw'.2.1.mono fun j hj ↦ hj ▸ hrole id hid, fun j hj ↦ ?_⟩
    exact Option.some.inj hj ▸ hw'.2.2

theorem ends_writeAbove (h : Ready w id) (hP : ∀ j, P j → IsSlot w id j)
    (hroles : ∀ name j, roles.get? name = some j → P j) (schema : Schema) (depth : Nat)
    (parents : List EntityRef) :
    (writeAbove schema roles depth parents).Ends w fun _ w' ↦ Touched P w w' := by
  induction parents generalizing w with
  | nil => exact ends_pure (.refl P w)
  | cons e rest ih =>
    have hrest : ∀ w₁, Touched P w w₁ → (writeAbove schema roles depth rest).Ends w₁ fun _ w' ↦ Touched P w w' :=
      fun w₁ h₁ ↦ by
        refine (ih (h.touched h₁ hP) fun j hj ↦ ?_).mono fun _ _ h₂ ↦ h₁.trans h₂
        rw [IsSlot, h₁.state_eq]
        exact hP j hj
    refine ends_get ?_
    dsimp only
    split
    · exact (ends_write hrounds h hP (hroles _) _).bind fun _ w₁ h₁ ↦ hrest w₁ h₁.1
    · exact hrest w (.refl P w)

theorem ends_clearBelow (h : Ready w id) (hP : ∀ j, P j → IsSlot w id j)
    (hroles : ∀ name j, roles.get? name = some j → P j) (schema : Schema) (e : EntityRef)
    (names : List String) :
    (clearBelow schema roles e names).Ends w fun _ w' ↦ Touched P w w' := by
  induction names generalizing w with
  | nil => exact ends_pure (.refl P w)
  | cons name rest ih =>
    have hrest : ∀ w₁, Touched P w w₁ → (clearBelow schema roles e rest).Ends w₁ fun _ w' ↦ Touched P w w' :=
      fun w₁ h₁ ↦ by
        refine (ih (h.touched h₁ hP) fun j hj ↦ ?_).mono fun _ _ h₂ ↦ h₁.trans h₂
        rw [IsSlot, h₁.state_eq]
        exact hP j hj
    refine ends_get ?_
    cases w.focusedIn roles name with
    | none => exact hrest w (.refl P w)
    | some uri =>
      dsimp only
      split
      · exact (ends_write hrounds h hP (hroles _) _).bind fun _ w₁ h₁ ↦ hrest w₁ h₁.1
      · exact hrest w (.refl P w)

/-- What is focused in some roles gives its depth, and where nothing can be focused nothing is changed. -/
theorem ends_apply (h : Ready w id) (hP : ∀ j, P j → IsSlot w id j)
    (hroles : ∀ name j, roles.get? name = some j → P j) (uri : Uri) :
    (apply id roles uri).Ends w fun depth? w' ↦
      Touched P w w' ∧ depth? = (found? w (w.state id) uri).map (·.2) ∧ (depth? = none → w' = w) := by
  refine ends_get ?_
  cases hfind : w.find? (w.state id).store uri with
  | none =>
    simp only [hfind]
    exact ends_pure ⟨.refl P w, by simp [found?, hfind], fun _ ↦ rfl⟩
  | some e =>
    simp only [hfind]
    cases hdepth : (w.state id).schema.roleDepth (w.kindOf e) with
    | none => exact ends_pure ⟨.refl P w, by simp [found?, hfind, hdepth], fun _ ↦ rfl⟩
    | some depth =>
      have hwithin := h.within w.depth
      have hbody : (do
          write roles (w.kindOf e) (some uri)
          writeAbove (w.state id).schema roles depth
            (((w.state id).schema.ancestors (w.state id).store e).value w)
          clearBelow (w.state id).schema roles e ((w.state id).schema.roles.drop (depth + 1)) : Act Unit).Ends
          (w.setDepth (w.depth + 1)) fun _ w' ↦ Touched P (w.setDepth (w.depth + 1)) w' ∧ True := by
        refine (ends_write hrounds hwithin hP (hroles _) _).bind fun _ w₁ h₁ ↦ ?_
        have hP₁ : ∀ j, P j → IsSlot w₁ id j := fun j hj ↦ by
          rw [IsSlot, h₁.1.state_eq]
          exact hP j hj
        refine (ends_writeAbove hrounds (hwithin.touched h₁.1 hP) hP₁ hroles _ _ _).bind fun _ w₂ h₂ ↦ ?_
        have htouched := h₁.1.trans h₂
        have hP₂ : ∀ j, P j → IsSlot w₂ id j := fun j hj ↦ by
          rw [IsSlot, htouched.state_eq]
          exact hP j hj
        exact (ends_clearBelow hrounds (hwithin.touched htouched hP) hP₂ hroles _ _ _).mono
          fun _ _ h₃ ↦ ⟨htouched.trans h₃, trivial⟩
      refine (h.ends_batch hrounds hP hbody fun _ _ _ h ↦ h).bind fun _ w' hw' ↦
        ends_pure ⟨hw'.1, ?_, fun hnone ↦ absurd hnone (Option.some_ne_none depth)⟩
      simp [found?, hfind, hdepth]

theorem ends_forgetIn (h : Ready w id) (hP : ∀ j, P j → IsSlot w id j)
    (hroles : ∀ name j, roles.get? name = some j → P j) (uri : Uri) (names : List String) :
    (forgetIn uri roles names).Ends w fun _ w' ↦ Touched P w w' := by
  induction names generalizing w with
  | nil => exact ends_pure (.refl P w)
  | cons name rest ih =>
    have hrest : ∀ w₁, Touched P w w₁ → (forgetIn uri roles rest).Ends w₁ fun _ w' ↦ Touched P w w' :=
      fun w₁ h₁ ↦ by
        refine (ih (h.touched h₁ hP) fun j hj ↦ ?_).mono fun _ _ h₂ ↦ h₁.trans h₂
        rw [IsSlot, h₁.state_eq]
        exact hP j hj
    refine ends_get ?_
    split
    · exact (ends_write hrounds h hP (hroles name) none).bind fun _ w₁ h₁ ↦ hrest w₁ h₁.1
    · exact hrest w (.refl P w)

theorem ends_forgetInAll (h : Ready w id) (uri : Uri) (all : List Roles)
    (hall : ∀ roles ∈ all, ∀ name j, roles.get? name = some j → IsSlot w id j) :
    (forgetInAll uri all).Ends w fun _ w' ↦ Touched (IsSlot w id) w w' := by
  induction all generalizing w with
  | nil => exact ends_pure (.refl _ w)
  | cons roles rest ih =>
    have hforget := ends_forgetIn hrounds h (fun _ hj ↦ hj) (hall roles List.mem_cons_self) uri roles.keys
    refine hforget.bind fun _ w₁ h₁ ↦ ?_
    have hslot : IsSlot w₁ id = IsSlot w id := by
      funext j
      rw [IsSlot, h₁.state_eq, IsSlot]
    refine (ih (h.touched h₁ fun _ hj ↦ hj) fun roles' hmem name j hj ↦ ?_).mono fun _ _ h₂ ↦ ?_
    · rw [hslot]
      exact hall roles' (List.mem_cons_of_mem roles hmem) name j hj
    · rw [hslot] at h₂
      exact h₁.trans h₂

/-- The roles that hold something are cleared, wherever they do. -/
theorem ends_forget (h : Ready w id) (uri : Uri) :
    (forget id uri).Ends w fun _ w' ↦ Touched (IsSlot w id) w w' := by
  refine ends_get ?_
  have hall : ∀ roles ∈ (w.state id).roles :: (w.state id).overrides.values.map (·.roles),
      ∀ name j, roles.get? name = some j → IsSlot w id j := fun roles hmem name j hj ↦ by
    rcases List.mem_cons.mp hmem with rfl | hmem
    · exact ⟨.role none name, hj⟩
    · obtain ⟨own, hown, rfl⟩ := List.mem_map.mp hmem
      obtain ⟨scope, hscope⟩ := (Tables.mem_values _ own).mp hown
      exact ⟨.role (some scope) name, (State.slot?_role hscope name).trans hj⟩
  have hbody := ends_forgetInAll hrounds (h.within w.depth) uri _ hall
  exact (h.ends_batch (Q := fun _ _ ↦ True) hrounds (fun _ hj ↦ hj) (hbody.mono fun _ _ ht ↦ ⟨ht, trivial⟩)
    fun _ _ _ ht ↦ ht).mono fun _ _ hw' ↦ hw'.1

end Operations

end LiveGraph.Focus
