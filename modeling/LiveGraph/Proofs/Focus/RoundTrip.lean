import LiveGraph.Proofs.Focus.Keeping
import LiveGraph.Resolution

/-!
# What was focused is found again

Where focusing an entity succeeds, the anchor of its role stands for that entity: for all, or in the scope it was
focused in. There is one exception. The roles listed below its own are cleared unless their entities lead to it;
no entity leads to itself, so a role that is listed twice is cleared as soon as it was written.
-/

namespace LiveGraph

/-- No entity is among the parents from itself on. -/
theorem Schema.start_notMem_chain (schema : Schema) (w : World) (s : StoreId) (start : EntityRef) (n : Nat)
    (e : EntityRef) (met : List EntityRef) (hmet : start ∉ met) :
    start ∉ (schema.chain s start n e met).value w := by
  induction n generalizing e met with
  | zero => exact hmet
  | succ n ih =>
    rw [Schema.chain, Reads.value_bind]
    cases (schema.parent s e).value w with
    | none => exact hmet
    | some parent =>
      simp only [Reads.value_bind]
      split
      · exact hmet
      · rename_i hgoes
        refine ih parent (met ++ [parent]) fun hmem ↦ ?_
        rcases List.mem_append.mp hmem with hmem | hmem
        · exact hmet hmem
        · obtain rfl := List.mem_singleton.mp hmem
          refine hgoes ?_
          have hsame : (Reads.peek (·.sameEntity start start)).value w = true := by
            change w.sameEntity start start = true
            simp [World.sameEntity]
          rw [hsame, Bool.true_or]

namespace Focus

open World Act

variable {w₀ w w' : World} {id : StateId} {roles : Roles} {schema : Schema}

/-- What is found at a URI does not lead to itself. -/
theorem leadsTo_self {e : EntityRef} {uri : Uri} (hfind : w.find? e.store uri = some e) :
    (leadsTo schema e uri).value w = false := by
  have hlookup : (Store.lookup e.store uri).value w = some e := hfind
  rw [leadsTo, Reads.value_bind, hlookup]
  have hout := schema.start_notMem_chain w e.store e Schema.maxSteps e [] List.not_mem_nil
  simpa [Schema.ancestors] using hout

/-- The roles of a debug state, and those of its scopes, are all that the schema lists. -/
def Complete (w : World) (id : StateId) : Prop :=
  ∀ scope roles, (w.state id).rolesOf? scope = some roles →
    ∀ role ∈ (w.state id).schema.roles, ∃ j, roles.get? role = some j

theorem Complete.congr (h : Complete w id) (hstate : w'.state id = w.state id) : Complete w' id := by
  rw [Complete, hstate]
  exact h

/-- The roles a scope is given are all that the schema lists. -/
theorem Complete.scopeRoles (h : Complete w id) (hready : Ready w id) (scope : String) :
    Complete (w.scopeRoles id scope).2 id := by
  have hwidened := widened_scopeRoles hready.state_lt scope
  intro scope' roles hroles role hrole
  rw [hwidened.state_eq] at hrole
  cases scope' with
  | none =>
    have hsame : ((w.scopeRoles id scope).2.state id).rolesOf? none = (w.state id).rolesOf? none := by
      rw [hwidened.state_eq]
      rfl
    exact h none roles (hsame ▸ hroles) role hrole
  | some name =>
    rw [State.rolesOf?, hwidened.get?_overrides] at hroles
    split at hroles
    · obtain rfl := Option.some.inj hroles
      exact w.exists_get?_addRoles (.state id) (w.state id).schema.roles role hrole
    · exact h (some name) roles hroles role hrole

/-- A new debug state has the first free store and the roles its schema lists, which hold nothing. -/
theorem state_withState (w : World) (schema : Schema) (stores : Array Store) :
    ∃ (roles : Roles) (scopes : SignalId),
      (withState w schema stores).state w.states.size = ⟨w.stores.size, schema, roles, ∅, scopes, ∅, 0⟩ ∧
      (∀ role ∈ schema.roles, ∃ j, roles.get? role = some j) ∧
      ∀ name j, roles.get? name = some j → (withState w schema stores).valueOf j = .nil := by
  let owner : Owner := .state w.states.size
  let w₀ : World := { w with stores := w.stores.push .empty }
  let w₁ := (w₀.addRoles owner schema.roles).2
  obtain ⟨signals, hw₁⟩ := w₀.addRoles_eq owner schema.roles
  have hstates : w₁.states = w.states := by rw [show w₁ = _ from hw₁]
  refine ⟨(w₀.addRoles owner schema.roles).1, w₁.signals.size, ?_, w₀.exists_get?_addRoles owner schema.roles,
    fun name j hj ↦ ?_⟩
  · change (w₁.states.push _).getD w.states.size default = _
    rw [hstates]
    simp only [Array.getD_eq_getD_getElem?, Array.getElem?_push_size, Option.getD_some]
    rfl
  · obtain ⟨hle, hlt⟩ := (w₀.owner_addRoles owner schema.roles).2 name j hj
    change ((w₁.addSignal (.int 0) .same owner).2.signal j).value = .nil
    rw [w₁.signal_addSignal, if_neg (Nat.ne_of_lt hlt), w₀.signal_addRoles_new owner schema.roles hle hlt]

theorem complete_withState (w : World) (schema : Schema) (stores : Array Store) :
    Complete (withState w schema stores) w.states.size := by
  obtain ⟨_, scopes, hstate, hlisted, -⟩ := state_withState w schema stores
  intro scope roles hroles role hrole
  rw [hstate] at hroles hrole
  cases scope with
  | none =>
    obtain rfl := Option.some.inj hroles
    exact hlisted role hrole
  | some name => exact nomatch hroles

/-- A complete focus over the store and schema there were at first, which can be written while so many batches stay
open. If that is none of them, and no flush is under way, then nothing is left to be done, and nobody is told of a
write. -/
structure Poised (id : StateId) (d : Nat) (w₀ w : World) : Prop extends Sound w id where
  le_depth : d ≤ w.depth
  stores_eq : w.stores = w₀.stores
  store_eq : (w.state id).store = (w₀.state id).store
  schema_eq : (w.state id).schema = (w₀.state id).schema
  complete : Complete w id
  calm : 0 < d ∨ w.flushing = true ∨
    w.queue = [] ∧ w.effects = [] ∧ ∀ slot j, (w.state id).slot? slot = some j → w.Unheard j

theorem Ready.poised (h : Ready w id) (hcomplete : Complete w id) : Poised id w.depth w w := by
  refine ⟨h.toSound, Nat.le_refl _, rfl, rfl, rfl, hcomplete, ?_⟩
  rcases h.calm with (hdepth | hflushing) | ⟨hidle, hunheard⟩
  · exact .inl hdepth
  · exact .inr (.inl hflushing)
  · rcases Nat.eq_zero_or_pos w.depth with hdepth | hdepth
    · cases hflushing : w.flushing with
      | true => exact .inr (.inl rfl)
      | false => exact .inr (.inr ⟨(hidle hdepth hflushing).1, (hidle hdepth hflushing).2, hunheard⟩)
    · exact .inl hdepth

namespace Poised

variable {d : Nat} (h : Poised id d w₀ w)
include h

theorem ready : Ready w id := by
  refine ⟨h.toSound, ?_⟩
  rcases h.calm with hdepth | hflushing | ⟨hqueue, heffects, hunheard⟩
  · exact .inl (.inl (Nat.lt_of_lt_of_le hdepth h.le_depth))
  · exact .inl (.inr hflushing)
  · exact .inr ⟨fun _ _ ↦ ⟨hqueue, heffects⟩, hunheard⟩

theorem setDepth {n : Nat} (hle : d ≤ n) : Poised id d w₀ (w.setDepth n) :=
  ⟨⟨h.state_lt, h.lt_size, h.undisposed, h.equality_eq, h.injective⟩, hle, h.stores_eq, h.store_eq,
    h.schema_eq, h.complete.congr rfl, h.calm⟩

theorem touched {P : SignalId → Prop} (ht : Touched P w w') (hP : ∀ j, P j → IsSlot w id j) : Poised id d w₀ w' := by
  refine ⟨h.toSound.touched ht, ht.rewritten.depth_eq ▸ h.le_depth, ht.rewritten.stores_eq.trans h.stores_eq,
    ht.state_eq id ▸ h.store_eq, ht.state_eq id ▸ h.schema_eq, h.complete.congr (ht.state_eq id), ?_⟩
  refine h.calm.imp_right (Or.imp (ht.rewritten.flushing_eq.trans ·) fun ⟨hqueue, heffects, hunheard⟩ ↦ ?_)
  obtain ⟨hqueue', heffects'⟩ := ht.waits_eq fun j hj ↦ (hP j hj).elim fun slot hslot ↦ hunheard slot j hslot
  refine ⟨hqueue'.trans hqueue, heffects'.trans heffects, fun slot j hj ↦ ?_⟩
  rw [ht.state_eq] at hj
  exact ht.unheard (hunheard slot j hj)

theorem scopeRoles (scope : String) : Poised id d w₀ (w.scopeRoles id scope).2 := by
  have hwidened := widened_scopeRoles h.state_lt scope
  refine ⟨hwidened.sound h.toSound, ?_, (hwidened.part_eq World.stores fun _ _ _ ↦ rfl).trans h.stores_eq, ?_, ?_,
    h.complete.scopeRoles h.ready scope, ?_⟩
  · exact (hwidened.part_eq World.depth fun _ _ _ ↦ rfl).symm ▸ h.le_depth
  · rw [hwidened.state_eq]
    exact h.store_eq
  · rw [hwidened.state_eq]
    exact h.schema_eq
  · rw [hwidened.part_eq World.flushing fun _ _ _ ↦ rfl, hwidened.part_eq World.queue fun _ _ _ ↦ rfl,
      hwidened.part_eq World.effects fun _ _ _ ↦ rfl]
    refine h.calm.imp_right (Or.imp_right (And.imp_right (And.imp_right fun hunheard slot j hj ↦ ?_)))
    exact hwidened.part_slot h.toSound (fun s ↦ s.watchers.entries = [] ∧ s.observers = []) hj
      (hunheard slot j) ⟨rfl, rfl⟩

end Poised

section Run

variable [Dispatch] (hrounds : 0 < Dispatch.rounds)
include hrounds

theorem Ready.ends_advance (h : Ready w id) {j : SignalId} (hj : IsSlot w id j) :
    (Signal.advance j).Ends w fun _ w' ↦ Touched (· = j) w w' :=
  ends_get ((h.ends_set hrounds hj _).bind fun _ _ hw' ↦ ends_pure hw'.2.1)

theorem keeps_poised (id : StateId) (d : Nat) (w₀ : World) : Keeps id d (Poised id d w₀) where
  le_depth h := h.le_depth
  set v h hj := (h.ready.ends_set hrounds hj v).mono fun _ w' ⟨_, ht, _⟩ ↦
    ⟨h.touched ht fun i hi ↦ hi ▸ hj, ht.state_eq id, ht.rewritten.depth_eq⟩
  override {w} scope h := ends_override_of h.state_lt h scope <| by
    have hpoised := h.scopeRoles scope
    have hslot : IsSlot (w.scopeRoles id scope).2 id ((w.scopeRoles id scope).2.state id).scopes := ⟨.scopes, rfl⟩
    exact (hpoised.ready.ends_advance hrounds hslot).mono fun _ w₂ ht ↦
      ⟨hpoised.touched ht fun j hj ↦ hj ▸ hslot, ht.state_eq id, ht.rewritten.depth_eq⟩
  enter h := h.setDepth (Nat.le_succ_of_le h.le_depth)
  leave {w} h hopen := by
    have hleft := h.setDepth (Nat.le_sub_one_of_lt hopen)
    exact ⟨(), _, hleft.ready.flush hrounds, .refl hleft⟩

end Run

/-! ## The role of what was focused -/

theorem slot?_of_rolesOf? {scope : Option String} (hroles : (w.state id).rolesOf? scope = some roles) (name : String) :
    (w.state id).slot? (.role scope name) = roles.get? name := by
  rw [State.slot?, hroles, Option.bind_some]

theorem Sound.separate (h : Sound w id) {scope : Option String} (hroles : (w.state id).rolesOf? scope = some roles) :
    w.Separate roles :=
  have hslot := slot?_of_rolesOf? hroles
  ⟨fun name j hj ↦ h.lt_size (.role scope name) j ((hslot name).trans hj),
    fun name j hj ↦ h.undisposed (.role scope name) j ((hslot name).trans hj),
    fun name j hj ↦ h.equality_eq (.role scope name) j ((hslot name).trans hj),
    fun name name' j hj hj' ↦ (Slot.role.inj (h.injective (.role scope name) (.role scope name') j
      ((hslot name).trans hj) ((hslot name').trans hj'))).2⟩

/-- What the role of an entity holds once it was focused: nothing if the role is listed again below. -/
def focusedAgain? (schema : Schema) (depth : Nat) (kind : String) (uri : Uri) : Option Uri :=
  if kind ∈ schema.roles.drop (depth + 1) then none else some uri

/-- Within the batch of a focus the role of the entity is written first; no parent replaces it, and it is cleared
again where it is listed below itself. -/
theorem ends_move_own [Dispatch] {e : EntityRef} {depth : Nat} (h : w.Separate roles) (hdepth : 0 < w.depth)
    (hroles : ∀ role ∈ schema.roles, ∃ id, roles.get? role = some id)
    (he : schema.roleDepth (w.kindOf e) = some depth) {uri : Uri} (hfind : w.find? e.store uri = some e)
    (parents : List EntityRef) :
    (do
      write roles (w.kindOf e) (some uri)
      writeAbove schema roles depth parents
      clearBelow schema roles e (schema.roles.drop (depth + 1)) : Act Unit).Ends w fun _ w' ↦
      w'.focusedIn roles (w.kindOf e) = focusedAgain? schema depth (w.kindOf e) uri := by
  obtain ⟨id, hid⟩ := hroles _ (mem_roles_of_roleDepth he)
  obtain ⟨w₁, hwrite, hown⟩ := write_run h hdepth hid (some uri)
  obtain ⟨w₂, hmove, habove⟩ := writeAbove_run depth hown.separate
    (hown.rewritten.depth_eq.symm ▸ hdepth) hroles parents
  have hrewritten₂ := hown.rewritten.trans habove.rewritten
  obtain ⟨w₃, hclear, hbelow⟩ := clearBelow_run schema e habove.separate
    (hrewritten₂.depth_eq.symm ▸ hdepth) (schema.roles.drop (depth + 1))
  have hholds : w₂.focusedIn roles (w.kindOf e) = some uri := by
    rw [habove.focusedIn_eq, readsAbove, he, hown.focusedIn_eq, if_pos rfl]
    simp
  have hleads : (leadsTo schema e uri).value w₂ = false :=
    (Reads.OfStores.leadsTo schema e uri w w₂ hrewritten₂.stores_eq).trans (leadsTo_self hfind)
  have hcleared : w₃.focusedIn roles (w.kindOf e) = focusedAgain? schema depth (w.kindOf e) uri := by
    rw [hbelow.focusedIn_eq, readsBelow, hholds, focusedAgain?]
    simp [Option.filter_some, hleads]
  exact ⟨(), w₃, by simp only [Act.bind_run, hwrite, hmove, hclear], hcleared⟩

theorem found?_eq_some_iff {s : State} {uri : Uri} {e : EntityRef} {depth : Nat} :
    found? w s uri = some (e, depth) ↔
      w.find? s.store uri = some e ∧ s.schema.roleDepth (w.kindOf e) = some depth := by
  simp only [found?, Option.bind_eq_bind, Option.bind_eq_some_iff, Option.pure_def, Option.some.injEq,
    Prod.mk.injEq]
  constructor
  · rintro ⟨e', hfind, depth', hdepth, rfl, rfl⟩
    exact ⟨hfind, hdepth⟩
  · rintro ⟨hfind, hdepth⟩
    exact ⟨e, hfind, depth, hdepth, rfl, rfl⟩

section Focusing

variable [Dispatch] (hrounds : 0 < Dispatch.rounds)
include hrounds

/-- What is known within a batch is known after it, if it has nothing to do with how many are open. -/
theorem Poised.ends_batch {α : Type} {a : Act α} {d : Nat} {Q : α → World → Prop} (h : Poised id d w₀ w)
    (hbody : a.Ends (w.setDepth (w.depth + 1)) fun x w' ↦
      Kept id (Poised id d w₀) (w.setDepth (w.depth + 1)) w' ∧ Q x w')
    (hQ : ∀ x w' n, Q x w' → Q x (w'.setDepth n)) :
    (batch a).Ends w fun x w' ↦ Kept id (Poised id d w₀) w w' ∧ Q x w' := by
  refine hbody.batch fun x w₁ ⟨hkept, hx⟩ ↦ ?_
  have hback : w₁.depth - 1 = w.depth := by rw [hkept.depth_eq, depth_setDepth, Nat.add_sub_cancel]
  rw [hback]
  have hleft : Poised id d w₀ (w₁.setDepth w.depth) := hkept.holds.setDepth h.le_depth
  exact ⟨(), _, hleft.ready.flush hrounds, ⟨hleft, hkept.state_eq, rfl⟩, hQ x w₁ w.depth hx⟩

/-- What the writes of a focus lead to, is so after it; and nothing is changed where nothing can be focused. -/
theorem ends_apply_of {d : Nat} {scope : Option String} (h : Poised id d w₀ w)
    (hroles : (w.state id).rolesOf? scope = some roles) (uri : Uri) {Q : EntityRef → Nat → World → Prop}
    (hmove : ∀ e depth, found? w (w.state id) uri = some (e, depth) → (do
      write roles (w.kindOf e) (some uri)
      writeAbove (w.state id).schema roles depth (((w.state id).schema.ancestors (w.state id).store e).value w)
      clearBelow (w.state id).schema roles e ((w.state id).schema.roles.drop (depth + 1)) : Act Unit).Ends
        (w.setDepth (w.depth + 1)) fun _ w' ↦ Q e depth w')
    (hQ : ∀ e depth w' n, Q e depth w' → Q e depth (w'.setDepth n)) :
    (apply id roles uri).Ends w fun depth? w' ↦ Kept id (Poised id d w₀) w w' ∧ (depth? = none → w' = w) ∧
      ∀ depth, depth? = some depth → ∃ e, found? w (w.state id) uri = some (e, depth) ∧ Q e depth w' := by
  have hkeeps := keeps_poised hrounds id d w₀
  refine ends_get ?_
  cases hfind : w.find? (w.state id).store uri with
  | none =>
    simp only [hfind]
    exact ends_pure ⟨.refl h, fun _ ↦ rfl, nofun⟩
  | some e =>
    simp only [hfind]
    cases hdepth : (w.state id).schema.roleDepth (w.kindOf e) with
    | none => exact ends_pure ⟨.refl h, fun _ ↦ rfl, nofun⟩
    | some depth =>
      have hfound : found? w (w.state id) uri = some (e, depth) := found?_eq_some_iff.mpr ⟨hfind, hdepth⟩
      have hslot : ∀ name j, roles.get? name = some j → IsSlot w id j := fun name j hj ↦
        ⟨.role scope name, (slot?_of_rolesOf? hroles name).trans hj⟩
      have hkept := hkeeps.ends_move (hkeeps.enter h) hslot (w.state id).schema e (w.kindOf e) uri depth
        (((w.state id).schema.ancestors (w.state id).store e).value w) ((w.state id).schema.roles.drop (depth + 1))
      refine (h.ends_batch hrounds (hkept.and (hmove e depth hfound)) fun _ w' n ↦ hQ e depth w' n).bind
        fun _ w₁ ⟨hkept, hQ⟩ ↦ ends_pure ⟨hkept, nofun, ?_⟩
      rintro _ ⟨⟩
      exact ⟨e, hfound, hQ⟩

/-- After a focus the role of the entity holds what it was left with. -/
theorem ends_apply_own {d : Nat} {scope : Option String} (h : Poised id d w₀ w)
    (hroles : (w.state id).rolesOf? scope = some roles) (uri : Uri) :
    (apply id roles uri).Ends w fun depth? w' ↦ Kept id (Poised id d w₀) w w' ∧
      ∀ depth, depth? = some depth → ∃ e, found? w (w.state id) uri = some (e, depth) ∧
        w'.focusedIn roles (w.kindOf e) = focusedAgain? (w.state id).schema depth (w.kindOf e) uri := by
  refine (ends_apply_of hrounds h hroles uri (Q := fun e depth w' ↦ w'.focusedIn roles (w.kindOf e) =
    focusedAgain? (w.state id).schema depth (w.kindOf e) uri) (fun e depth hfound ↦ ?_) fun _ _ _ _ hQ ↦ hQ).mono
      fun _ _ ⟨hkept, _, hown⟩ ↦ ⟨hkept, hown⟩
  obtain ⟨hfind, hdepth⟩ := found?_eq_some_iff.mp hfound
  have hfind' : w.find? e.store uri = some e := (live_of_find? hfind).1 ▸ hfind
  exact ends_move_own (w := w.setDepth (w.depth + 1)) ((h.toSound.separate hroles).setDepth _) (Nat.succ_pos _)
    (h.complete scope roles hroles) hdepth hfind' _

end Focusing

/-- The call that focuses what is at a URI, for all or for one scope. -/
def Call.focusing : Option String → Uri → Call
  | none, uri => .focus uri
  | some scope, uri => .focusIn scope uri

section Focusing

variable [Dispatch] (hrounds : 0 < Dispatch.rounds)
include hrounds

theorem ends_focusing_own {d : Nat} (h : Poised id d w₀ w) (target : Option String) (uri : Uri) :
    ((Call.focusing target uri).perform id).Ends w fun answer w' ↦ answer = true →
      ∃ e depth, found? w (w.state id) uri = some (e, depth) ∧ (holding w' id target).roles (w.kindOf e) =
        focusedAgain? (w.state id).schema depth (w.kindOf e) uri := by
  cases target with
  | none =>
    have hroles : (w.state id).rolesOf? none = some (w.state id).roles := rfl
    refine ends_get ((ends_apply_own hrounds h hroles uri).bind fun depth? w' happlied ↦
      ends_pure fun hanswer ↦ ?_)
    obtain ⟨hkept, hown⟩ := happlied
    obtain ⟨depth, rfl⟩ := Option.isSome_iff_exists.mp hanswer
    obtain ⟨e, hfound, hholds⟩ := hown depth rfl
    exact ⟨e, depth, hfound, by rw [holding, hkept.state_eq]; exact hholds⟩
  | some scope =>
    have hkeeps := keeps_poised hrounds id d w₀
    refine ((hkeeps.override scope h).and (ends_override hrounds h.ready scope)).bind fun own w₁ hw₁ ↦ ?_
    obtain ⟨⟨h₁, hown, -⟩, hmoves, -⟩ := hw₁
    have hroles : (w₁.state id).rolesOf? (some scope) = some own.roles := by
      rw [State.rolesOf?, hown, Option.map_some]
    -- What the scope owns is no role of it, so that a claim does not change what it holds.
    have hapart : ∀ name, own.roles.get? name ≠ some own.ownedFrom := fun name hj ↦ by
      have hslot : Slot.role (some scope) name = .owned scope := h₁.injective _ _ own.ownedFrom
        ((slot?_of_rolesOf? hroles name).trans hj) (State.slot?_owned hown)
      cases hslot
    refine (h₁.ends_batch hrounds (Q := fun answer w' ↦ answer = true → ∃ e depth,
      found? w (w.state id) uri = some (e, depth) ∧ w'.focusedIn own.roles (w.kindOf e) =
        focusedAgain? (w.state id).schema depth (w.kindOf e) uri) ?_ fun _ _ _ hQ ↦ hQ).mono
      fun answer w' hdone hanswer ↦ ?_
    · have hkind : ∀ e, w₁.kindOf e = w.kindOf e := fun e ↦ by
        rw [kindOf, entity, World.store, hmoves.stores_eq, kindOf, entity, World.store]
      refine (ends_apply_own hrounds (hkeeps.enter h₁) hroles uri).bind fun depth? w₂ hdone₂ ↦ ?_
      obtain ⟨hkept₂, happlied⟩ := hdone₂
      cases depth? with
      | none => exact ends_pure ⟨hkept₂, fun hanswer ↦ Bool.noConfusion hanswer⟩
      | some depth =>
        obtain ⟨e, hfound, hholds⟩ := happlied depth rfl
        have hown₂ : (w₂.state id).overrides.get? scope = some own := hkept₂.state_eq ▸ hown
        refine (ends_claim hrounds hkept₂.holds.ready hown₂ depth).bind fun _ w₃ hclaim ↦ ?_
        obtain ⟨ht, -⟩ := hclaim
        refine ends_pure ⟨?_, fun _ ↦ ?_⟩
        · have hclaimed : Poised id d w₀ w₃ := hkept₂.holds.touched ht fun j hj ↦
            hj ▸ ⟨.owned scope, State.slot?_owned hown₂⟩
          exact hkept₂.trans ⟨hclaimed, ht.state_eq id, ht.rewritten.depth_eq⟩
        · refine ⟨e, depth, (hmoves.found?_eq uri).symm.trans hfound, ?_⟩
          rw [← hkind, ← hmoves.schema_eq, focusedIn_congr fun name j hj ↦
            ht.value_eq j fun heq ↦ hapart name (hj.trans (congrArg some heq))]
          exact hholds
    · obtain ⟨hkept, hholds⟩ := hdone
      obtain ⟨e, depth, hfound, hholds⟩ := hholds hanswer
      refine ⟨e, depth, hfound, ?_⟩
      rw [holding_of_some (hkept.state_eq ▸ hown)]
      exact hholds

end Focusing

/-! ## Anchors -/

theorem value_readEntity (w : World) (id : StateId) (scope : Option String) (role : String) :
    (readEntity id scope role).value w = ((read id scope role).value w).bind (w.find? (w.state id).store) := by
  rw [readEntity, Reads.value_bind]
  cases (read id scope role).value w <;> rfl

/-- Without an offset an anchor stands for what its role holds. -/
theorem value_anchored_zero (w : World) (id : StateId) (scope : Option String) (role : String) :
    (anchored id scope role 0).value w = (readEntity id scope role).value w := by
  rw [anchored, Reads.value_bind]
  cases (readEntity id scope role).value w <;> rfl

/-- A scope reads its own of what it has focused, and so does everybody of what was focused for all. -/
theorem Done.value_read {target : Option String} {uri : Uri} {e : EntityRef} {depth : Nat}
    (h : Done id (.focusing target uri) true w w') (hfound : found? w (w.state id) uri = some (e, depth))
    (hdepth : (w.state id).schema.roleDepth (w.kindOf e) = some depth) :
    (read id target (w.kindOf e)).value w' = (holding w' id target).roles (w.kindOf e) := by
  cases target with
  | none => exact value_read_none w' id (w.kindOf e)
  | some scope =>
    obtain ⟨owner, hle, howner⟩ := h.claimed scope uri e depth rfl rfl hfound
    exact value_read_of_owned (h.moves.schema_eq ▸ hdepth) hle howner

section Anchors

variable [Dispatch] (hrounds : 0 < Dispatch.rounds)
include hrounds

/-- The anchor of its role stands for what was focused, unless the role is listed again below. -/
theorem ends_focusing {d : Nat} (h : Poised id d w₀ w) (target : Option String) (uri : Uri) :
    ((Call.focusing target uri).perform id).Ends w fun answer w' ↦ answer = true →
      ∃ e depth, found? w (w.state id) uri = some (e, depth) ∧ (anchored id target (w.kindOf e) 0).value w' =
        if w.kindOf e ∈ (w.state id).schema.roles.drop (depth + 1) then none else some e := by
  refine ((ends_focusing_own hrounds h target uri).and (Call.ends_perform hrounds h.ready _)).mono
    fun answer w' ⟨hown, hdone⟩ hanswer ↦ ?_
  subst hanswer
  obtain ⟨e, depth, hfound, hholds⟩ := hown rfl
  obtain ⟨hfind, hdepth⟩ := found?_eq_some_iff.mp hfound
  have hfind' : w'.find? (w'.state id).store uri = some e := by
    rw [hdone.moves.store_eq, find?, World.store, hdone.moves.stores_eq]
    exact hfind
  refine ⟨e, depth, hfound, ?_⟩
  rw [value_anchored_zero, value_readEntity, hdone.value_read hfound hdepth, hholds, focusedAgain?]
  split
  · rfl
  · exact hfind'

/-- Calls on a new focus leave its schema and its store as they were. -/
theorem ends_course_poised (hcalm : w.Busy ∨ w.Idle) (schema : Schema) (stores : Array Store) (calls : List Call) :
    (course w.states.size calls).Ends (withState w schema stores) fun _ w₁ ↦
      Poised w.states.size (withState w schema stores).depth (withState w schema stores) w₁ ∧
        (w₁.state w.states.size).schema = schema ∧ (w₁.state w.states.size).store = w.stores.size := by
  have hpoised := (ready_withState w hcalm schema stores).poised (complete_withState w schema stores)
  refine ((keeps_poised hrounds _ _ _).ends_course hpoised calls).mono fun _ w₁ ⟨h₁, _⟩ ↦ ⟨h₁, ?_⟩
  obtain ⟨_, _, hstate, -⟩ := state_withState w schema stores
  rw [h₁.schema_eq, h₁.store_eq, hstate]
  exact ⟨rfl, rfl⟩

/-- Over any store and schema and after any calls: where focusing an entity succeeds, for all or in a scope, the
anchor of its role stands for that entity there, unless the role is listed again below. -/
theorem focusing_anchored (hcalm : w.Busy ∨ w.Idle) (schema : Schema) (stores : Array Store) (calls : List Call)
    (target : Option String) (uri : Uri) :
    (course w.states.size calls).Ends (withState w schema stores) fun _ w₁ ↦
      ((Call.focusing target uri).perform w.states.size).Ends w₁ fun answer w₂ ↦ answer = true →
        ∃ e depth, found? w₁ (w₁.state w.states.size) uri = some (e, depth) ∧
          (anchored w.states.size target (w₁.kindOf e) 0).value w₂ =
            if w₁.kindOf e ∈ schema.roles.drop (depth + 1) then none else some e :=
  (ends_course_poised hrounds hcalm schema stores calls).mono fun _ _ ⟨h₁, hschema, _⟩ ↦
    hschema ▸ ends_focusing hrounds h₁ target uri

/-- So the anchor stands for what was focused wherever no role is listed twice. -/
theorem focusing_anchored_of_nodup (hcalm : w.Busy ∨ w.Idle) (schema : Schema) (hnodup : schema.roles.Nodup)
    (stores : Array Store) (calls : List Call) (target : Option String) (uri : Uri) :
    (course w.states.size calls).Ends (withState w schema stores) fun _ w₁ ↦
      ((Call.focusing target uri).perform w.states.size).Ends w₁ fun answer w₂ ↦ answer = true →
        ∃ e depth, found? w₁ (w₁.state w.states.size) uri = some (e, depth) ∧
          (anchored w.states.size target (w₁.kindOf e) 0).value w₂ = some e := by
  refine (ends_course_poised hrounds hcalm schema stores calls).mono fun _ w₁ ⟨h₁, hschema, _⟩ ↦ ?_
  refine (ends_focusing hrounds h₁ target uri).mono fun answer w₂ hanchored hanswer ↦ ?_
  obtain ⟨e, depth, hfound, hvalue⟩ := hanchored hanswer
  refine ⟨e, depth, hfound, ?_⟩
  obtain ⟨-, hdepth⟩ := found?_eq_some_iff.mp hfound
  have hkept : w₁.kindOf e ∉ (w₁.state w.states.size).schema.roles.drop (depth + 1) := by
    rw [mem_drop_roles_iff (hschema ▸ hnodup) hdepth]
    omega
  rw [hvalue, if_neg hkept]

/-- A role that is listed twice is cleared by the focus that wrote it, which succeeds nevertheless. -/
example : (match @course (dispatch 2) 0 [.focus "s"]
      (withState .empty ⟨"parent", ["session", "thread", "session"], ∅, ∅, ∅⟩ threadStores) with
    | .ok past w => some (past.map (·.answer), (anchored 0 none "session" 0).value w)
    | .error _ _ => none) = some ([true], none) := by decide +kernel

end Anchors

end Focus

end LiveGraph
