import LiveGraph.Focus.Basic
import LiveGraph.Proofs.Reactive.Within
import Mathlib.Data.List.Nodup

/-!
# What focusing does

To focus an entity is one change of the roles, with a flush after it. The role of the entity reads it; each
role above reads the outermost of the parents that fill it, or what it read before if none does; and each role
below is kept where its entity has the focused one among its parents, and cleared otherwise. Where no two
parents fill one role, the outermost is the nearest.
-/

namespace LiveGraph

/-- What is read depends on the stores alone. -/
def Reads.OfStores {α : Type} (r : Reads α) : Prop :=
  ∀ w w' : World, w'.stores = w.stores → r.value w' = r.value w

namespace Reads.OfStores

variable {α β : Type}

theorem pure (a : α) : (Pure.pure a : Reads α).OfStores := fun _ _ _ ↦ rfl

theorem bind {r : Reads α} {f : α → Reads β} (hr : r.OfStores) (hf : ∀ a, (f a).OfStores) :
    (r >>= f).OfStores := fun w w' h ↦ by
  rw [value_bind, value_bind, hr w w' h, hf _ w w' h]

theorem uriOf (e : EntityRef) : (Reads.peek (·.uriOf e)).OfStores := fun w w' h ↦ by
  change w'.uriOf e = w.uriOf e
  rw [World.uriOf, World.entity, World.store, h]
  rfl

theorem lookup (s : StoreId) (uri : Uri) : (Store.lookup s uri).OfStores := fun w w' h ↦ by
  change w'.find? s uri = w.find? s uri
  rw [World.find?, World.store, h]
  rfl

theorem targets (s : StoreId) (uri : Uri) (kind : String) : (Store.targets s uri kind).OfStores :=
  fun w w' h ↦ by
    change (w'.store s).edges.targets uri kind = (w.store s).edges.targets uri kind
    rw [World.store, h]
    rfl

theorem sameEntity (a b : EntityRef) : (Reads.peek (·.sameEntity a b)).OfStores := fun w w' h ↦ by
  have huri : ∀ e, w'.uriOf e = w.uriOf e := fun e ↦ uriOf e w w' h
  change w'.sameEntity a b = w.sameEntity a b
  rw [World.sameEntity, huri, huri, World.sameEntity]

theorem parent (schema : Schema) (s : StoreId) (e : EntityRef) : (schema.parent s e).OfStores := by
  apply bind (uriOf e)
  intro uri
  apply bind (targets s uri schema.parentEdge)
  intro uris
  cases uris with
  | nil => exact pure none
  | cons uri rest => exact lookup s uri

/-- The parents of an entity are found in its store. -/
theorem chain (schema : Schema) (s : StoreId) (start : EntityRef) (n : Nat) (e : EntityRef)
    (met : List EntityRef) : (schema.chain s start n e met).OfStores := by
  induction n generalizing e met with
  | zero => exact pure met
  | succ n ih =>
    apply bind (parent schema s e)
    intro found
    cases found with
    | none => exact pure met
    | some parent =>
      apply bind (sameEntity parent start)
      intro same
      split
      · exact pure met
      · exact ih parent _

theorem leadsTo (schema : Schema) (e : EntityRef) (uri : Uri) : (Focus.leadsTo schema e uri).OfStores := by
  apply bind (lookup e.store uri)
  intro found
  cases found with
  | none => exact pure false
  | some below => exact bind (chain schema e.store below Schema.maxSteps below []) fun _ ↦ pure _

end Reads.OfStores

/-- All parents from an entity on are found again in a store where what is found is what was looked for. -/
theorem Schema.find?_of_mem_chain {w : World} {s : StoreId} (huri : ∀ uri e, w.find? s uri = some e → w.uriOf e = uri)
    (schema : Schema) (start : EntityRef) (n : Nat) (e : EntityRef) (met : List EntityRef)
    (hmet : ∀ a ∈ met, w.find? s (w.uriOf a) = some a) :
    ∀ a ∈ (schema.chain s start n e met).value w, w.find? s (w.uriOf a) = some a := by
  induction n generalizing e met with
  | zero => exact hmet
  | succ n ih =>
    rw [Schema.chain, Reads.value_bind]
    cases hparent : (schema.parent s e).value w with
    | none => exact hmet
    | some parent =>
      have hfound : w.find? s (w.uriOf parent) = some parent := by
        rw [Schema.parent, Reads.value_bind, Reads.value_bind] at hparent
        split at hparent
        · exact absurd hparent.symm (Option.some_ne_none _)
        · rename_i uri _ _
          have hlookup : w.find? s uri = some parent := hparent
          rwa [huri uri parent hlookup]
      simp only [Reads.value_bind]
      split
      · exact hmet
      · refine ih parent (met ++ [parent]) fun a ha ↦ ?_
        rcases List.mem_append.mp ha with ha | ha
        · exact hmet a ha
        · rw [List.mem_singleton.mp ha]
          exact hfound

namespace Focus

open World

variable {w w' : World} {schema : Schema} {roles : Roles} {e : EntityRef} {depth : Nat}

/-- After a change of roles, what each of them reads. -/
structure Refocused (roles : Roles) (w w' : World) (reads : String → Option Uri) : Prop where
  rewritten : w.Rewritten w'
  separate : w'.Separate roles
  focusedIn_eq : ∀ role, w'.focusedIn roles role = reads role

theorem focusedIn_eq_bind (w : World) (roles : Roles) (role : String) :
    w.focusedIn roles role = (w.held roles role).bind Value.asStr? := by
  rw [focusedIn, held]
  cases roles.get? role <;> rfl

namespace Refocused

theorem refl (h : w.Separate roles) : Refocused roles w w (w.focusedIn roles) :=
  ⟨.refl w, h, fun _ ↦ rfl⟩

theorem congr {reads reads' : String → Option Uri} (h : Refocused roles w w' reads)
    (heq : ∀ role, reads role = reads' role) : Refocused roles w w' reads' :=
  ⟨h.rewritten, h.separate, fun role ↦ (h.focusedIn_eq role).trans (heq role)⟩

theorem trans {w'' : World} {reads reads' : String → Option Uri} (h : Refocused roles w w' reads)
    (h' : Refocused roles w' w'' reads') : Refocused roles w w'' reads' :=
  ⟨h.rewritten.trans h'.rewritten, h'.separate, h'.focusedIn_eq⟩

end Refocused

/-- Within a batch a role that is there reads what is written to it, and all others what they read. -/
theorem write_run (h : w.Separate roles) (hdepth : 0 < w.depth) {role : String} {id : SignalId}
    (hid : roles.get? role = some id) (uri : Option Uri) :
    ∃ w', (∀ D, @write D roles role uri w = .ok () w') ∧
      Refocused roles w w' fun role' ↦ if role' = role then uri else w.focusedIn roles role' := by
  refine ⟨w.assigned id (.ofUri? uri), fun D ↦ ?_, .assigned w id _, h.assigned id _, fun role' ↦ ?_⟩
  · simp only [write, hid, Act.bind_run, Act.set_in_batch (h.undisposed role id hid) hdepth, Act.pure_run]
  · rw [focusedIn_eq_bind, h.held_assigned hid, focusedIn_eq_bind]
    split
    · cases uri <;> rfl
    · rfl

/-- The outermost of some parents that fills a role. -/
def outermost? (w : World) (role : String) (parents : List EntityRef) : Option EntityRef :=
  parents.reverse.find? fun a ↦ w.kindOf a = role

/-- What a role above a depth reads once it was moved along a chain of parents. -/
def readsAbove (w : World) (schema : Schema) (roles : Roles) (depth : Nat) (parents : List EntityRef)
    (role : String) : Option Uri :=
  if (schema.roleDepth role).any (· < depth) then
    ((outermost? w role parents).map w.uriOf).or (w.focusedIn roles role)
  else w.focusedIn roles role

theorem outermost?_cons (w : World) (role : String) (a : EntityRef) (rest : List EntityRef) :
    outermost? w role (a :: rest) =
      (outermost? w role rest).or (if w.kindOf a = role then some a else none) := by
  rw [outermost?, List.reverse_cons, List.find?_append, outermost?]
  by_cases h : w.kindOf a = role <;> simp [h]

theorem outermost?_congr (h : w.Rewritten w') (role : String) (parents : List EntityRef) :
    outermost? w' role parents = outermost? w role parents := by
  have hkind : w'.kindOf = w.kindOf := funext fun e ↦ by rw [kindOf, h.entity_eq, kindOf]
  rw [outermost?, hkind, outermost?]

theorem mem_roles_of_roleDepth {role : String} {d : Nat} (hd : schema.roleDepth role = some d) :
    role ∈ schema.roles := by
  rw [Schema.roleDepth, List.findIdx?_eq_some_iff_getElem] at hd
  obtain ⟨hlt, hrole, -⟩ := hd
  have hget : schema.roles[d] = role := of_decide_eq_true hrole
  exact hget ▸ List.getElem_mem hlt

/-- Each parent is written where it fills a role above; a later one that fills the same role replaces it. -/
theorem writeAbove_run (depth : Nat) (h : w.Separate roles) (hdepth : 0 < w.depth)
    (hroles : ∀ role ∈ schema.roles, ∃ id, roles.get? role = some id)
    (parents : List EntityRef) : ∃ w', (∀ D, @writeAbove D schema roles depth parents w = .ok () w') ∧
      Refocused roles w w' (readsAbove w schema roles depth parents) := by
  induction parents generalizing w with
  | nil =>
    refine ⟨w, fun D ↦ rfl, (Refocused.refl h).congr fun role ↦ ?_⟩
    simp [readsAbove, outermost?]
  | cons a rest ih =>
    by_cases habove : (schema.roleDepth (w.kindOf a)).any (· < depth) = true
    · obtain ⟨d, hd, -⟩ := (Option.any_eq_true _ _).mp habove
      obtain ⟨id, hid⟩ := hroles _ (mem_roles_of_roleDepth hd)
      obtain ⟨w₁, hwrite, hfirst⟩ := write_run h hdepth hid (some (w.uriOf a))
      obtain ⟨w', hrest, hlater⟩ := ih hfirst.separate (hfirst.rewritten.depth_eq.symm ▸ hdepth)
      refine ⟨w', fun D ↦ ?_, (hfirst.trans hlater).congr fun role ↦ ?_⟩
      · simp only [writeAbove, Act.bind_run, Act.get_run, habove, if_true, hwrite, hrest]
      · have huri : w₁.uriOf = w.uriOf := funext fun e ↦ by rw [uriOf, hfirst.rewritten.entity_eq, uriOf]
        rw [readsAbove, readsAbove, outermost?_congr hfirst.rewritten, outermost?_cons, huri,
          hfirst.focusedIn_eq]
        by_cases hrole : role = w.kindOf a
        · subst hrole
          rw [if_pos habove, if_pos habove, if_pos rfl, if_pos rfl]
          cases outermost? w (w.kindOf a) rest <;> rfl
        · rw [if_neg hrole, if_neg (Ne.symm hrole), Option.or_none]
    · obtain ⟨w', hrest, hlater⟩ := ih h hdepth
      refine ⟨w', fun D ↦ ?_, hlater.congr fun role ↦ ?_⟩
      · simp only [writeAbove, Act.bind_run, Act.get_run, habove, Bool.false_eq_true, if_false, hrest]
      · rw [readsAbove, readsAbove, outermost?_cons]
        split
        · rename_i hrole
          have hne : w.kindOf a ≠ role := fun heq ↦ habove (heq.symm ▸ hrole)
          rw [if_neg hne, Option.or_none]
        · rfl

/-- What some roles read once those are cleared that do not lead to an entity. -/
def readsBelow (w : World) (schema : Schema) (roles : Roles) (e : EntityRef) (names : List String)
    (role : String) : Option Uri :=
  if role ∈ names then (w.focusedIn roles role).filter fun uri ↦ (leadsTo schema e uri).value w
  else w.focusedIn roles role

theorem clearBelow_run (schema : Schema) (e : EntityRef) (h : w.Separate roles) (hdepth : 0 < w.depth)
    (names : List String) : ∃ w', (∀ D, @clearBelow D schema roles e names w = .ok () w') ∧
      Refocused roles w w' (readsBelow w schema roles e names) := by
  induction names generalizing w with
  | nil => exact ⟨w, fun D ↦ rfl, (Refocused.refl h).congr fun role ↦ by simp [readsBelow]⟩
  | cons name rest ih =>
    -- Either nothing is written, or the role is cleared; both ways it reads what is left of it.
    obtain ⟨w₁, hfirst, hone⟩ : ∃ w₁, (∀ D w', @clearBelow D schema roles e rest w₁ = .ok () w' →
        @clearBelow D schema roles e (name :: rest) w = .ok () w') ∧
        Refocused roles w w₁ (readsBelow w schema roles e [name]) := by
      cases hfocus : w.focusedIn roles name with
      | none =>
        refine ⟨w, fun D w' hrest ↦ ?_, (Refocused.refl h).congr fun role ↦ ?_⟩
        · simp only [clearBelow, Act.bind_run, Act.get_run, hfocus, hrest]
        · by_cases hrole : role = name <;> simp [readsBelow, hrole, hfocus]
      | some uri =>
        by_cases hleads : (leadsTo schema e uri).value w = true
        · refine ⟨w, fun D w' hrest ↦ ?_, (Refocused.refl h).congr fun role ↦ ?_⟩
          · simp only [clearBelow, Act.bind_run, Act.get_run, hfocus, hleads, Bool.not_true,
              Bool.false_eq_true, if_false, hrest]
          · by_cases hrole : role = name <;> simp [readsBelow, hrole, hfocus, Option.filter_some, hleads]
        · obtain ⟨id, hid⟩ : ∃ id, roles.get? name = some id := by
            rw [focusedIn, Option.bind_eq_some_iff] at hfocus
            obtain ⟨id, hid, -⟩ := hfocus
            exact ⟨id, hid⟩
          obtain ⟨w₁, hwrite, hcleared⟩ := write_run h hdepth hid none
          refine ⟨w₁, fun D w' hrest ↦ ?_, hcleared.congr fun role ↦ ?_⟩
          · simp only [clearBelow, Act.bind_run, Act.get_run, hfocus, hleads, Bool.not_false, if_true, hwrite,
              hrest]
          · by_cases hrole : role = name <;> simp [readsBelow, hrole, hfocus, Option.filter_some, hleads]
    obtain ⟨w', hrest, hlater⟩ := ih hone.separate (hone.rewritten.depth_eq.symm ▸ hdepth)
    refine ⟨w', fun D ↦ hfirst D w' (hrest D), (hone.trans hlater).congr fun role ↦ ?_⟩
    have hleads : ∀ uri, (leadsTo schema e uri).value w₁ = (leadsTo schema e uri).value w := fun uri ↦
      Reads.OfStores.leadsTo schema e uri w w₁ hone.rewritten.stores_eq
    simp only [readsBelow, hone.focusedIn_eq, hleads, List.mem_cons]
    by_cases hname : role = name <;> simp [hname]

/-- The roles from a depth on, where no role is listed twice. -/
theorem mem_drop_roles_iff {role : String} {d : Nat} (hnodup : schema.roles.Nodup)
    (hd : schema.roleDepth role = some d) (n : Nat) : role ∈ schema.roles.drop n ↔ n ≤ d := by
  rw [Schema.roleDepth, List.findIdx?_eq_some_iff_getElem] at hd
  obtain ⟨hlt, hrole, -⟩ := hd
  have hget : schema.roles[d] = role := of_decide_eq_true hrole
  rw [List.mem_drop_iff_getElem]
  constructor
  · rintro ⟨i, hi, hrole'⟩
    have heq : n + i = d := hnodup.getElem_inj_iff.mp (hrole'.trans hget.symm)
    omega
  · intro hle
    refine ⟨d - n, by omega, ?_⟩
    simp only [Nat.add_sub_cancel' hle, hget]

/-- What is found at a URI that can be focused: an entity, and the depth of the role it fills. -/
def found? (w : World) (s : State) (uri : Uri) : Option (EntityRef × Nat) := do
  let e ← w.find? s.store uri
  let depth ← s.schema.roleDepth (w.kindOf e)
  return (e, depth)

/-- What roles read once an entity was focused. -/
structure Propagated (schema : Schema) (roles : Roles) (uri : Uri) (e : EntityRef) (depth : Nat)
    (w w' : World) : Prop where
  rewritten : w.Rewritten w'
  separate : w'.Separate roles
  own : w'.focusedIn roles (w.kindOf e) = some uri
  above : ∀ role d, schema.roleDepth role = some d → d < depth → w'.focusedIn roles role =
    ((outermost? w role ((schema.ancestors e.store e).value w)).map w.uriOf).or (w.focusedIn roles role)
  below : ∀ role d, schema.roleDepth role = some d → depth < d → w'.focusedIn roles role =
    (w.focusedIn roles role).filter fun uri ↦ (leadsTo schema e uri).value w

/-- The number of open batches has nothing to do with it. -/
theorem Propagated.setDepth {uri : Uri} {n : Nat} (h : Propagated schema roles uri e depth (w.setDepth n) w') :
    Propagated schema roles uri e depth w (w'.setDepth w.depth) where
  rewritten := h.rewritten.setDepth w.depth
  separate := h.separate.setDepth w.depth
  own := h.own
  above role d hd hlt := by
    have hancestors : (schema.ancestors e.store e).value (w.setDepth n) = (schema.ancestors e.store e).value w :=
      Reads.OfStores.chain schema e.store e Schema.maxSteps e [] w (w.setDepth n) rfl
    have habove := h.above role d hd hlt
    rw [hancestors] at habove
    exact habove
  below role d hd hlt := by
    have hleads : ∀ uri, (leadsTo schema e uri).value (w.setDepth n) = (leadsTo schema e uri).value w :=
      fun uri ↦ Reads.OfStores.leadsTo schema e uri w (w.setDepth n) rfl
    have hbelow := h.below role d hd hlt
    simp only [hleads] at hbelow
    exact hbelow

/-- The writes of a focus, within its batch. -/
theorem move_run (h : w.Separate roles) (hdepth : 0 < w.depth) (hnodup : schema.roles.Nodup)
    (hroles : ∀ role ∈ schema.roles, ∃ id, roles.get? role = some id)
    (he : schema.roleDepth (w.kindOf e) = some depth) (uri : Uri) {kind : String} (hkind : w.kindOf e = kind)
    {parents : List EntityRef} (hparents : (schema.ancestors e.store e).value w = parents) :
    ∃ w', (∀ D, (do
      @write D roles kind (some uri)
      @writeAbove D schema roles depth parents
      @clearBelow D schema roles e (schema.roles.drop (depth + 1)) : Act Unit) w = .ok () w') ∧
      Propagated schema roles uri e depth w w' := by
  subst hkind hparents
  obtain ⟨id, hid⟩ := hroles _ (mem_roles_of_roleDepth he)
  obtain ⟨w₁, hwrite, hown⟩ := write_run h hdepth hid (some uri)
  obtain ⟨w₂, hmove, habove⟩ := writeAbove_run depth hown.separate
    (hown.rewritten.depth_eq.symm ▸ hdepth) hroles ((schema.ancestors e.store e).value w)
  have hrewritten₂ := hown.rewritten.trans habove.rewritten
  obtain ⟨w₃, hclear, hbelow⟩ := clearBelow_run schema e habove.separate
    (hrewritten₂.depth_eq.symm ▸ hdepth) (schema.roles.drop (depth + 1))
  have hne {role : String} {d : Nat} (hd : schema.roleDepth role = some d) (hlt : d ≠ depth) :
      role ≠ w.kindOf e := fun heq ↦ hlt (Option.some.inj (hd.symm.trans (heq ▸ he)))
  have huri : w₁.uriOf = w.uriOf := funext fun a ↦ by rw [uriOf, hown.rewritten.entity_eq, uriOf]
  refine ⟨w₃, fun D ↦ ?_, hrewritten₂.trans hbelow.rewritten, hbelow.separate, ?_, fun role d hd hlt ↦ ?_,
    fun role d hd hlt ↦ ?_⟩
  · simp only [Act.bind_run, hwrite, hmove, hclear]
  · have hkept : w.kindOf e ∉ schema.roles.drop (depth + 1) := by
      rw [mem_drop_roles_iff hnodup he]
      omega
    rw [hbelow.focusedIn_eq, readsBelow, if_neg hkept, habove.focusedIn_eq, readsAbove, he, hown.focusedIn_eq,
      if_pos rfl]
    simp
  · have hkept : role ∉ schema.roles.drop (depth + 1) := by
      rw [mem_drop_roles_iff hnodup hd]
      omega
    rw [hbelow.focusedIn_eq, readsBelow, if_neg hkept, habove.focusedIn_eq, readsAbove, hd,
      outermost?_congr hown.rewritten, huri, hown.focusedIn_eq, if_neg (hne hd (Nat.ne_of_lt hlt))]
    simp [hlt]
  · have hcleared : role ∈ schema.roles.drop (depth + 1) := (mem_drop_roles_iff hnodup hd _).mpr hlt
    have hleads : ∀ uri, (leadsTo schema e uri).value w₂ = (leadsTo schema e uri).value w := fun uri ↦
      Reads.OfStores.leadsTo schema e uri w w₂ hrewritten₂.stores_eq
    have hsame : w₂.focusedIn roles role = w.focusedIn roles role := by
      rw [habove.focusedIn_eq, readsAbove, hd, hown.focusedIn_eq, if_neg (hne hd (Nat.ne_of_gt hlt))]
      simp [Nat.not_lt_of_gt hlt]
    rw [hbelow.focusedIn_eq, readsBelow, if_pos hcleared, hsame]
    simp only [hleads]

/-- A focus changes nothing where nothing is found that fills a role. Elsewhere it moves the roles in one
change, which is settled at once unless it is part of a batch or a flush. -/
theorem focus_eq (id : StateId) (uri : Uri) (hroles : w.Separate (w.state id).roles)
    (hcomplete : ∀ role ∈ (w.state id).schema.roles, ∃ signal, (w.state id).roles.get? role = some signal)
    (hnodup : (w.state id).schema.roles.Nodup) :
    match found? w (w.state id) uri with
    | none => ∀ D, @focus D id uri w = .ok false w
    | some (e, depth) => ∃ w', Propagated (w.state id).schema (w.state id).roles uri e depth w w' ∧
        ∀ D, @focus D id uri w = (do @flushOutside D; return true) w' := by
  cases hfind : w.find? (w.state id).store uri with
  | none => simp [found?, focus, apply, hfind]
  | some e =>
    cases hdepth : (w.state id).schema.roleDepth (w.kindOf e) with
    | none => simp [found?, focus, apply, hfind, hdepth]
    | some depth =>
      have hstore : e.store = (w.state id).store := by
        rw [find?, Option.map_eq_some_iff] at hfind
        obtain ⟨serial, -, rfl⟩ := hfind
        rfl
      have hparents : ((w.state id).schema.ancestors e.store e).value (w.setDepth (w.depth + 1)) =
          ((w.state id).schema.ancestors (w.state id).store e).value w := by
        rw [hstore]
        exact Reads.OfStores.chain _ _ e Schema.maxSteps e [] w (w.setDepth _) rfl
      have hkind : (w.setDepth (w.depth + 1)).kindOf e = w.kindOf e := rfl
      obtain ⟨w₁, hmove, hmoved⟩ := move_run (w := w.setDepth (w.depth + 1)) (e := e)
        (hroles.setDepth _) (Nat.succ_pos _) hnodup hcomplete hdepth uri hkind hparents
      have hback : w₁.setDepth (w₁.depth - 1) = w₁.setDepth w.depth := by
        rw [hmoved.rewritten.depth_eq, depth_setDepth, Nat.add_sub_cancel]
      have hfound : found? w (w.state id) uri = some (e, depth) := by
        simp [found?, hfind, hdepth]
      rw [hfound]
      refine ⟨w₁.setDepth w.depth, hmoved.setDepth, fun D ↦ ?_⟩
      have hbatch := @Act.batch_run w D Unit _ () w₁ (hmove D)
      rw [hback] at hbatch
      simp only [focus, apply, Act.bind_run, Act.get_run, hfind, hdepth, hbatch]
      cases @flushOutside D (w₁.setDepth w.depth) <;> rfl

/-- Where no two parents fill one role, the outermost that fills it is the nearest. -/
theorem outermost?_eq_find? {role : String} {parents : List EntityRef}
    (hone : ∀ a ∈ parents, ∀ b ∈ parents, w.kindOf a = role → w.kindOf b = role → a = b) :
    outermost? w role parents = parents.find? fun a ↦ w.kindOf a = role := by
  rw [outermost?]
  cases hfind : parents.find? fun a ↦ w.kindOf a = role with
  | none =>
    rw [List.find?_eq_none] at hfind ⊢
    intro a ha
    exact hfind a (List.mem_reverse.mp ha)
  | some a =>
    have ha := List.mem_of_find?_eq_some hfind
    have hrole : w.kindOf a = role := by simpa using List.find?_some hfind
    obtain ⟨b, hb⟩ : ∃ b, parents.reverse.find? (fun a ↦ w.kindOf a = role) = some b := by
      rw [← Option.isSome_iff_exists, List.find?_isSome]
      exact ⟨a, List.mem_reverse.mpr ha, by simp [hrole]⟩
    have hmem := List.mem_reverse.mp (List.mem_of_find?_eq_some hb)
    rw [hb, hone b hmem a ha (by simpa using List.find?_some hb) hrole]

/-- A role above reads the nearest parent that fills it, where there is one such parent at most. -/
theorem Propagated.above_nearest {uri : Uri} (h : Propagated schema roles uri e depth w w') {role : String}
    {d : Nat} (hd : schema.roleDepth role = some d) (hlt : d < depth)
    (hone : ∀ a ∈ (schema.ancestors e.store e).value w, ∀ b ∈ (schema.ancestors e.store e).value w,
      w.kindOf a = role → w.kindOf b = role → a = b) :
    w'.focusedIn roles role = ((((schema.ancestors e.store e).value w).find?
      fun a ↦ w.kindOf a = role).map w.uriOf).or (w.focusedIn roles role) := by
  rw [h.above role d hd hlt, outermost?_eq_find? hone]

end Focus

end LiveGraph
