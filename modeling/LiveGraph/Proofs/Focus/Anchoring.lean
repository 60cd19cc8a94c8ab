import LiveGraph.Proofs.Focus.Anchors

/-!
# Calls on an anchored focus

A call on a focus writes live entities to the roles of their types, or clears roles. So whatever is held stays
anchored, also when those who watch a role are told of it and act themselves.
-/

namespace LiveGraph.Focus

open World Act

variable {gone : Set EntityRef} {scope : Option String} {roles : Roles} {w w' : World}

/-- A signal of the focus takes what is written to it, if a role gets a live entity of its type or nothing. -/
theorem Moored.assigned_slot (h : Moored gone (.whole ∅) w) {slot : Slot} {j : SignalId}
    (hj : (w.state 0).slot? slot = some j) (v : Value)
    (hv : ∀ scope name uri, slot = .role scope name → v.asStr? = some uri →
      ∃ e, w.find? 0 uri = some e ∧ w.kindOf e = name) : Moored gone (.whole ∅) (w.assigned j v) := by
  have hrewritten := Rewritten.assigned w j v
  have hstore : ∀ s, (w.assigned j v).store s = w.store s := fun s ↦ by
    rw [World.store, hrewritten.stores_eq, World.store]
  have hstate : (w.assigned j v).state 0 = w.state 0 := by rw [World.state, hrewritten.states_eq, World.state]
  have hfind : ∀ uri, (w.assigned j v).find? 0 uri = w.find? 0 uri := fun uri ↦ by
    rw [World.find?, hstore, World.find?]
  have hname : ∀ e, (w.assigned j v).uriOf e = w.uriOf e ∧ (w.assigned j v).kindOf e = w.kindOf e := fun e ↦ by
    rw [World.uriOf, World.kindOf, hrewritten.entity_eq]
    exact ⟨rfl, rfl⟩
  have hsound := h.setting.sound
  refine ⟨h.setting.assigned j v, fun e he ↦ ?_, fun scope name j' uri hj' hvalue ↦ ?_⟩
  · rw [World.knows, hstore]
    exact h.anchored.known e he
  · simp only [hfind, hname]
    rw [hstate] at hj'
    rw [w.valueOf_assigned (hsound.lt_size slot j hj) (hsound.undisposed slot j hj)
      (hsound.equality_eq slot j hj)] at hvalue
    by_cases heq : j = j'
    · subst heq
      rw [if_pos rfl] at hvalue
      exact .inr (hv scope name uri (hsound.injective _ _ j hj hj') hvalue)
    · rw [if_neg heq] at hvalue
      exact h.anchored.held scope name j' uri hj' hvalue

/-- A scope gets roles of its own, which hold nothing. -/
theorem Moored.widened (h : Moored gone (.whole ∅) w) {name : String} {own : Override}
    (hw : Widened 0 name own w w') : Moored gone (.whole ∅) w' := by
  have hstores : w'.stores = w.stores := hw.part_eq World.stores fun _ _ _ ↦ rfl
  have hstore : ∀ s, w'.store s = w.store s := fun s ↦ by rw [World.store, hstores, World.store]
  have hentity : ∀ e, w'.entity e = w.entity e := fun e ↦ by rw [World.entity, hstore, World.entity]
  refine ⟨h.setting.widened hw, fun e he ↦ ?_, fun scope name j uri hj hvalue ↦ ?_⟩
  · rw [World.knows, hstore]
    exact h.anchored.known e he
  · simp only [World.find?, hstore, World.uriOf, World.kindOf, hentity]
    rcases hw.slot?_cases hj with hj | ⟨hle, hlt, -⟩
    · rw [valueOf, hw.signal_eq j (h.setting.sound.lt_size _ j hj)] at hvalue
      exact h.anchored.held scope name j uri hj hvalue
    · rw [valueOf, hw.fresh j hle hlt] at hvalue
      cases hvalue

/-- While the roles of a scope are written to, stores and debug states are what they were. -/
structure Refocusing (gone : Set EntityRef) (scope : Option String) (roles : Roles) (w₀ w : World) : Prop where
  moored : Moored gone (.whole ∅) w
  roles_eq : (w₀.state 0).rolesOf? scope = some roles
  stores_eq : w.stores = w₀.stores
  states_eq : w.states = w₀.states

namespace Refocusing

variable {w₀ : World}

theorem depthFree : DepthFree (Refocusing gone scope roles w₀) := fun w d h ↦
  ⟨Moored.depthFree w d h.moored, h.roles_eq, h.stores_eq, h.states_eq⟩

variable (h : Refocusing gone scope roles w₀ w)
include h

theorem store_eq (s : StoreId) : w.store s = w₀.store s := by
  rw [World.store, h.stores_eq, World.store]

theorem state_eq (id : StateId) : w.state id = w₀.state id := by
  rw [World.state, h.states_eq, World.state]

theorem entity_eq (e : EntityRef) : w.entity e = w₀.entity e := by
  rw [World.entity, h.store_eq, World.entity]

theorem slot_eq {role : String} {j : SignalId} (hj : roles.get? role = some j) :
    (w.state 0).slot? (.role scope role) = some j := by
  rw [State.slot?, h.state_eq, h.roles_eq]
  exact hj

theorem assigned_role {role : String} {j : SignalId} (hj : roles.get? role = some j) (uri? : Option Uri)
    (huri : ∀ uri, uri? = some uri → ∃ e, w₀.find? 0 uri = some e ∧ w₀.kindOf e = role) :
    Refocusing gone scope roles w₀ (w.assigned j (.ofUri? uri?)) := by
  have hrewritten := Rewritten.assigned w j (.ofUri? uri?)
  refine ⟨h.moored.assigned_slot (h.slot_eq hj) _ fun scope' name uri hslot hvalue ↦ ?_, h.roles_eq,
    hrewritten.stores_eq.trans h.stores_eq, hrewritten.states_eq.trans h.states_eq⟩
  obtain ⟨rfl, rfl⟩ := Slot.role.inj hslot
  cases uri? with
  | none => exact nomatch hvalue
  | some uri' =>
    obtain rfl : uri' = uri := Option.some.inj hvalue
    simpa only [World.find?, h.store_eq, World.kindOf, h.entity_eq] using huri uri' rfl

end Refocusing

/-- A scope that has roles of its own. -/
def Owning (gone : Set EntityRef) (name : String) (own : Override) (w : World) : Prop :=
  Moored gone (.whole ∅) w ∧ (w.state 0).overrides.get? name = some own

namespace Owning

variable {name : String} {own : Override}

theorem depthFree : DepthFree (Owning gone name own) := fun w d h ↦ ⟨Moored.depthFree w d h.1, h.2⟩

theorem rolesOf?_eq (h : Owning gone name own w) : (w.state 0).rolesOf? (some name) = some own.roles := by
  rw [State.rolesOf?, h.2, Option.map_some]

theorem of_refocusing {w₀ : World} (h : Owning gone name own w₀) (hw : Refocusing gone scope roles w₀ w) :
    Owning gone name own w :=
  ⟨hw.moored, hw.state_eq 0 ▸ h.2⟩

/-- What is written to a signal that is of no role is not held. -/
theorem assigned (h : Owning gone name own w) {slot : Slot} {j : SignalId} (hj : (w.state 0).slot? slot = some j)
    (hslot : ∀ scope name, slot ≠ .role scope name) (v : Value) : Owning gone name own (w.assigned j v) := by
  refine ⟨h.1.assigned_slot hj v fun scope role _ heq ↦ absurd heq (hslot scope role), ?_⟩
  rw [World.state, (Rewritten.assigned w j v).states_eq]
  exact h.2

end Owning

section Acts

variable {D D' : Dispatch} {d : Nat} {f : Bool} {C : World → Prop} {w₀ : World}

/-- A role gets a live entity of its type, or is cleared, and those who watch it are told. -/
theorem agree_write {I : World → Prop} (hI : DepthFree I) (role : String) (uri? : Option Uri)
    (huri : ∀ uri, uri? = some uri → ∃ e, w₀.find? 0 uri = some e ∧ w₀.kindOf e = role)
    (hpost : ∀ w, Refocusing gone scope roles w₀ w → I w)
    (hflush : d = 0 → f = false →
      Agree (Held I 0 false) (@LiveGraph.flush D) (@LiveGraph.flush D') (fun _ ↦ At I 0 false) C) :
    Agree (At (Refocusing gone scope roles w₀) d f) (@write D roles role uri?) (@write D' roles role uri?)
      (fun _ ↦ At I d f) C := by
  unfold write
  split
  · exact agree_pure fun w hw ↦ hw.mono fun w hw ↦ hpost w hw
  · rename_i j hj
    refine agree_bind (Q := fun _ ↦ At I d f) (fun w hw ↦ ?_) fun _ ↦ agree_pure fun _ hw ↦ hw
    exact agree_assign hI ⟨⟨rfl, hw.depth_eq, hw.flushing_eq⟩, hw.idle⟩
      (hpost _ (hw.holds.assigned_role hj uri? huri)) hflush w rfl

/-- The same within a batch. -/
theorem agree_write_within (role : String) (uri? : Option Uri)
    (huri : ∀ uri, uri? = some uri → ∃ e, w₀.find? 0 uri = some e ∧ w₀.kindOf e = role) :
    Agree (Held (Refocusing gone scope roles w₀) (d + 1) f) (@write D roles role uri?) (@write D' roles role uri?)
      (fun _ ↦ Held (Refocusing gone scope roles w₀) (d + 1) f) C :=
  (agree_write Refocusing.depthFree role uri? huri (fun _ hw ↦ hw) fun hd ↦ absurd hd (Nat.succ_ne_zero d)).mono
    (fun _ hw ↦ hw.at_busy (.inl (Nat.succ_pos d))) (fun _ _ hw ↦ hw.toHeld) fun _ h ↦ h

theorem agree_writeAbove (schema : Schema) (depth : Nat) (parents : List EntityRef)
    (hparents : ∀ e ∈ parents, w₀.find? 0 (w₀.uriOf e) = some e) :
    Agree (Held (Refocusing gone scope roles w₀) (d + 1) f) (@writeAbove D schema roles depth parents)
      (@writeAbove D' schema roles depth parents) (fun _ ↦ Held (Refocusing gone scope roles w₀) (d + 1) f) C := by
  induction parents with
  | nil => exact agree_pure fun _ hw ↦ hw
  | cons e rest ih =>
    have hrest := ih fun e' he' ↦ hparents e' (List.mem_cons_of_mem e he')
    refine agree_get fun w hw ↦ ?_
    have hkind : w.kindOf e = w₀.kindOf e := by rw [kindOf, hw.holds.entity_eq, kindOf]
    have huri : w.uriOf e = w₀.uriOf e := by rw [uriOf, hw.holds.entity_eq, uriOf]
    rw [hkind, huri]
    refine agree_ite (fun _ ↦ ?_) fun _ ↦ hrest.pre fun w' hw' ↦ hw' ▸ hw
    refine agree_bind ((agree_write_within _ _ fun uri heq ↦ ?_).pre fun w' hw' ↦ hw' ▸ hw) fun _ ↦ hrest
    obtain rfl := Option.some.inj heq
    exact ⟨e, hparents e List.mem_cons_self, rfl⟩

theorem agree_clearBelow (schema : Schema) (e : EntityRef) (names : List String) :
    Agree (Held (Refocusing gone scope roles w₀) (d + 1) f) (@clearBelow D schema roles e names)
      (@clearBelow D' schema roles e names) (fun _ ↦ Held (Refocusing gone scope roles w₀) (d + 1) f) C := by
  induction names with
  | nil => exact agree_pure fun _ hw ↦ hw
  | cons name rest ih =>
    refine agree_get fun w hw ↦ ?_
    have hskip : Agree (· = w) (@clearBelow D schema roles e rest) (@clearBelow D' schema roles e rest)
        (fun _ ↦ Held (Refocusing gone scope roles w₀) (d + 1) f) C := ih.pre fun w' hw' ↦ hw' ▸ hw
    cases w.focusedIn roles name with
    | none => exact hskip
    | some uri =>
      refine agree_ite (fun _ ↦ ?_) fun _ ↦ hskip
      exact agree_bind ((agree_write_within _ none nofun).pre fun w' hw' ↦ hw' ▸ hw) fun _ ↦ ih

theorem agree_clearAll (names : List String) :
    Agree (Held (Refocusing gone scope roles w₀) (d + 1) f) (@clearAll D roles names) (@clearAll D' roles names)
      (fun _ ↦ Held (Refocusing gone scope roles w₀) (d + 1) f) C := by
  induction names with
  | nil => exact agree_pure fun _ hw ↦ hw
  | cons name rest ih => exact agree_bind (agree_write_within name none nofun) fun _ ↦ ih

/-- What is focused in some roles is there, and so are all its parents. -/
theorem agree_apply {I I' : World → Prop} (hI' : DepthFree I') (uri : Uri)
    (hpre : ∀ w, I w → Moored gone (.whole ∅) w ∧ (w.state 0).rolesOf? scope = some roles)
    (hpost : ∀ w₀ w, I w₀ → Refocusing gone scope roles w₀ w → I' w)
    (hflush : d = 0 → f = false →
      Agree (Held I' 0 false) (@LiveGraph.flush D) (@LiveGraph.flush D') (fun _ ↦ At I' 0 false) fun _ ↦ False) :
    Agree (At I d f) (@apply D 0 roles uri) (@apply D' 0 roles uri) (fun _ ↦ At I' d f) fun _ ↦ False := by
  refine agree_get fun w hw ↦ ?_
  obtain ⟨hmoored, hroles⟩ := hpre w hw.holds
  have hstart : Refocusing gone scope roles w w := ⟨hmoored, hroles, rfl, rfl⟩
  have hdone : ∀ w', w' = w → At I' d f w' := fun w' hw' ↦
    hw' ▸ ⟨⟨hpost w w hw.holds hstart, hw.depth_eq, hw.flushing_eq⟩, hw.idle⟩
  cases hfind : w.find? (w.state 0).store uri with
  | none =>
    simp only [hfind]
    exact agree_pure hdone
  | some e =>
    simp only [hfind]
    cases hdepth : (w.state 0).schema.roleDepth (w.kindOf e) with
    | none => exact agree_pure hdone
    | some depth =>
      rw [hmoored.setting.store_eq] at hfind
      have hparents : ∀ a ∈ ((w.state 0).schema.ancestors (w.state 0).store e).value w,
          w.find? 0 (w.uriOf a) = some a := by
        rw [hmoored.setting.store_eq]
        exact Schema.find?_of_mem_chain (fun _ _ hfound ↦ (hmoored.setting.of_found hfound).2.2) _ e Schema.maxSteps e []
          fun a ha ↦ absurd ha List.not_mem_nil
      refine agree_bind ((agree_batch (I := Refocusing gone scope roles w) Refocusing.depthFree hI' ?_ hflush
        fun _ h ↦ h).pre fun w' hw' ↦ ?_) fun _ ↦ agree_pure fun _ hw ↦ hw
      · refine agree_bind (agree_write_within _ _ fun uri' heq ↦ ?_) fun _ ↦
          agree_bind (agree_writeAbove _ depth _ hparents) fun _ ↦
            (agree_clearBelow _ e _).post fun _ w' hw' ↦ hw'.mono fun w' hw' ↦ hpost w w' hw.holds hw'
        obtain rfl := Option.some.inj heq
        exact ⟨e, hfind, rfl⟩
      · subst hw'
        exact ⟨hstart, hw.depth_eq, hw.flushing_eq⟩

section Calls

variable (hflush : Flushes (fun stage _ ↦ Moored gone stage) D D' (fun _ ↦ False) d f)
include hflush

theorem agree_focus (uri : Uri) :
    Agree (At (Moored gone (.whole ∅)) d f) (@focus D 0 uri) (@focus D' 0 uri)
      (fun _ ↦ At (Moored gone (.whole ∅)) d f) fun _ ↦ False := by
  refine agree_get fun w hw ↦ agree_bind (Q := fun _ ↦ At (Moored gone (.whole ∅)) d f) ?_ fun _ ↦
    agree_pure fun _ hw ↦ hw
  have happly : Agree (At (· = w) d f) (@apply D 0 (w.state 0).roles uri) (@apply D' 0 (w.state 0).roles uri)
      (fun _ ↦ At (Moored gone (.whole ∅)) d f) fun _ ↦ False :=
    agree_apply Moored.depthFree uri
      (fun w' (hw' : w' = w) ↦ (show _ ∧ (w'.state 0).rolesOf? none = _ by subst hw'; exact ⟨hw.holds, rfl⟩))
      (fun _ _ _ hw' ↦ hw'.moored) hflush
  refine happly.pre fun w' hw' ↦ ?_
  subst hw'
  exact ⟨⟨rfl, hw.depth_eq, hw.flushing_eq⟩, hw.idle⟩

theorem agree_unfocus (role : String) :
    Agree (At (Moored gone (.whole ∅)) d f) (@unfocus D 0 role) (@unfocus D' 0 role)
      (fun _ ↦ At (Moored gone (.whole ∅)) d f) fun _ ↦ False := by
  refine agree_get fun w hw ↦ ?_
  refine (agree_write Moored.depthFree role none nofun
    (fun _ (hw : Refocusing gone none _ w _) ↦ hw.moored) hflush).pre fun w' hw' ↦ ?_
  subst hw'
  exact ⟨⟨⟨hw.holds, rfl, rfl, rfl⟩, hw.depth_eq, hw.flushing_eq⟩, hw.idle⟩

end Calls

/-- Nobody watches how many scopes there are, so nothing follows when there is one more. -/
theorem agree_override (hrounds : D.rounds = D'.rounds) (name : String) :
    Agree (At (Moored gone (.whole ∅)) d f) (@override D 0 name) (@override D' 0 name)
      (fun own ↦ At (Owning gone name own) d f) fun _ ↦ False := by
  refine agree_get fun w hw ↦ ?_
  cases hown : (w.state 0).overrides.get? name with
  | some own =>
    exact agree_pure fun w' hw' ↦ hw' ▸ ⟨⟨⟨hw.holds, hown⟩, hw.depth_eq, hw.flushing_eq⟩, hw.idle⟩
  | none =>
    let own := (w.scopeRoles 0 name).1
    let w₁ := (w.scopeRoles 0 name).2
    have hwidened : Widened 0 name own w w₁ := widened_scopeRoles hw.holds.setting.sound.state_lt name
    have hquiet : w.Quiet w₁ :=
      ⟨hwidened.part_eq World.depth fun _ _ _ ↦ rfl, hwidened.part_eq World.flushing fun _ _ _ ↦ rfl,
        hwidened.part_eq World.queue fun _ _ _ ↦ rfl, hwidened.part_eq World.effects fun _ _ _ ↦ rfl⟩
    have hmoored : Moored gone (.whole ∅) w₁ := hw.holds.widened hwidened
    have hget : (w₁.state 0).overrides.get? name = some own := by rw [hwidened.get?_overrides, if_pos rfl]
    have hadvanced : Owning gone name own (w₁.advanced (w₁.state 0).scopes) :=
      Owning.assigned ⟨hmoored, hget⟩ (show (w₁.state 0).slot? .scopes = _ from rfl) nofun _
    refine agree_bind (agree_changeGet (C := fun _ ↦ False) _) fun own' ↦ ?_
    refine agree_get fun w' hw' ↦ ?_
    obtain ⟨rfl, rfl⟩ := hw'
    refine agree_bind (agree_advance_unwatched hrounds Owning.depthFree
      (fun w f hw ↦ ⟨hw.1.context w.depth f w.frames w.pins, hw.2⟩) (fun _ hw ↦ hw.1.plain.queue_eq)
      hmoored.plain.noDeriveds hmoored.setting.unwatched (hw.quiet hquiet rfl) hadvanced) fun _ ↦
      agree_pure fun _ hw ↦ hw

/-- Within a batch, what is written to a signal that is of no role is not held. -/
theorem agree_set_other (name : String) (own : Override) {slot : Slot} {j : SignalId} (v : Value)
    (hslot : ∀ scope name, slot ≠ .role scope name) :
    Agree (Held (fun w ↦ Owning gone name own w ∧ (w.state 0).slot? slot = some j) (d + 1) f) (@Signal.set D j v)
      (@Signal.set D' j v) (fun _ ↦ Held (Owning gone name own) (d + 1) f) fun _ ↦ False := fun w hw ↦ by
  have hat : At (· = w) (d + 1) f w :=
    (hw.quiet (.refl w) rfl : Held (· = w) (d + 1) f w).at_busy (.inl (Nat.succ_pos d))
  exact ((agree_assign Owning.depthFree hat (hw.holds.1.assigned hw.holds.2 hslot v) fun hd ↦
    absurd hd (Nat.succ_ne_zero d)).post fun _ _ hw ↦ hw.toHeld) w rfl

theorem agree_claim {name : String} {own : Override} (depth : Nat) :
    Agree (Held (Owning gone name own) (d + 1) f) (@claim D own depth) (@claim D' own depth)
      (fun _ ↦ Held (Owning gone name own) (d + 1) f) fun _ ↦ False :=
  agree_get fun _ hw ↦ agree_bind ((agree_set_other name own _ (show ∀ scope role, Slot.owned name ≠ .role scope role from nofun)).pre fun _ hw' ↦
    hw' ▸ hw.mono fun _ hw ↦ ⟨hw, State.slot?_owned hw.2⟩) fun _ ↦ agree_pure fun _ hw ↦ hw

section Calls

variable (hrounds : D.rounds = D'.rounds)
variable (hflush : Flushes (fun stage _ ↦ Moored gone stage) D D' (fun _ ↦ False) d f)
include hflush

theorem agree_clearScope (name : String) :
    Agree (At (Moored gone (.whole ∅)) d f) (@clearScope D 0 name) (@clearScope D' 0 name)
      (fun _ ↦ At (Moored gone (.whole ∅)) d f) fun _ ↦ False := by
  refine agree_get fun w hw ↦ ?_
  cases hown : (w.state 0).overrides.get? name with
  | none => exact agree_pure fun w' hw' ↦ hw' ▸ hw
  | some own =>
    have howning : Owning gone name own w := ⟨hw.holds, hown⟩
    have hstart : Held (Refocusing gone (some name) own.roles w) d f w :=
      ⟨⟨hw.holds, howning.rolesOf?_eq, rfl, rfl⟩, hw.depth_eq, hw.flushing_eq⟩
    refine Agree.pre (agree_batch (I := Refocusing gone (some name) own.roles w) Refocusing.depthFree
      Moored.depthFree ?_ hflush fun _ h ↦ h) fun w' hw' ↦ hw' ▸ hstart
    refine agree_bind (agree_clearAll own.roles.keys) fun _ ↦
      agree_bind ((agree_set_other name own .nil (show ∀ scope role, Slot.owned name ≠ .role scope role from nofun)).pre
        fun w' hw' ↦ ?_) fun _ ↦ agree_pure fun w' hw' ↦ hw'.mono fun _ hw' ↦ hw'.1
    exact hw'.mono fun w' hw' ↦
      have howning' := howning.of_refocusing hw'
      ⟨howning', State.slot?_owned howning'.2⟩

include hrounds

theorem agree_focusIn (name : String) (uri : Uri) :
    Agree (At (Moored gone (.whole ∅)) d f) (@focusIn D 0 name uri) (@focusIn D' 0 name uri)
      (fun _ ↦ At (Moored gone (.whole ∅)) d f) fun _ ↦ False := by
  refine agree_bind (agree_override hrounds name) fun own ↦ ?_
  refine (agree_batch (I := Owning gone name own) Owning.depthFree Moored.depthFree ?_ hflush fun _ h ↦ h).pre
    fun _ hw ↦ hw.toHeld
  have happly : Agree (At (Owning gone name own) (d + 1) f) (@apply D 0 own.roles uri) (@apply D' 0 own.roles uri)
      (fun _ ↦ At (Owning gone name own) (d + 1) f) fun _ ↦ False :=
    agree_apply Owning.depthFree uri (fun w hw ↦ ⟨hw.1, hw.rolesOf?_eq⟩) (fun _ _ h hw ↦ h.of_refocusing hw)
      fun hd ↦ absurd hd (Nat.succ_ne_zero d)
  refine agree_bind ((happly.pre fun w hw ↦ hw.at_busy (.inl (Nat.succ_pos d))).post fun _ w hw ↦ hw.toHeld)
    fun depth? ↦ ?_
  cases depth? with
  | none => exact agree_pure fun w hw ↦ hw.mono fun w hw ↦ hw.1
  | some depth => exact agree_bind (agree_claim depth) fun _ ↦ agree_pure fun w hw ↦ hw.mono fun w hw ↦ hw.1

/-- Every call on a focus leaves it anchored. -/
theorem Call.agree_perform (call : Call) :
    Agree (At (Moored gone (.whole ∅)) d f) (@Call.perform D 0 call) (@Call.perform D' 0 call)
      (fun _ ↦ At (Moored gone (.whole ∅)) d f) fun _ ↦ False := by
  match call with
  | .focus uri => exact agree_focus hflush uri
  | .unfocus role => exact agree_bind (agree_unfocus hflush role) fun _ ↦ agree_pure fun _ hw ↦ hw
  | .focusIn scope uri => exact agree_focusIn hrounds hflush scope uri
  | .clearScope scope => exact agree_bind (agree_clearScope hflush scope) fun _ ↦ agree_pure fun _ hw ↦ hw

end Calls

end Acts

end LiveGraph.Focus
