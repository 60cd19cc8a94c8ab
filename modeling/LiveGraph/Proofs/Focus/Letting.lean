import LiveGraph.Proofs.Focus.Anchoring

/-!
# Letting go of what was removed

The first listener of a removal clears every role that holds what was removed, for all and in each scope. After it
nothing that is held names what was removed.
-/

namespace LiveGraph.Focus

open World Act

variable {gone : Set EntityRef} {e : EntityRef} {scope : Option String} {roles : Roles} {w w₀ : World} {uri : Uri}

/-- To clear a role does not make any other hold something. -/
theorem focusedIn_of_cleared {j : SignalId} {roles : Roles} {name : String}
    (h : (w.assigned j .nil).focusedIn roles name = some uri) : w.focusedIn roles name = some uri := by
  rw [focusedIn] at h ⊢
  cases hj : roles.get? name with
  | none => rw [hj] at h; exact h
  | some i =>
    rw [hj, Option.bind_some] at h
    rw [Option.bind_some]
    rcases w.assigned_cases j .nil with heq | ⟨-, heq⟩
    · rwa [heq] at h
    · rw [heq, valueOf_write] at h
      split at h
      · cases h
      · exact h

/-- Some roles hold a URI no longer, while others are being looked at. -/
structure Clearing (gone : Set EntityRef) (w₀ : World) (uri : Uri) (cleared : Roles → String → Prop) (w : World) :
    Prop where
  moored : Moored gone (.whole ∅) w
  stores_eq : w.stores = w₀.stores
  states_eq : w.states = w₀.states
  cleared : ∀ roles name, cleared roles name → w.focusedIn roles name ≠ some uri

theorem Clearing.depthFree {cleared : Roles → String → Prop} : DepthFree (Clearing gone w₀ uri cleared) :=
  fun w d h ↦ ⟨Moored.depthFree w d h.moored, h.stores_eq, h.states_eq, h.cleared⟩

theorem Clearing.mono {cleared cleared' : Roles → String → Prop} (h : Clearing gone w₀ uri cleared w)
    (hsub : ∀ roles name, cleared' roles name → cleared roles name) : Clearing gone w₀ uri cleared' w :=
  ⟨h.moored, h.stores_eq, h.states_eq, fun roles name hname ↦ h.cleared roles name (hsub roles name hname)⟩

section Acts

variable {D D' : Dispatch} {d : Nat} {f : Bool} {C : World → Prop}

theorem agree_forgetIn_cleared (hroles : (w₀.state 0).rolesOf? scope = some roles) (names : List String)
    (cleared : Roles → String → Prop) :
    Agree (Held (Clearing gone w₀ uri cleared) (d + 1) f) (@forgetIn D uri roles names) (@forgetIn D' uri roles names)
      (fun _ ↦ Held (Clearing gone w₀ uri fun roles' name ↦ cleared roles' name ∨ roles' = roles ∧ name ∈ names)
        (d + 1) f) C := by
  induction names generalizing cleared with
  | nil => exact agree_pure fun w hw ↦ hw.mono fun w hw ↦ hw.mono fun roles' name hname ↦ by simpa using hname
  | cons role rest ih =>
    have hcons (roles' : Roles) (name : String)
        (hname : cleared roles' name ∨ roles' = roles ∧ name ∈ role :: rest) :
        (cleared roles' name ∨ roles' = roles ∧ name = role) ∨ roles' = roles ∧ name ∈ rest := by
      rcases hname with hname | ⟨heq, hname⟩
      · exact .inl (.inl hname)
      · exact (List.mem_cons.mp hname).elim (fun h ↦ .inl (.inr ⟨heq, h⟩)) fun h ↦ .inr ⟨heq, h⟩
    have hrest := (ih fun roles' name ↦ cleared roles' name ∨ roles' = roles ∧ name = role).post fun _ w hw ↦
      hw.mono fun w hw ↦ hw.mono hcons
    refine agree_get fun w hw ↦ ?_
    have hmore (w' : World) (hw' : Clearing gone w₀ uri cleared w') (hnot : w'.focusedIn roles role ≠ some uri) :
        Clearing gone w₀ uri (fun roles' name ↦ cleared roles' name ∨ roles' = roles ∧ name = role) w' := by
      refine ⟨hw'.moored, hw'.stores_eq, hw'.states_eq, fun roles' name hname ↦ ?_⟩
      rcases hname with hname | ⟨rfl, rfl⟩
      · exact hw'.cleared roles' name hname
      · exact hnot
    by_cases hheld : w.focusedIn roles role = some uri
    · rw [if_pos hheld, if_pos hheld]
      refine agree_bind (Q := fun _ ↦ Held (Clearing gone w₀ uri fun roles' name ↦ cleared roles' name ∨
        roles' = roles ∧ name = role) (d + 1) f) ?_ fun _ ↦ hrest
      obtain ⟨j, hj, -⟩ := Option.bind_eq_some_iff.mp hheld
      have hrefocusing : Refocusing gone scope roles w₀ w :=
        ⟨hw.holds.moored, hroles, hw.holds.stores_eq, hw.holds.states_eq⟩
      have hslot := hrefocusing.slot_eq hj
      have hsound := hw.holds.moored.setting.sound
      have hassigned := hrefocusing.assigned_role hj none fun uri heq ↦ absurd heq (Option.some_ne_none uri).symm
      have hdone := hmore (w.assigned j .nil) ⟨hassigned.moored, hassigned.stores_eq, hassigned.states_eq,
        fun roles' name hname h ↦ hw.holds.cleared roles' name hname (focusedIn_of_cleared h)⟩ fun h ↦ by
          rw [focusedIn, hj, Option.bind_some, w.valueOf_assigned (hsound.lt_size _ j hslot)
            (hsound.undisposed _ j hslot) (hsound.equality_eq _ j hslot), if_pos rfl] at h
          cases h
      have hat : At (· = w) (d + 1) f w :=
        (hw.quiet (.refl w) rfl : Held (· = w) (d + 1) f w).at_busy (.inl (Nat.succ_pos d))
      simp only [write, hj]
      exact agree_bind (agree_assign Clearing.depthFree hat hdone fun hd ↦ absurd hd (Nat.succ_ne_zero d)) fun _ ↦
        agree_pure fun _ hw ↦ hw.toHeld
    · rw [if_neg hheld, if_neg hheld]
      refine hrest.pre fun w' hw' ↦ ?_
      subst hw'
      exact ⟨hmore w' hw.holds hheld, hw.depth_eq, hw.flushing_eq⟩

theorem agree_forgetInAll_cleared (all : List Roles)
    (hall : ∀ roles ∈ all, ∃ scope, (w₀.state 0).rolesOf? scope = some roles) (cleared : Roles → String → Prop) :
    Agree (Held (Clearing gone w₀ uri cleared) (d + 1) f) (@forgetInAll D uri all) (@forgetInAll D' uri all)
      (fun _ ↦ Held (Clearing gone w₀ uri fun roles name ↦ cleared roles name ∨ roles ∈ all ∧ name ∈ roles.keys)
        (d + 1) f) C := by
  induction all generalizing cleared with
  | nil => exact agree_pure fun w hw ↦ hw.mono fun w hw ↦ hw.mono fun roles' name hname ↦ by simpa using hname
  | cons roles rest ih =>
    obtain ⟨scope, hroles⟩ := hall roles List.mem_cons_self
    refine agree_bind (agree_forgetIn_cleared hroles roles.keys cleared) fun _ ↦
      (ih (fun roles' hmem ↦ hall roles' (List.mem_cons_of_mem roles hmem)) _).post fun _ w hw ↦
        hw.mono fun w hw ↦ hw.mono fun roles' name hname ↦ ?_
    rcases hname with hname | ⟨hmem, hname⟩
    · exact .inl (.inl hname)
    · rcases List.mem_cons.mp hmem with rfl | hmem
      · exact .inl (.inr ⟨rfl, hname⟩)
      · exact .inr ⟨hmem, hname⟩

/-- No role holds a URI any longer. -/
structure Forgotten (gone : Set EntityRef) (w₀ : World) (uri : Uri) (w : World) : Prop where
  moored : Moored gone (.whole ∅) w
  stores_eq : w.stores = w₀.stores
  cleared : ∀ scope roles name, (w.state 0).rolesOf? scope = some roles → w.focusedIn roles name ≠ some uri

theorem Forgotten.depthFree : DepthFree (Forgotten gone w₀ uri) :=
  fun w d h ↦ ⟨Moored.depthFree w d h.moored, h.stores_eq, h.cleared⟩

/-- Where no role holds the URI of what was removed, all that is held is anchored without it. -/
theorem Forgotten.anchored (h : Forgotten (insert e gone) w₀ (w₀.uriOf e) w) : Moored gone (.whole ∅) w := by
  have hanchored := h.moored.anchored
  have huri : w.uriOf e = w₀.uriOf e := by rw [uriOf, entity, World.store, h.stores_eq, ← World.store, ← entity, ← uriOf]
  refine ⟨h.moored.setting, fun e' he' ↦ hanchored.known e' (Set.mem_insert_of_mem e he'),
    fun scope name j uri hj hvalue ↦ (hanchored.held scope name j uri hj hvalue).imp_left fun hexcused ↦ ?_⟩
  obtain ⟨e', he', heq⟩ := hexcused
  refine ⟨e', he'.resolve_left ?_, heq⟩
  rintro rfl
  obtain ⟨roles, hroles, hget⟩ := Option.bind_eq_some_iff.mp hj
  refine h.cleared scope roles name hroles ?_
  rw [focusedIn, hget, Option.bind_some, hvalue, ← heq, huri]

/-- What lets go of a URI lets go of it in all roles. -/
theorem agree_forget_all (hbusy : 0 < d ∨ f = true) (hw : Held (Moored gone (.whole ∅)) d f w₀) :
    Agree (· = w₀) (@forget D 0 uri) (@forget D' 0 uri) (fun _ ↦ Held (Forgotten gone w₀ uri) d f) fun _ ↦ False := by
  refine agree_get fun w hw₀ ↦ ?_
  subst hw₀
  let s := w.state 0
  have hall : ∀ roles ∈ s.allRoles, ∃ scope, s.rolesOf? scope = some roles := fun roles hmem ↦ by
    rcases List.mem_cons.mp hmem with rfl | hmem
    · exact ⟨none, rfl⟩
    · obtain ⟨own, hown, rfl⟩ := List.mem_map.mp hmem
      obtain ⟨name, hname⟩ := (Tables.mem_values _ own).mp hown
      refine ⟨some name, ?_⟩
      rw [State.rolesOf?, Std.TreeMap.get?_eq_getElem?, hname]
      rfl
  have hbody : Agree (Held (Clearing gone w uri fun _ _ ↦ False) (d + 1) f) (@forgetInAll D uri s.allRoles)
      (@forgetInAll D' uri s.allRoles) _ fun _ ↦ False :=
    agree_forgetInAll_cleared s.allRoles hall fun _ _ ↦ False
  refine Agree.pre ((agree_batch Clearing.depthFree Forgotten.depthFree (hbody.post fun _ w' hw' ↦ ?_)
    (fun hd hf ↦ ?_) fun _ h ↦ h).post fun _ _ hw' ↦ hw'.toHeld) fun w' hw' ↦ ?_
  · refine hw'.mono fun w' hw' ↦ ⟨hw'.moored, hw'.stores_eq, fun scope roles name hroles hheld ↦ ?_⟩
    rw [World.state, hw'.states_eq] at hroles
    have hmem : roles ∈ s.allRoles := by
      cases scope with
      | none =>
        obtain rfl := Option.some.inj hroles
        exact List.mem_cons_self
      | some scope =>
        obtain ⟨own, hown, rfl⟩ := Option.map_eq_some_iff.mp hroles
        exact List.mem_cons_of_mem _ (List.mem_map.mpr ⟨own, (Tables.mem_values _ own).mpr ⟨scope, hown⟩, rfl⟩)
    obtain ⟨j, hj, -⟩ := Option.bind_eq_some_iff.mp hheld
    refine hw'.cleared roles name (.inr ⟨hmem, ?_⟩) hheld
    rw [Std.TreeMap.mem_keys, Std.TreeMap.mem_iff_isSome_getElem?, ← Std.TreeMap.get?_eq_getElem?, hj]
    rfl
  · rcases hbusy with hpos | hflushing
    · exact absurd hd (Nat.ne_of_gt hpos)
    · exact Bool.noConfusion (hf.symm.trans hflushing)
  · subst hw'
    exact ⟨⟨hw.holds, rfl, rfl, fun _ _ h ↦ h.elim⟩, hw.depth_eq, hw.flushing_eq⟩

end Acts

end LiveGraph.Focus
