import LiveGraph.Proofs.Focus.Slots

/-!
# What the focus is read from

What a role holds is read from signals of the focus and from nothing else. Where those hold the same the same is
read again, and from the same signals. In a scope the number of scopes is always among them: by that a read learns
of the roles which the scope is given later.
-/

namespace LiveGraph

/-- A reading of signals alone: as long as those it was made from hold the same, it is made from them again and
comes to the same. -/
structure Reads.OfSignals {α : Type} (r : Reads α) : Prop where
  signal : ∀ w, ∀ t ∈ r.topics w, ∃ j, t = .signal j
  congr : ∀ w w', (∀ j, .signal j ∈ r.topics w → w'.valueOf j = w.valueOf j) → r w' = r w

namespace Reads.OfSignals

variable {α β : Type} {w w' : World}

theorem pure (a : α) : (Pure.pure a : Reads α).OfSignals :=
  ⟨fun _ _ h ↦ absurd h List.not_mem_nil, fun _ _ _ ↦ rfl⟩

theorem ofSignal (id : SignalId) : (Reads.signal id).OfSignals := by
  refine ⟨fun _ _ h ↦ ⟨id, List.mem_singleton.mp h⟩, fun w w' h ↦ ?_⟩
  have hvalue : w'.valueOf id = w.valueOf id := h id (List.mem_singleton_self _)
  exact Prod.ext hvalue rfl

theorem bind {r : Reads α} {f : α → Reads β} (hr : r.OfSignals) (hf : ∀ a, (f a).OfSignals) :
    (r >>= f).OfSignals := by
  refine ⟨fun w t ht ↦ ?_, fun w w' h ↦ ?_⟩
  · rcases List.mem_append.mp (Reads.topics_bind r f w ▸ ht) with ht | ht
    · exact hr.signal w t ht
    · exact (hf _).signal w t ht
  · rw [Reads.topics_bind] at h
    have hfirst : r w' = r w := hr.congr w w' fun j hj ↦ h j (List.mem_append_left _ hj)
    have hlater : f (r.value w) w' = f (r.value w) w :=
      (hf _).congr w w' fun j hj ↦ h j (List.mem_append_right _ hj)
    have hvalue : r.value w' = r.value w := congrArg Prod.fst hfirst
    have htopics : r.topics w' = r.topics w := congrArg Prod.snd hfirst
    refine Prod.ext ?_ ?_
    · change (r >>= f).value w' = (r >>= f).value w
      rw [Reads.value_bind, Reads.value_bind, hvalue]
      exact congrArg Prod.fst hlater
    · change (r >>= f).topics w' = (r >>= f).topics w
      rw [Reads.topics_bind, Reads.topics_bind, htopics, hvalue]
      exact congrArg (r.topics w ++ ·) (congrArg Prod.snd hlater)

end Reads.OfSignals

namespace Focus

theorem ofSignals_readIn (roles : Roles) (role : String) : (readIn roles role).OfSignals := by
  unfold readIn
  split
  · exact .pure _
  · exact .bind (.ofSignal _) fun _ ↦ .pure _

theorem ofSignals_owns (own : Override) (depth : Option Nat) : (owns own depth).OfSignals := by
  refine .bind (.ofSignal _) fun owned ↦ ?_
  split
  · exact .pure _
  · exact .pure _

theorem topics_readIn (roles : Roles) (role : String) (w : World) :
    (readIn roles role).topics w = ((roles.get? role).map Topic.signal).toList := by
  unfold readIn
  split
  · rename_i hnone
    rw [hnone]
    rfl
  · rename_i hsome
    rw [hsome]
    rfl

theorem topics_owns (own : Override) (depth : Option Nat) (w : World) :
    (owns own depth).topics w = [.signal own.ownedFrom] := by
  rw [owns, Reads.topics_bind]
  split <;> rfl

end Focus

namespace State

open Focus

/-- What a role holds for a scope, by the roles of a debug state. -/
def reading (s : State) (scope : Option String) (role : String) : Reads (Option Uri) :=
  match scope with
  | none => readIn s.roles role
  | some scope => do
    let _ ← Reads.signal s.scopes
    match s.overrides.get? scope with
    | none => readIn s.roles role
    | some own =>
      match ← readIn own.roles role with
      | some uri => return some uri
      | none =>
        if ← owns own (s.schema.roleDepth role) then return none
        else readIn s.roles role

variable (s : State) (scope : Option String) (role : String)

theorem ofSignals_reading : (s.reading scope role).OfSignals := by
  cases scope with
  | none => exact ofSignals_readIn s.roles role
  | some scope =>
    refine .bind (.ofSignal _) fun _ ↦ ?_
    split
    · exact ofSignals_readIn s.roles role
    · rename_i own _
      refine .bind (ofSignals_readIn own.roles role) fun held ↦ ?_
      cases held with
      | some uri => exact .pure _
      | none =>
        refine .bind (ofSignals_owns own _) fun owned ↦ ?_
        cases owned with
        | true => exact .pure _
        | false => exact ofSignals_readIn s.roles role

/-- In a scope it is read how many scopes there are. -/
theorem scopes_mem_topics (scope : String) (w : World) :
    Topic.signal s.scopes ∈ (s.reading (some scope) role).topics w :=
  List.mem_cons_self

/-- The signals that are read are signals of the focus. -/
theorem slot_of_mem_topics {w : World} {j : SignalId} (h : Topic.signal j ∈ (s.reading scope role).topics w) :
    ∃ slot, s.slot? slot = some j := by
  have hrole : ∀ {scope' : Option String} {roles : Roles}, s.rolesOf? scope' = some roles →
      Topic.signal j ∈ (readIn roles role).topics w → ∃ slot, s.slot? slot = some j := by
    intro scope' roles hroles hmem
    rw [topics_readIn, Option.mem_toList, Option.map_eq_some_iff] at hmem
    obtain ⟨j', hj', hsame⟩ := hmem
    obtain rfl := Topic.signal.inj hsame
    exact ⟨.role scope' role, by rw [slot?, hroles, Option.bind_some, hj']⟩
  have hglobal : Topic.signal j ∈ (readIn s.roles role).topics w → ∃ slot, s.slot? slot = some j :=
    hrole (show s.rolesOf? none = _ from rfl)
  cases scope with
  | none => exact hglobal h
  | some scope =>
    rw [reading, Reads.topics_bind] at h
    rcases List.mem_append.mp h with h | h
    · obtain rfl := Topic.signal.inj (List.mem_singleton.mp h)
      exact ⟨.scopes, rfl⟩
    · cases hown : s.overrides.get? scope with
      | none =>
        rw [hown] at h
        exact hglobal h
      | some own =>
        simp only [hown, Reads.topics_bind] at h
        rcases List.mem_append.mp h with h | h
        · exact hrole (show s.rolesOf? (some scope) = _ by rw [rolesOf?, hown, Option.map_some]) h
        · cases hheld : (readIn own.roles role).value w with
          | some uri =>
            rw [hheld] at h
            exact absurd h List.not_mem_nil
          | none =>
            simp only [hheld, Reads.topics_bind, topics_owns] at h
            rcases List.mem_append.mp h with h | h
            · obtain rfl := Topic.signal.inj (List.mem_singleton.mp h)
              exact ⟨.owned scope, slot?_owned hown⟩
            · split at h
              · exact absurd h List.not_mem_nil
              · exact hglobal h

end State

/-- What is read of a focus is read by the roles there are by then. -/
theorem Focus.read_eq_reading (id : StateId) (scope : Option String) (role : String) (w : World) :
    Focus.read id scope role w = (w.state id).reading scope role w := by
  cases scope <;> rfl

end LiveGraph
