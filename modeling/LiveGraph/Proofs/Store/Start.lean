import LiveGraph.Proofs.Store.Backdrop
import LiveGraph.Proofs.Store.Properties

/-!
# Where a session starts

A session starts with an empty store, the callback that clears roles, and the index of sources, which
has no entries. No signal is watched.
-/

namespace LiveGraph

theorem Steady.addRoles (w : World) (owner : Owner) (roles : List String) :
    Steady w (w.addRoles owner roles).2 := by
  induction roles generalizing w with
  | nil => exact .of_eq rfl rfl fun _ ↦ rfl
  | cons role rest ih => exact (Steady.addSignal .nil .same owner).trans (ih _)

theorem Aloof.addRoles (w : World) (owner : Owner) (roles : List String) :
    Aloof w (w.addRoles owner roles).2 := by
  induction roles generalizing w with
  | nil => exact .refl w
  | cons role rest ih => exact (Aloof.addSignal w .nil .same owner).trans (ih _)

/-- New roles are held by new signals, of the owner that they are given. -/
theorem World.owner_addRoles (w : World) (owner : Owner) (names : List String) :
    (∀ id < (w.addRoles owner names).2.signals.size, w.signals.size ≤ id →
      ((w.addRoles owner names).2.signal id).owner = owner) ∧
    ∀ role id, (w.addRoles owner names).1.get? role = some id →
      w.signals.size ≤ id ∧ id < (w.addRoles owner names).2.signals.size := by
  induction names generalizing w with
  | nil =>
    refine ⟨fun id hlt hle ↦ absurd hlt (Nat.not_lt.mpr hle), fun role id hid ↦ ?_⟩
    have hnone : (∅ : Roles).get? role = none := Std.TreeMap.getElem?_emptyc
    exact absurd (hid.symm.trans hnone) (Option.some_ne_none _)
  | cons name rest ih =>
    let w₁ := (w.addSignal .nil .same owner).2
    obtain ⟨howners, hroles⟩ := ih w₁
    have hrest := Aloof.addRoles w₁ owner rest
    have hsize : w₁.signals.size = w.signals.size + 1 := w.size_addSignal .nil .same owner
    have hlt : w.signals.size < w₁.signals.size := hsize ▸ Nat.lt_succ_self _
    refine ⟨fun id hid hle ↦ ?_, fun role id hid ↦ ?_⟩
    · rcases Nat.eq_or_lt_of_le hle with rfl | hlater
      · refine (hrest.owner_eq _ hlt).trans ?_
        rw [w.signal_addSignal, if_pos rfl]
      · exact howners id hid (hsize ▸ hlater)
    · change ((w₁.addRoles owner rest).1.insertIfNew name w.signals.size).get? role = some id at hid
      rw [Std.TreeMap.get?_eq_getElem?, Std.TreeMap.getElem?_insertIfNew] at hid
      split at hid
      · obtain rfl := Option.some.inj hid
        exact ⟨Nat.le_refl _, Nat.lt_of_lt_of_le hlt hrest.signals_le⟩
      · obtain ⟨hle, hlt'⟩ := hroles role id hid
        exact ⟨Nat.le_trans (Nat.le_of_lt hlt) hle, hlt'⟩

variable (schema : Schema) (keepsFirst : Bool)

/-- The store and the views that there are at first. -/
theorem start_parts : (Session.start schema keepsFirst).store 0 = { Store.empty with
      listeners := { Store.empty.listeners with removed := Watchers.empty.add (.forget 0) }
      indices := Store.empty.indices.insert Breakpoint.sourceIndex
        (.new Breakpoint.sourceKind Breakpoint.sourceExtractor) } ∧
    (Session.start schema keepsFirst).views = #[] := by
  let w₀ : World := { World.empty with stores := #[.empty] }
  obtain ⟨signals, hsignals⟩ := w₀.addRoles_eq (.state 0) schema.roles
  unfold Session.start World.addState
  dsimp only
  rw [show ({ World.empty with stores := World.empty.stores.push .empty } : World).addRoles
    (.state World.empty.states.size) schema.roles = (_, { w₀ with signals := signals }) from
      Prod.ext rfl hsignals]
  exact ⟨rfl, rfl⟩

/-- The one debug state that there is at first. -/
theorem start_states : ∃ scopes, (Session.start schema keepsFirst).states = #[⟨0, schema,
    (({ World.empty with stores := #[.empty] } : World).addRoles (.state 0) schema.roles).1, ∅,
    scopes, ∅, 0⟩] := by
  let w₀ : World := { World.empty with stores := #[.empty] }
  obtain ⟨signals, hsignals⟩ := w₀.addRoles_eq (.state 0) schema.roles
  unfold Session.start World.addState
  dsimp only
  rw [show ({ World.empty with stores := World.empty.stores.push .empty } : World).addRoles
    (.state World.empty.states.size) schema.roles =
      ((w₀.addRoles (.state 0) schema.roles).1, { w₀ with signals := signals }) from
        Prod.ext rfl hsignals]
  exact ⟨_, rfl⟩

/-- There are no names at first. -/
theorem start_session : (Session.start schema keepsFirst).session =
    { (default : Session) with
      current := 0
      kept := if keepsFirst then some 0 else none
      schema := schema } := by
  let w₀ : World := { World.empty with stores := #[.empty] }
  obtain ⟨signals, hsignals⟩ := w₀.addRoles_eq (.state 0) schema.roles
  unfold Session.start World.addState
  dsimp only
  rw [show ({ World.empty with stores := World.empty.stores.push .empty } : World).addRoles
    (.state World.empty.states.size) schema.roles =
      ((w₀.addRoles (.state 0) schema.roles).1, { w₀ with signals := signals }) from
        Prod.ext rfl hsignals]
  rfl

/-- All signals that there are at first are of the debug state. -/
theorem behind_start : (Session.start schema keepsFirst).Behind
    (Session.start schema keepsFirst).background := by
  let w₀ : World := { World.empty with stores := #[.empty] }
  let w₁ := (w₀.addRoles (.state 0) schema.roles).2
  let w₂ := (w₁.addSignal (.int 0) .same (.state 0)).2
  obtain ⟨howners, hroles⟩ := w₀.owner_addRoles (.state 0) schema.roles
  have hsize : w₂.signals.size = w₁.signals.size + 1 := w₁.size_addSignal _ _ _
  have howner : ∀ id < w₂.signals.size, (w₂.signal id).owner = .state 0 := fun id hid ↦ by
    rw [w₁.signal_addSignal]
    split
    · rfl
    · rename_i hne
      rw [hsize] at hid
      exact howners id (Nat.lt_of_le_of_ne (Nat.le_of_lt_succ hid) hne) (Nat.zero_le id)
  have hsignal : ∀ id, (Session.start schema keepsFirst).signal id = w₂.signal id := fun _ ↦ rfl
  refine ⟨rfl, fun id hid ↦ ⟨0, hsignal id ▸ howner id ?_⟩, ?_⟩
  · rw [hsize]
    rcases hid with rfl | ⟨n, roles, hmem, role, hid⟩
    · exact Nat.succ_pos _
    · obtain ⟨scopes, hstates⟩ := start_states schema keepsFirst
      rw [World.state, hstates, State.allRoles] at hmem
      cases n with
      | zero =>
        obtain rfl := List.mem_singleton.mp hmem
        exact Nat.lt_succ_of_lt (hroles role id hid).2
      | succ n =>
        obtain rfl := List.mem_singleton.mp hmem
        have hnone : (∅ : Roles).get? role = none := Std.TreeMap.getElem?_emptyc
        exact absurd (hid.symm.trans hnone) (Option.some_ne_none _)
  · rw [(start_parts schema keepsFirst).1]
    rfl

theorem not_isLive_start (e : EntityRef) : ¬(Session.start schema keepsFirst).IsLive 0 e := by
  intro he
  obtain ⟨-, hpos, hle, -⟩ := (World.isLive_iff_entity e).mp he
  have hsize : ((Session.start schema keepsFirst).store 0).incarnations.size = 0 := by
    rw [(start_parts schema keepsFirst).1]
    rfl
  rw [hsize] at hle
  exact Nat.not_le_of_gt hpos hle

theorem tied_start : (Session.start schema keepsFirst).Tied := by
  let w₀ : World := { World.empty with stores := #[.empty] }
  have hroles : Steady w₀ (w₀.addRoles (.state 0) schema.roles).2 := .addRoles _ _ _
  have hscopes := hroles.trans (.addSignal (.int 0) .same (.state 0))
  have hempty : ∀ id, ((Session.start schema keepsFirst).signal id).watchers.entries = [] :=
    fun id ↦ hscopes.entries_eq id (Nat.zero_le id)
  have hnone := not_isLive_start schema keepsFirst
  exact ⟨fun e prop id hid ↦ absurd hid.1 (hnone e), fun id hid ↦ absurd (hempty id) hid,
    fun e he ↦ absurd he (hnone e)⟩

end LiveGraph
