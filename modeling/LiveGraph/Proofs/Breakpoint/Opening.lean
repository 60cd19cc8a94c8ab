import LiveGraph.Proofs.Breakpoint.Toggling
import LiveGraph.Proofs.Focus.Intact

/-!
# Opening a snapshot

A new debug state has nobody to do with it, and what is restored into it leaves that so. Then the service goes by the
roster of the snapshot's normal form.
-/

namespace LiveGraph

open Act World

namespace Snapshot

variable {w : World} {id : StateId}

/-- Restoring with the focus is restoring without it, and focusing what was focused. -/
theorem restore_focused [Dispatch] (snapshot : Snapshot) (id : StateId) : snapshot.restore id true = do
    match ← snapshot.restore id false with
    | .error why => return .error why
    | .ok () =>
      focusAll id snapshot.focus
      return .ok () := by
  funext w
  simp only [restore, bind_run, get_run]
  split
  · rename_i added w₁ _
    cases added <;> rfl
  · rfl

end Snapshot

namespace Breakpoint

/-- Who works on a debug state is nothing to it. -/
theorem Secluded.withSession {w : World} (h : Secluded w) {session : Session}
    (hcurrent : session.current < w.states.size ∧ (w.state session.current).store = 0) :
    Secluded { w with session := session } := by
  have hindexed := h.editable.indexed.aside session w.states w.pins hcurrent fun _ ↦ rfl
  exact h.changed (h.editable.unmoved hindexed (Nat.le_refl _) fun _ _ hcurrent ↦
    ⟨hcurrent, rfl, fun _ _ ↦ ⟨rfl, rfl, rfl⟩⟩) rfl rfl rfl (Nat.le_refl _) (fun _ _ _ ↦ rfl) rfl

variable (schema : Schema)

/-- A session starts with a debug state by itself. -/
theorem settled_start (keepsFirst : Bool) : Settled (Session.start schema keepsFirst) := by
  have hmoored := Tending.moored_start schema keepsFirst
  have hindexed := indexed_start (· = sourceIndex) schema keepsFirst
  have hsetting := hmoored.holds.setting
  have hnone := not_isLive_start schema keepsFirst
  have hdefinitions : (Session.start schema keepsFirst).definitions sourceIndex =
      some (sourceKind, sourceExtractor) := by
    rw [World.definitions, (start_parts schema keepsFirst).1, Std.TreeMap.getElem?_insert_self]
    rfl
  have hready := Focus.ready_withState .empty (.inr fun _ _ ↦ ⟨rfl, rfl⟩) schema (World.empty.addState schema).2.stores
  have hbusy : ¬(Session.start schema keepsFirst).Busy := fun hbusy ↦ hbusy.elim
    (fun hpos ↦ Nat.lt_irrefl 0 (hindexed.depth_eq ▸ hpos))
    fun hflushing ↦ Bool.noConfusion (hindexed.flushing_eq.symm.trans hflushing)
  have hunheard := (hready.calm.resolve_left hbusy).2
  obtain ⟨scopes, hstates⟩ := start_states schema keepsFirst
  refine ⟨⟨⟨?_, fun e he hcurrent ↦ ?_⟩, hsetting.sound, fun slot j hj ↦ ?_, hsetting.store_eq, ?_⟩, hindexed.depth_eq,
    hindexed.flushing_eq, (hindexed.idle hindexed.depth_eq hindexed.flushing_eq).2, fun path ↦ ?_⟩
  · refine { hindexed.holds with defined := ?_ }
    rintro _ rfl
    exact hdefinitions
  · exact absurd (hindexed.holds.isLive he hcurrent) (hnone e)
  · have hlt := hsetting.sound.lt_size slot j hj
    obtain ⟨howner, hentries, -⟩ := Tending.signal_start schema keepsFirst hlt
    exact ⟨hunheard slot j hj, howner⟩
  · rw [(start_parts schema keepsFirst).1]
    rfl
  · rw [World.state, hstates]
    rfl

/-- A new debug state by itself. -/
def fresh (schema : Schema) : World :=
  (World.empty.addState schema).2

theorem fresh_eq : fresh schema = { Session.start schema false with session := (fresh schema).session } := rfl

theorem session_fresh : (fresh schema).session = World.empty.session := by
  let w₀ : World := { World.empty with stores := #[.empty] }
  obtain ⟨signals, hsignals⟩ := w₀.addRoles_eq (.state 0) schema.roles
  change (w₀.addRoles (.state 0) schema.roles).2.session = _
  rw [hsignals]

theorem settled_fresh : Settled (fresh schema) := by
  have hstart := settled_start schema false
  rw [fresh_eq, session_fresh]
  exact ⟨hstart.withSession ⟨hstart.focus.state_lt, hstart.store_eq⟩, hstart.depth_eq, hstart.flushing_eq,
    hstart.effects_eq, hstart.line_eq⟩

theorem vacant_fresh : Vacant 0 (fresh schema) := by
  have hstart := vacant_start schema false
  rw [fresh_eq]
  exact ⟨⟨hstart.lt_size, hstart.coherent, hstart.clocks_eq, hstart.added_eq, hstart.edgeAdded_eq, hstart.lt_signals⟩,
    hstart.empty, .inr (settled_fresh schema).idle⟩

/-- A snapshot in which no URI repeats, and no other, can be opened; the service goes by its normal form then. -/
theorem ends_restore_fresh [Dispatch] (hrounds : 0 < Dispatch.rounds) (snapshot : Snapshot) :
    (snapshot.restore 0 true).Ends (fresh schema) fun r w ↦
      (r = .ok () ↔ (snapshot.entities.map (·.uri)).Nodup) ∧
        (r = .ok () → Settled w ∧ roster w = rosterOf snapshot.normal) := by
  have hvacant := vacant_fresh schema
  have hstart := settled_fresh schema
  rw [Snapshot.restore_focused]
  refine (Snapshot.ends_restore hrounds hvacant snapshot).bind fun r w₁ hw₁ ↦ ?_
  obtain ⟨hgrown, -, hdone⟩ := hw₁
  have hnodup : Snapshot.repeated? [] (snapshot.entities.map (·.uri)) = none ↔ _ :=
    Snapshot.repeated?_eq_none List.nodup_nil
  cases hrepeated : Snapshot.repeated? [] (snapshot.entities.map (·.uri)) with
  | some uri =>
    obtain rfl := hdone.refused uri hrepeated
    refine ends_pure ⟨iff_of_false (by simp) fun huris ↦ ?_, fun hok ↦ absurd hok (by simp)⟩
    exact absurd (hrepeated.symm.trans (hnodup.mpr huris)) (Option.some_ne_none uri)
  | none =>
    obtain ⟨rfl, hcontents⟩ := hdone.taken hrepeated
    rw [hstart.store_eq] at hgrown hcontents
    have hworked := hstart.grown hgrown (.inl hstart.effects_eq)
    have hsettled : Settled w₁ := hstart.worked hworked (hgrown.effects_eq.trans hstart.effects_eq)
    refine (hsettled.ends_focusAll hrounds snapshot.focus).bind fun _ w₂ hw₂ ↦
      ends_pure ⟨iff_of_true rfl (hnodup.mp hrepeated), fun _ ↦ ⟨hw₂.1, ?_⟩⟩
    rw [hw₂.2, ← rosterOf_contents, hcontents]

end Breakpoint

end LiveGraph
