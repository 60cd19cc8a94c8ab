import LiveGraph.Proofs.Focus.Tending
import LiveGraph.Proofs.Store.Start

/-!
# A focus never dangles

Whatever code does to a store and to its focus, in whatever order and from within whichever listener: whenever no
batch is open, every URI that is held in a role, for all or in a scope, names a live entity of that type. The code
is compared with itself under observation, which never comes back from a look at a focus that dangles.
-/

namespace LiveGraph.Tending

open World Act Focus

/-- Every URI that is held in a role names a live entity whose type is that role. -/
def Intact (w : World) : Prop :=
  ∀ scope role uri, (holding w 0 scope).roles role = some uri → ∃ e, w.find? 0 uri = some e ∧ w.kindOf e = role

/-- Where nothing is left to be told of, no role dangles. -/
theorem intact_of_moored {w : World} (h : Moored ∅ (.whole ∅) w) : Intact w := fun scope role uri hheld ↦ by
  have hslot : ∃ j, (w.state 0).slot? (.role scope role) = some j ∧ (w.valueOf j).asStr? = some uri := by
    cases scope with
    | none => exact Option.bind_eq_some_iff.mp hheld
    | some scope =>
      cases hown : (w.state 0).overrides.get? scope with
      | none =>
        rw [holding_of_none hown] at hheld
        cases hheld
      | some own =>
        rw [holding_of_some hown] at hheld
        obtain ⟨j, hj, hvalue⟩ := Option.bind_eq_some_iff.mp hheld
        refine ⟨j, ?_, hvalue⟩
        rw [State.slot?, State.rolesOf?, hown, Option.map_some]
        exact hj
  obtain ⟨j, hj, hvalue⟩ := hslot
  rcases h.anchored.held scope role j uri hj hvalue with ⟨e, hmem, -⟩ | hlive
  · exact hmem.elim
  · exact hlive

/-- What calls come to for code that reacts to what it is told. -/
@[reducible]
def dispatch (react : String → Event → Client Tending) (n : Nat) : Dispatch :=
  Client.dispatch Tending.perform react n

/-- At every look outside of all batches no role dangles. -/
def Sound (w : World) : Prop :=
  w.depth = 0 → Intact w

theorem tended_dispatch (react : String → Event → Client Tending) (n : Nat) :
    Tended (dispatch react n) (dispatch (fun name event ↦ (react name event).checked Sound) n) := by
  induction n with
  | zero => exact ⟨rfl, fun _ _ _ _ _ _ _ _ _ _ ↦ ⟨rfl, trivial⟩, fun _ _ _ _ _ _ _ ↦ ⟨rfl, trivial⟩⟩
  | succ n ih =>
    refine ⟨(Client.rounds_dispatch _ _ n).trans (Client.rounds_dispatch _ _ n).symm,
      fun gone callback event d f husual hbusy hgone ↦ ?_, fun gone e d f hdepth ↦ ?_⟩
    · by_cases hscript : ∃ name filter reaction, callback = .script name filter reaction
      · obtain ⟨name, filter, reaction, rfl⟩ := hscript
        rw [dispatch, Client.call_script, dispatch, Client.call_script]
        refine agree_get fun w hw ↦ agree_ite (fun _ ↦ ?_) fun _ ↦ agree_pure fun w' hw' ↦ hw' ▸ hw
        have hgone' : ∀ d', d ≤ d' → d' = 0 → gone = ∅ := fun d' hle hd ↦ hgone (Nat.le_zero.mp (hd ▸ hle))
        refine (Client.agree_run_checked_from Moored.depthFree
          (fun op d' (hle : d ≤ d') ↦ ih.agree_perform (hgone' d' hle) op) (fun hd _ ↦ ?_) (fun d' w hle hw hd ↦ ?_)
          (react name event) d (Nat.le_refl d)).mono (fun w' hw' ↦ hw' ▸ hw.at_busy hbusy) (fun _ _ hw ↦ hw.toHeld)
          fun _ hw ↦ hw
        · obtain rfl := hgone hd
          exact ih.agree_flush
        · obtain rfl := hgone' d' hle (hw.depth_eq.symm.trans hd)
          exact intact_of_moored hw.holds
      · have hother : ∀ name filter reaction, callback ≠ .script name filter reaction :=
          fun name filter reaction heq ↦ hscript ⟨name, filter, reaction, heq⟩
        rw [dispatch, Client.call_other _ _ _ _ _ hother, dispatch, Client.call_other _ _ _ _ _ hother]
        exact (ih.agree_callback hbusy hgone callback event husual hother).mono (fun _ h ↦ h) (fun _ _ h ↦ h)
          fun _ h ↦ h.elim
    · have hother : ∀ name filter reaction, Callback.forget 0 ≠ .script name filter reaction := fun _ _ _ heq ↦
        Callback.noConfusion heq
      rw [dispatch, Client.call_other _ _ _ _ _ hother, dispatch, Client.call_other _ _ _ _ _ hother]
      exact agree_forget_removed hdepth e

section Start

variable (schema : Schema) (keepsFirst : Bool)

/-- All signals that there are at first are of the focus, hold nothing and are not watched. -/
theorem signal_start {j : SignalId} (hj : j < (Session.start schema keepsFirst).signals.size) :
    ((Session.start schema keepsFirst).signal j).owner = .state 0 ∧
      ((Session.start schema keepsFirst).signal j).watchers.entries = [] ∧
        ((Session.start schema keepsFirst).valueOf j).asStr? = none := by
  let w₀ : World := { World.empty with stores := #[.empty] }
  let w₁ := (w₀.addRoles (.state 0) schema.roles).2
  have hsize : (Session.start schema keepsFirst).signals.size = w₁.signals.size + 1 := w₁.size_addSignal _ _ _
  have hsignal : (Session.start schema keepsFirst).signal j = _ := w₁.signal_addSignal (.int 0) .same (.state 0) j
  rw [valueOf, hsignal]
  split
  · exact ⟨rfl, rfl, rfl⟩
  · rename_i hne
    rw [hsize] at hj
    rw [w₀.signal_addRoles_new (.state 0) schema.roles (Nat.zero_le j) (Nat.lt_of_le_of_ne (Nat.le_of_lt_succ hj) hne)]
    exact ⟨rfl, rfl, rfl⟩

/-- At first nothing is held. -/
theorem moored_start : At (Moored ∅ (.whole ∅)) 0 false (Session.start schema keepsFirst) := by
  have hground := ground_start schema keepsFirst
  obtain ⟨hstore, hviews⟩ := start_parts schema keepsFirst
  obtain ⟨scopes, hstates⟩ := start_states schema keepsFirst
  have hsession := start_session schema keepsFirst
  have hsignal := fun j ↦ @signal_start schema keepsFirst j
  have hready := ready_withState .empty (.inr fun _ _ ↦ ⟨rfl, rfl⟩) schema (World.empty.addState schema).2.stores
  have hsound : Focus.Sound (Session.start schema keepsFirst) 0 :=
    ⟨hready.state_lt, hready.lt_size, hready.undisposed, hready.equality_eq, hready.injective⟩
  have hderiveds := hground.holds.2.noDeriveds
  have hdepth := hground.depth_eq
  have hflushing := hground.flushing_eq
  have hidle := hground.idle
  have hplain := hground.holds.2
  have hwhole : OnGround (.whole ∅) (Session.start schema keepsFirst) := hground.holds.1
  have hnone := not_isLive_start schema keepsFirst
  generalize Session.start schema keepsFirst = w at *
  have hlisteners : ∀ event, ((w.store 0).listeners.get event).entries =
      if event = .removed then [(1, .forget 0)] else [] := fun event ↦ by
    rw [hstore]
    cases event <;> rfl
  refine ⟨⟨⟨⟨hwhole, hplain, hviews, ?_, ?_, ?_, hsound, fun j hj ↦ ?_,
    (hsignal _ (hsound.lt_size .scopes _ rfl)).2.1, fun e he ↦ absurd he (hnone e), fun channel entry hmem ↦ ?_, ?_⟩,
    ⟨fun _ h ↦ h.elim, fun scope name j uri hj hvalue ↦ ?_⟩⟩, hdepth, hflushing⟩, hidle⟩
  · rw [hstore]
    rfl
  · rw [hsession]
  · rw [World.state, hstates]
    rfl
  · obtain ⟨slot, hslot⟩ := hj
    exact (hsignal j (hsound.lt_size slot j hslot)).1
  · cases channel with
    | signal j =>
      change entry ∈ (w.signal j).watchers.entries at hmem
      by_cases hj : j < w.signals.size
      · rw [(hsignal j hj).2.1] at hmem
        exact absurd hmem List.not_mem_nil
      · rw [w.signal_of_size_le (Nat.le_of_not_lt hj)] at hmem
        exact absurd hmem List.not_mem_nil
    | derived id =>
      rw [watchers, derived, hderiveds] at hmem
      exact absurd hmem List.not_mem_nil
    | view id =>
      rw [watchers, view, hviews] at hmem
      exact absurd hmem List.not_mem_nil
    | store s event =>
      by_cases hs : s = 0
      · subst hs
        rw [watchers, hlisteners] at hmem
        split at hmem
        · obtain rfl := List.mem_singleton.mp hmem
          rfl
        · exact absurd hmem List.not_mem_nil
      · rw [watchers, Ground.store_default hwhole hs] at hmem
        cases event <;> exact absurd hmem List.not_mem_nil
  · exact ⟨[], by rw [hstore]; rfl⟩
  · rw [(hsignal j (hsound.lt_size _ j hj)).2.2] at hvalue
    cases hvalue

end Start

/-- Runs code that begins with an empty store and nothing in focus, to a given depth. -/
def run (react : String → Event → Client Tending) (n : Nat) (c : Client Tending) : Act Unit :=
  @Client.run _ (dispatch react n) (@perform (dispatch react n)) c

/-- Runs code under observation, and so are all its listeners. -/
noncomputable def watched (react : String → Event → Client Tending) (n : Nat) (c : Client Tending) : Act Unit :=
  run (fun name event ↦ (react name event).checked Sound) n (c.checked Sound)

/-- Whatever code does to a store and its focus, and from within whichever listener: whenever it looks outside of all
batches, and at its end, also when that is a crash, every URI that is held in a role names a live entity of that
type. Code does the same under an observation that would stop it at a focus that dangles. -/
theorem focus_never_dangles (react : String → Event → Client Tending) (n : Nat) (c : Client Tending) (schema : Schema)
    (keepsFirst : Bool) :
    run react n c (Session.start schema keepsFirst) = watched react n c (Session.start schema keepsFirst) ∧
      ∀ w, run react n c (Session.start schema keepsFirst) = .ok () w ∨
        run react n c (Session.start schema keepsFirst) = .error .crash w → w.depth = 0 ∧ Intact w := by
  have htended := tended_dispatch react n
  have hrun := Client.agree_run_checked (P := Sound) (f := false) Moored.depthFree
    (fun op d f ↦ htended.agree_perform (d := d) (f := f) (fun _ ↦ rfl) op) htended.agree_flush
    (fun d w hw _ ↦ intact_of_moored hw.holds) c 0
  obtain ⟨heq, hout⟩ := hrun _ (moored_start schema keepsFirst)
  refine ⟨heq, fun w hw ↦ ?_⟩
  change Act.Outcome _ _ (run react n c (Session.start schema keepsFirst)) at hout
  rcases hw with hw | hw <;> rw [hw] at hout
  · exact ⟨hout.depth_eq, intact_of_moored hout.holds⟩
  · exact ⟨hout.depth_eq, intact_of_moored hout.holds⟩

end LiveGraph.Tending
