import LiveGraph.Proofs.Focus.RoundTrip
import LiveGraph.Proofs.Graph.Axes

/-!
# Stepping along the stack

With the debugger's schema a frame has an anchor at each offset along the frames of its thread, and a thread along
the threads of its session. To focus what an anchor stands for and to step on from there is to step by the sum.
-/

namespace LiveGraph

namespace Focus

open World Act

variable {w₀ w w' : World} {id : StateId} {roles : Roles} {schema : Schema}

theorem roleDepth_inj {role role' : String} {d : Nat} (h : schema.roleDepth role = some d)
    (h' : schema.roleDepth role' = some d) : role = role' := by
  rw [Schema.roleDepth, List.findIdx?_eq_some_iff_getElem] at h h'
  obtain ⟨hlt, hrole, -⟩ := h
  obtain ⟨_, hrole', -⟩ := h'
  exact (of_decide_eq_true hrole).symm.trans (of_decide_eq_true hrole')

theorem exists_roleDepth {role : String} (h : role ∈ schema.roles) : ∃ d, schema.roleDepth role = some d := by
  rw [← Option.isSome_iff_exists, Schema.roleDepth, List.findIdx?_isSome, List.any_eq_true]
  exact ⟨role, h, decide_eq_true rfl⟩

/-- There is an entity of a type at a URI. -/
def Names (w : World) (s : StoreId) (uri : Uri) (kind : String) : Prop :=
  ∃ e, w.find? s uri = some e ∧ w.kindOf e = kind

theorem Names.congr {s : StoreId} {uri : Uri} {kind : String} (h : Names w s uri kind)
    (hstores : w'.stores = w.stores) : Names w' s uri kind := by
  obtain ⟨e, hfind, hkind⟩ := h
  refine ⟨e, ?_, ?_⟩
  · rw [find?, World.store, hstores]
    exact hfind
  · rw [Reads.OfStores.kindOf hstores]
    exact hkind

/-- What is held in the roles of the schema for all are entities of their types. -/
def Kinded (w : World) (id : StateId) : Prop :=
  ∀ role ∈ (w.state id).schema.roles, ∀ uri, (holding w id none).roles role = some uri →
    Names w (w.state id).store uri role

/-- What a role holds after a focus it held before, or it is an entity of its type. -/
theorem Propagated.named {uri : Uri} {e : EntityRef} {depth : Nat} {s : StoreId}
    (h : Propagated schema roles uri e depth w w') (hw : w.Integral s) (hfind : w.find? s uri = some e)
    (hdepth : schema.roleDepth (w.kindOf e) = some depth) {role : String} (hrole : role ∈ schema.roles) {v : Uri}
    (hv : w'.focusedIn roles role = some v) : w.focusedIn roles role = some v ∨ Names w s v role := by
  obtain ⟨d, hd⟩ := exists_roleDepth hrole
  rcases Nat.lt_trichotomy d depth with hlt | rfl | hlt
  · rw [h.above role d hd hlt, Option.or_eq_some_iff] at hv
    rcases hv with hv | ⟨-, hv⟩
    · obtain ⟨a, ha, rfl⟩ := Option.map_eq_some_iff.mp hv
      have hmem := List.mem_reverse.mp (List.mem_of_find?_eq_some ha)
      have hstore : e.store = s := (live_of_find? hfind).1
      rw [hstore] at hmem
      refine .inr ⟨a, ?_, by simpa using List.find?_some ha⟩
      exact schema.find?_of_mem_chain (fun uri a hfound ↦ ((hw.find_iff uri a).mp hfound).2) e Schema.maxSteps e []
        (fun a ha ↦ absurd ha List.not_mem_nil) a hmem
    · exact .inl hv
  · obtain rfl := roleDepth_inj hd hdepth
    rw [h.own] at hv
    obtain rfl := Option.some.inj hv
    exact .inr ⟨e, hfind, rfl⟩
  · rw [h.below role d hd hlt, Option.filter_eq_some_iff] at hv
    exact .inl hv.1

section Calls

variable [Dispatch] (hrounds : 0 < Dispatch.rounds)
include hrounds

/-- What a role holds for all after a call it held before, or it is an entity of its type. -/
theorem ends_perform_named {d : Nat} (h : Poised id d w₀ w) (hnodup : (w.state id).schema.roles.Nodup)
    (hw : w.Integral (w.state id).store) (call : Call) :
    (call.perform id).Ends w fun _ w' ↦ ∀ role ∈ (w.state id).schema.roles, ∀ uri,
      (holding w' id none).roles role = some uri →
        (holding w id none).roles role = some uri ∨ Names w (w.state id).store uri role := by
  have hsame : ∀ w', holding w' id none = holding w id none → ∀ role ∈ (w.state id).schema.roles, ∀ uri,
      (holding w' id none).roles role = some uri →
        (holding w id none).roles role = some uri ∨ Names w (w.state id).store uri role :=
    fun w' heq role _ uri huri ↦ .inl (heq ▸ huri)
  cases call with
  | focus uri =>
    have hroles : (w.state id).rolesOf? none = some (w.state id).roles := rfl
    refine ends_get ((ends_apply_of hrounds h hroles uri (Q := fun _ _ w' ↦
      ∀ role ∈ (w.state id).schema.roles, ∀ v, w'.focusedIn (w.state id).roles role = some v →
        (holding w id none).roles role = some v ∨ Names w (w.state id).store v role) (fun e depth hfound ↦ ?_)
        fun _ _ _ _ hQ ↦ hQ).bind fun depth? w' happlied ↦ ends_pure ?_)
    · obtain ⟨hfind, hdepth⟩ := found?_eq_some_iff.mp hfound
      have hstore : e.store = (w.state id).store := (live_of_find? hfind).1
      have hparents : ((w.state id).schema.ancestors e.store e).value (w.setDepth (w.depth + 1)) =
          ((w.state id).schema.ancestors (w.state id).store e).value w := by
        rw [hstore]
        exact Reads.OfStores.chain _ _ e Schema.maxSteps e [] w (w.setDepth _) rfl
      obtain ⟨w₁, hmove, hpropagated⟩ := move_run (w := w.setDepth (w.depth + 1)) (e := e)
        ((h.toSound.separate hroles).setDepth _) (Nat.succ_pos _) hnodup
        (h.complete none _ hroles) hdepth uri rfl hparents
      exact ⟨(), w₁, hmove _, fun role hrole v hv ↦ hpropagated.setDepth.named hw hfind hdepth hrole hv⟩
    · obtain ⟨hkept, hnone, hsome⟩ := happlied
      cases depth? with
      | none =>
        rw [hnone rfl]
        exact hsame w rfl
      | some depth =>
        obtain ⟨e, -, hnamed⟩ := hsome depth rfl
        intro role hrole v hv
        rw [holding, hkept.state_eq] at hv
        exact hnamed role hrole v hv
  | unfocus role =>
    have hwrite := ends_write hrounds h.ready (P := ((w.state id).roles.get? role = some ·))
      (fun j hj ↦ ⟨.role none role, hj⟩) (fun _ hj ↦ hj) none
    refine Ends.bind (ends_get hwrite) fun _ w' hdone ↦ ends_pure fun role' _ v hv ↦ .inl ?_
    obtain ⟨ht, hcleared⟩ := hdone
    rw [holding, ht.state_eq] at hv
    simp only [holding, focusedIn] at hv ⊢
    cases hj : (w.state id).roles.get? role' with
    | none => rw [hj] at hv; exact hv
    | some j =>
      rw [hj, Option.bind_some] at hv
      by_cases hwritten : (w.state id).roles.get? role = some j
      · rw [hcleared j hwritten] at hv
        exact absurd hv.symm (Option.some_ne_none _)
      · rw [ht.value_eq j hwritten] at hv
        exact hv
  | focusIn scope uri =>
    exact (Call.ends_perform hrounds h.ready (.focusIn scope uri)).mono fun _ w' hdone ↦
      hsame w' (hdone.moves.holding_eq none (Option.some_ne_none scope).symm)
  | clearScope scope =>
    exact (Call.ends_perform hrounds h.ready (.clearScope scope)).mono fun _ w' hdone ↦
      hsame w' (hdone.moves.holding_eq none (Option.some_ne_none scope).symm)

theorem ends_perform_kinded {d : Nat} (h : Poised id d w₀ w) (hkinded : Kinded w id)
    (hnodup : (w.state id).schema.roles.Nodup) (hw : w.Integral (w.state id).store) (call : Call) :
    (call.perform id).Ends w fun _ w' ↦ Poised id d w₀ w' ∧ Kinded w' id := by
  refine (((keeps_poised hrounds id d w₀).ends_perform h call).and ((ends_perform_named hrounds h hnodup hw call).and
    (Call.ends_perform hrounds h.ready call))).mono fun _ w' ⟨⟨h', _⟩, hnamed, hdone⟩ ↦ ⟨h', ?_⟩
  intro role hrole uri huri
  rw [hdone.moves.schema_eq] at hrole
  rw [hdone.moves.store_eq]
  exact ((hnamed role hrole uri huri).elim (hkinded role hrole uri) fun hnames ↦ hnames).congr hdone.moves.stores_eq

/-- Whatever is called on a focus over a store that fits together, the roles hold entities of their types. -/
theorem ends_course_kinded {d : Nat} (h : Poised id d w₀ w) (hkinded : Kinded w id)
    (hnodup : (w₀.state id).schema.roles.Nodup) (hw : w₀.Integral (w₀.state id).store) (calls : List Call) :
    (course id calls).Ends w fun _ w' ↦ Poised id d w₀ w' ∧ Kinded w' id := by
  induction calls generalizing w with
  | nil => exact ends_pure ⟨h, hkinded⟩
  | cons call rest ih =>
    have hcall := ends_perform_kinded hrounds h hkinded (h.schema_eq ▸ hnodup)
      (h.store_eq ▸ hw.congr h.stores_eq) call
    exact ends_get (hcall.bind fun answer w₁ ⟨h₁, hkinded₁⟩ ↦ (ih h₁ hkinded₁).bind fun _ w₂ h₂ ↦ ends_pure h₂)

end Calls

/-! ## Anchors with an offset -/

/-- An anchor stands for what is its offset away from what its role holds. -/
theorem value_anchored (w : World) (id : StateId) (scope : Option String) (role : String) (n : Int64) :
    (anchored id scope role n).value w = ((readEntity id scope role).value w).bind fun e ↦
      ((w.state id).schema.along (w.state id).store role e n.toInt).value w := by
  rw [anchored, Reads.value_bind]
  cases (readEntity id scope role).value w with
  | none => rfl
  | some e =>
    have hzero : n = 0 ↔ n.toInt = 0 := by rw [← Int64.toInt_inj, Int64.toInt_zero]
    simp only [Option.bind_some, Schema.along, hzero]
    split <;> rfl

/-- A sum that fits in 64 bits is the sum. -/
theorem toInt_add_of_fits {a b : Int64} (hlow : Int64.minValue.toInt ≤ a.toInt + b.toInt)
    (hhigh : a.toInt + b.toInt ≤ Int64.maxValue.toInt) : (a + b).toInt = a.toInt + b.toInt := by
  rw [Int64.toInt_add]
  refine Int.bmod_eq_of_le ?_ ?_
  · exact hlow
  · exact Int.lt_of_le_of_lt hhigh (by decide)

/-- From the entity a role holds for all, anchors step along its line: to focus what one of them stands for and to
go on from there is to go by the sum, where that fits in 64 bits; and an offset that leaves the line, however far,
leads nowhere. -/
structure Steps [Dispatch] (id : StateId) (role : String) (f : EntityRef) (w : World) : Prop where
  composes : ∀ a e, (anchored id none role a).value w = some e →
    (focus id (w.uriOf e)).Ends w fun answer w' ↦ answer = true ∧ ∀ b : Int64,
      Int64.minValue.toInt ≤ a.toInt + b.toInt → a.toInt + b.toInt ≤ Int64.maxValue.toInt →
        (anchored id none role b).value w' = (anchored id none role (a + b)).value w
  leaves : ∀ members (p : Nat),
    ((w.state id).schema.lineup (w.state id).store role f).value w = some members → members[p]? = some f →
      ∀ n : Int64, p + n.toInt < 0 ∨ members.length ≤ p + n.toInt → (anchored id none role n).value w = none
  alone : (∀ members, ((w.state id).schema.lineup (w.state id).store role f).value w = some members → f ∉ members) →
    ∀ n : Int64, n ≠ 0 → (anchored id none role n).value w = none

section Steps

variable [Dispatch] (hrounds : 0 < Dispatch.rounds)
include hrounds

/-- Where something can be focused, that succeeds, and its role holds it for all. -/
theorem ends_focus_found {d : Nat} (h : Poised id d w₀ w) (hnodup : (w.state id).schema.roles.Nodup) {uri : Uri}
    {e : EntityRef} (hfind : w.find? (w.state id).store uri = some e)
    (hrole : w.kindOf e ∈ (w.state id).schema.roles) : (focus id uri).Ends w fun answer w' ↦ answer = true ∧
      Moves id (· = none) w w' ∧ (readEntity id none (w.kindOf e)).value w' = some e := by
  obtain ⟨depth, hdepth⟩ := exists_roleDepth hrole
  have hfound : found? w (w.state id) uri = some (e, depth) := found?_eq_some_iff.mpr ⟨hfind, hdepth⟩
  have hanswer : (focus id uri).Ends w fun answer _ ↦ answer = true := by
    refine ends_get ((ends_apply hrounds h.ready (P := Of w id none) (fun _ hj ↦ hj.isSlot)
      (fun name j hj ↦ ⟨.role none name, rfl, hj⟩) uri).bind fun depth? _ ⟨_, hdepth?, _⟩ ↦ ends_pure ?_)
    rw [hdepth?, hfound]
    rfl
  have hcall := (ends_focusing hrounds h none uri).and (Call.ends_perform hrounds h.ready (.focus uri))
  refine (hanswer.and hcall).mono fun answer w' ⟨hanswer, hanchored, hdone⟩ ↦ ⟨hanswer, hdone.moves, ?_⟩
  obtain ⟨e', depth', hfound', hvalue⟩ := hanchored hanswer
  obtain ⟨rfl, rfl⟩ := Prod.mk.inj (Option.some.inj (hfound.symm.trans hfound'))
  have hkept : w.kindOf e ∉ (w.state id).schema.roles.drop (depth + 1) := by
    rw [mem_drop_roles_iff hnodup hdepth]
    omega
  rw [← value_anchored_zero, hvalue, if_neg hkept]

/-- The anchors of a role whose axis goes to a container and back step along a line. -/
theorem steps_of_lines {d : Nat} {K role : String} (h : Poised id d w₀ w) (hkinded : Kinded w id)
    (hnodup : (w.state id).schema.roles.Nodup) (hrole : role ∈ (w.state id).schema.roles)
    (hlines : (w.state id).schema.Lines K role) (hw : w.Integral (w.state id).store)
    (hsingle : w.SingleParents (w.state id).store) {f : EntityRef}
    (hf : (readEntity id none role).value w = some f) : Steps id role f w := by
  have hanchored : ∀ n : Int64, (anchored id none role n).value w =
      ((w.state id).schema.along (w.state id).store role f n.toInt).value w := fun n ↦ by
    rw [value_anchored, hf, Option.bind_some]
  refine ⟨fun a e he ↦ ?_, fun members p hline hp n hout ↦ ?_, fun hout n hn ↦ ?_⟩
  · rw [hanchored] at he
    -- What an anchor stands for can be focused: it is what the role holds, or another one of its line.
    obtain ⟨hlive, hkind⟩ : w.IsLive (w.state id).store e ∧ w.kindOf e = role := by
      by_cases ha : a.toInt = 0
      · rw [ha] at he
        obtain rfl := Option.some.inj he
        rw [value_readEntity, value_read_none, Option.bind_eq_some_iff] at hf
        obtain ⟨uri, hheld, hfind⟩ := hf
        obtain ⟨e', hfind', hkind⟩ := hkinded role hrole uri hheld
        obtain rfl := Option.some.inj (hfind.symm.trans hfind')
        exact ⟨((hw.find_iff uri f).mp hfind).1, hkind⟩
      · rw [Schema.along, if_neg ha, Schema.value_shift, Option.bind_eq_some_iff] at he
        obtain ⟨members, hline, hneighbour⟩ := he
        exact hlines.of_mem hw hline (Schema.mem_of_neighbour hneighbour).2
    subst hkind
    refine (ends_focus_found hrounds h hnodup ((hw.find_iff _ e).mpr ⟨hlive, rfl⟩) hrole).mono
      fun answer w' hdone ↦ ⟨hdone.1, fun b hlow hhigh ↦ ?_⟩
    obtain ⟨-, hmoves, hread⟩ := hdone
    rw [value_anchored, hread, hmoves.schema_eq, hmoves.store_eq, hanchored, toInt_add_of_fits hlow hhigh,
      ← hlines.along_along hw hsingle he]
    exact Reads.OfStores.along _ _ _ e b.toInt w w' hmoves.stores_eq
  · rw [hanchored]
    exact hlines.along_eq_none hw hline hp hout
  · have hzero : n.toInt ≠ 0 := fun heq ↦ hn (Int64.toInt_inj.mp (heq.trans Int64.toInt_zero.symm))
    rw [hanchored, Schema.along, if_neg hzero, Schema.value_shift, Option.bind_eq_none_iff]
    intro members hline
    by_contra hsome
    obtain ⟨e, hneighbour⟩ := Option.ne_none_iff_exists'.mp hsome
    exact hout members hline (Schema.mem_of_neighbour hneighbour).1

end Steps

/-- Nothing is held by a new focus. -/
theorem kinded_withState (w : World) (schema : Schema) (stores : Array Store) :
    Kinded (withState w schema stores) w.states.size := by
  obtain ⟨roles, scopes, hstate, -, hnil⟩ := state_withState w schema stores
  intro role _ uri huri
  rw [holding, hstate] at huri
  simp only [focusedIn] at huri
  cases hj : roles.get? role with
  | none =>
    rw [hj] at huri
    exact absurd huri.symm (Option.some_ne_none _)
  | some j =>
    rw [hj, Option.bind_some, hnil role j hj] at huri
    exact absurd huri.symm (Option.some_ne_none _)

/-- After any calls on a new focus, the anchors of a role whose axis goes to a container and back step along a
line. -/
theorem ends_course_steps [Dispatch] (hrounds : 0 < Dispatch.rounds) (hcalm : w.Busy ∨ w.Idle) (stores : Array Store)
    (hnodup : schema.roles.Nodup) {K role : String} (hrole : role ∈ schema.roles) (hlines : schema.Lines K role)
    (hintegral : (withState w schema stores).Integral w.stores.size)
    (hsingle : (withState w schema stores).SingleParents w.stores.size) (calls : List Call) :
    (course w.states.size calls).Ends (withState w schema stores) fun _ w₁ ↦
      ∀ f, (readEntity w.states.size none role).value w₁ = some f → Steps w.states.size role f w₁ := by
  obtain ⟨_, _, hstate, -⟩ := state_withState w schema stores
  have hschema₀ := congrArg State.schema hstate
  have hstore₀ := congrArg State.store hstate
  have hpoised := (ready_withState w hcalm schema stores).poised (complete_withState w schema stores)
  have hkinded := kinded_withState w schema stores
  generalize withState w schema stores = w₀ at *
  refine (ends_course_kinded hrounds hpoised hkinded (hschema₀.symm ▸ hnodup) (hstore₀.symm ▸ hintegral) calls).mono
    fun _ w₁ ⟨h₁, hkinded₁⟩ f hf ↦ ?_
  have hschema : (w₁.state w.states.size).schema = schema := h₁.schema_eq.trans hschema₀
  have hstore : (w₁.state w.states.size).store = w.stores.size := h₁.store_eq.trans hstore₀
  have hsingle₁ : w₁.SingleParents w.stores.size := by
    rw [World.SingleParents, World.store, h₁.stores_eq]
    exact hsingle
  exact steps_of_lines hrounds h₁ hkinded₁ (hschema.symm ▸ hnodup) (hschema.symm ▸ hrole) (hschema.symm ▸ hlines)
    (hstore.symm ▸ hintegral.congr h₁.stores_eq) (hstore.symm ▸ hsingle₁) hf

/-- With the debugger's schema, over any store that fits together and in which no entity has two parents, and after
any calls: whichever thread or frame is focused, the anchors step along its line. -/
theorem anchors_step [Dispatch] (hrounds : 0 < Dispatch.rounds) (hcalm : w.Busy ∨ w.Idle) (stores : Array Store)
    (hintegral : (withState w .debugger stores).Integral w.stores.size)
    (hsingle : (withState w .debugger stores).SingleParents w.stores.size) (calls : List Call) {role : String}
    (hrole : role = "thread" ∨ role = "frame") :
    (course w.states.size calls).Ends (withState w .debugger stores) fun _ w₁ ↦
      ∀ f, (readEntity w.states.size none role).value w₁ = some f → Steps w.states.size role f w₁ := by
  have hnodup : Schema.debugger.roles.Nodup := by decide
  obtain ⟨hframe, hthread⟩ := Schema.lines_debugger
  rcases hrole with rfl | rfl
  · exact ends_course_steps hrounds hcalm stores hnodup (by decide) hthread hintegral hsingle calls
  · exact ends_course_steps hrounds hcalm stores hnodup (by decide) hframe hintegral hsingle calls

/-- A session, a thread and three frames. -/
def unstacked : World :=
  [("s", "session"), ("t", "thread"), ("f0", "frame"), ("f1", "frame"), ("f2", "frame")].foldl
    (fun w (uri, kind) ↦ Relation.withEntity w uri kind) (Session.start .debugger false)

/-- The thread is the session's, and the frames are the thread's. -/
def stacked : World :=
  [("t", "s"), ("f0", "t"), ("f1", "t"), ("f2", "t")].foldl
    (fun w (child, parent) ↦ Relation.withParent w child parent) unstacked

theorem integral_stacked : stacked.Integral 0 := by
  have hstart := (ground_start Schema.debugger false).holds.1
  have hsession := Relation.ground_withEntity hstart "s" "session" (by decide +kernel)
  have hthread := Relation.ground_withEntity hsession "t" "thread" (by decide +kernel)
  have htop := Relation.ground_withEntity hthread "f0" "frame" (by decide +kernel)
  have hmiddle := Relation.ground_withEntity htop "f1" "frame" (by decide +kernel)
  have hunstacked : Ground (fun _ ↦ False) unstacked :=
    Relation.ground_withEntity hmiddle "f2" "frame" (by decide +kernel)
  have hunder := Relation.ground_withParent hunstacked "t" "s" (by decide +kernel) (by decide +kernel)
  have htop := Relation.ground_withParent hunder "f0" "t" (by decide +kernel) (by decide +kernel)
  have hmiddle := Relation.ground_withParent htop "f1" "t" (by decide +kernel) (by decide +kernel)
  have hbottom := Relation.ground_withParent hmiddle "f2" "t" (by decide +kernel) (by decide +kernel)
  exact World.integral_of_coherent hbottom.coherent

/-- It is so of the middle one of three frames. -/
theorem anchors_step_stacked :
    0 < (dispatch 2).rounds ∧ World.empty.Idle ∧
      (withState .empty .debugger stacked.stores).Integral World.empty.stores.size ∧
      (withState .empty .debugger stacked.stores).SingleParents World.empty.stores.size ∧
      (@course (dispatch 2) World.empty.states.size [.focus "f1"]).Ends
        (withState .empty .debugger stacked.stores) fun _ w₁ ↦
          (readEntity World.empty.states.size none "frame").value w₁ = some ⟨0, 4⟩ ∧
          (anchored World.empty.states.size none "frame" 1).value w₁ = some ⟨0, 5⟩ ∧
          @Steps (dispatch 2) World.empty.states.size "frame" ⟨0, 4⟩ w₁ := by
  have hidle : World.empty.Idle := fun _ _ ↦ ⟨rfl, rfl⟩
  have hrounds : 0 < (dispatch 2).rounds := Nat.one_pos
  have hintegral : (withState .empty .debugger stacked.stores).Integral World.empty.stores.size :=
    integral_stacked.congr rfl
  have hsingle : (withState .empty .debugger stacked.stores).SingleParents World.empty.stores.size := by
    unfold World.SingleParents
    decide +kernel
  refine ⟨hrounds, hidle, hintegral, hsingle, ?_⟩
  obtain ⟨past, w₁, hrun, hsteps⟩ := @anchors_step .empty (dispatch 2) hrounds (.inr hidle) stacked.stores hintegral
    hsingle [.focus "f1"] "frame" (.inr rfl)
  have hread : (match @course (dispatch 2) World.empty.states.size [.focus "f1"]
        (withState .empty .debugger stacked.stores) with
      | .ok _ w => ((readEntity World.empty.states.size none "frame").value w,
        (anchored World.empty.states.size none "frame" 1).value w)
      | .error _ _ => (none, none)) = (some ⟨0, 4⟩, some ⟨0, 5⟩) := by decide +kernel
  rw [hrun] at hread
  obtain ⟨hfocused, hnext⟩ := Prod.mk.inj hread
  exact ⟨past, w₁, hrun, hfocused, hnext, hsteps _ hfocused⟩

end Focus

end LiveGraph
