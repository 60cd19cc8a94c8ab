import LiveGraph.Proofs.Breakpoint.Alone
import LiveGraph.Proofs.Breakpoint.Insertion
import LiveGraph.Proofs.Lock.Line
import LiveGraph.Task.Basic

/-!
# Toggling by oneself

On a debug state that nobody else has to do with, and between two operations, a toggle always gets its lock. It comes
to an end, takes away the breakpoint that its location means or adds one, and leaves the debug state ready for the
next one.

## Removing by oneself

When an entity is removed, nobody hears of it but the focus, which lets go of it. The roster is without it then, and
without its links.
-/

namespace LiveGraph

open Act

namespace Act

variable [D : Dispatch] {w : World}

/-- To tell a channel that has one callback comes to an end where that does. -/
theorem ends_notify_single {channel : Channel} {event : Event} {n : Nat} {callback : Callback}
    {Q : Unit → World → Prop} (hentries : (w.watchers channel).entries = [(n, callback)])
    (hcall : (D.call callback event).Ends w Q) : (notify channel event).Ends w Q := by
  obtain ⟨_, w', hrun, hQ⟩ := hcall
  exact ⟨(), w', notify_single_run hentries hrun, hQ⟩

/-- Nobody is told of edges that were removed. -/
theorem tellCut_run {s : StoreId} (hclocks : (w.store s).clocks = ∅)
    (hnone : (w.store s).listeners.edgeRemoved.entries = []) (edges : List Edge) :
    Store.tellCut s edges w = .ok () w := by
  induction edges with
  | nil => rfl
  | cons edge rest ih =>
    have hnotify := notify_run (.store s .edgeRemoved) hnone (.edge .edgeRemoved edge)
    simp only [Store.tellCut, bind_run, bumpAll_run hclocks, hnotify, ih]

end Act

namespace Breakpoint

open World

variable {w : World} {e : EntityRef} {uri : Uri}

/-- An entity is taken out of the store and ends, before anybody is told. -/
theorem Secluded.worked_struck (h : Secluded w) (heffects : w.effects = []) (hfound : w.find? 0 uri = some e) :
    Worked w ((w.strike e).2.retire e) ∧ roster ((w.strike e).2.retire e) = (roster w).without uri := by
  let w' := (w.strike e).2.retire e
  have hground := h.ground
  have htied := h.editable.indexed.tied
  obtain ⟨he, hcurrent, rfl⟩ := isCurrent_of_find? hground hfound
  have hlive := h.editable.indexed.isLive he hcurrent
  have hstruck : Struck (w.strike e).2 w' e := World.struck_of_find? hground hfound
  have hdeparted : Departed w w' e := departed_strike hground htied hfound
  have hindexed := Indexed.gone_iff.mp (h.editable.indexed.strike hfound)
  have haloof : Aloof w w' := (Aloof.modifyStore w e.store _ fun h ↦ h).trans (.retire _ e)
  have hentity : (w.strike e).2.entity e = w.entity e := (w.steady_strike e).entity_eq e
  have hown : ∀ j ∈ (w.entity e).props.values ++ [(w.entity e).shape], (w.signal j).owner = .entity e := fun j hj ↦ by
    rcases List.mem_append.mp hj with hvalue | hshape
    · obtain ⟨prop, hprop⟩ := (Tables.mem_values _ j).mp hvalue
      exact (htied.property e prop j ⟨hlive, hprop⟩).owner_eq
    · rw [List.mem_singleton.mp hshape]
      exact (h.editable.writable e he hcurrent).2
  have hsignal : ∀ j, (w.signal j).owner ≠ .entity e → w'.signal j = w.signal j := fun j hne ↦
    hstruck.signal_eq j fun hmem ↦ hne (hown j (hentity ▸ hmem))
  have hlisteners : (w'.store 0).listeners = (w.store 0).listeners :=
    hstruck.listeners_eq.trans (w.part_modifyStore (·.listeners) (by intro; rfl) e.store 0)
  have hsize : w'.signals.size = w.signals.size := hstruck.size_eq
  have hquiet : w.Quiet w' := (w.quiet_strike e).trans (World.quiet_retire _ e)
  refine ⟨⟨h.changed_store (h.editable.unmoved hindexed (Nat.le_of_eq hsize.symm) fun e' he' hcurrent' ↦ ?_)
    haloof.session_eq haloof.states_eq (Nat.le_of_eq hsize.symm) (fun slot j hj ↦ hsignal j fun howner ↦ ?_) hlisteners,
    .inl (hquiet.effects_eq.trans heffects), background_congr haloof.session_eq haloof.states_eq, hquiet.depth_eq,
    hquiet.flushing_eq⟩, hdeparted.roster_eq hground hindexed.ground.coherent he hcurrent⟩
  · obtain ⟨hbefore, hne⟩ := (hdeparted.isCurrent_iff e' he').mp hcurrent'
    have hpos := ((hground.isCurrent_iff he').mp hbefore).1
    refine ⟨hbefore, ?_, fun j howner ↦ ?_⟩
    · rw [hstruck.entity_eq e' he' hpos hne, (w.steady_strike e).entity_eq]
    · rw [hsignal j fun howner' ↦ hne (Owner.entity.inj (howner'.symm.trans howner))]
      exact ⟨rfl, rfl, rfl⟩
  · rw [(h.apart slot j hj).2] at howner
    exact Owner.noConfusion howner

/-- The clocks of what was removed are dropped, of which there are none. -/
theorem Secluded.worked_retireClocks (h : Secluded w) (howing : Owing w) (uri : Uri) :
    Worked w (w.retireClocks 0 uri) ∧ roster (w.retireClocks 0 uri) = roster w := by
  have hindexed := h.editable.indexed.retireClocks uri
  obtain ⟨F, hF, hlive, hbyKind, hedges, hincarnations, hlisteners⟩ : ∃ F : Store → Store,
      w.retireClocks 0 uri = w.modifyStore 0 F ∧ (∀ s, (F s).live = s.live) ∧ (∀ s, (F s).byKind = s.byKind) ∧
        (∀ s, (F s).edges = s.edges) ∧ (∀ s, (F s).incarnations = s.incarnations) ∧
        ∀ s, (F s).listeners = s.listeners := by
    unfold World.retireClocks
    dsimp only
    split
    · exact ⟨_, rfl, fun _ ↦ rfl, fun _ ↦ rfl, fun _ ↦ rfl, fun _ ↦ rfl, fun _ ↦ rfl⟩
    · exact ⟨_, rfl, fun _ ↦ rfl, fun _ ↦ rfl, fun _ ↦ rfl, fun _ ↦ rfl, fun _ ↦ rfl⟩
  rw [hF] at hindexed ⊢
  have halike : Alike w (w.modifyStore 0 F) := .modifyStore w hlive hbyKind hedges hincarnations
  refine ⟨⟨h.changed_store (h.editable.unmoved hindexed (Nat.le_refl _) fun e he hcurrent ↦ ?_) rfl rfl (Nat.le_refl _)
    (fun _ _ _ ↦ rfl) (w.part_modifyStore (·.listeners) hlisteners 0 0), howing, rfl, rfl, rfl⟩,
    halike.roster_eq h.ground hindexed.ground.coherent⟩
  refine ⟨(halike.isCurrent_eq h.ground he).symm.trans hcurrent, ?_, fun _ _ ↦ ⟨rfl, rfl, rfl⟩⟩
  rw [World.entity, Store.incarnation, w.part_modifyStore (·.incarnations) hincarnations]
  rfl

section Run

variable [D : Dispatch] (hD : Deep D)
include hD

/-- The focus lets go of what was removed. -/
theorem Secluded.ends_letGo (h : Secluded w) (heffects : w.effects = []) (hbusy : w.Busy) (e : EntityRef) :
    (D.call (.forget 0) (.entity .removed e)).Ends w fun _ w' ↦
      Worked w w' ∧ w'.effects = [] ∧ roster w' = roster w := by
  obtain ⟨D', hrounds, hcall⟩ := hD.call_eq (.forget 0) (.entity .removed e)
  rw [hcall]
  refine ends_get ?_
  dsimp only
  split
  · have hpinned : Secluded (w.pin (.state 0)) := h.context w.depth w.flushing w.frames _
    obtain ⟨_, w₁, hrun, ht⟩ := Focus.ends_forget hrounds (hpinned.ready (.inl hbusy)) (w.uriOf e)
    obtain ⟨hsecluded, hbackground, hroster, hquiet⟩ := hpinned.touched (fun _ hj ↦ hj) ht
    let w₂ : World := { w₁ with pins := w₁.pins.erase (.state 0) }
    have h₂ : Secluded w₂ := hsecluded.context w₁.depth w₁.flushing w₁.frames _
    have hunpin : w₁.unpin (.state 0) = w₂ := h₂.editable.indexed.reap_eq
    have hholding := holding_run hrun
    rw [hunpin] at hholding
    have heffects₁ : w₁.effects = [] := hquiet.effects_eq.trans heffects
    exact ⟨(), w₂, hholding, ⟨h₂, .inl heffects₁, hbackground, hquiet.depth_eq, hquiet.flushing_eq⟩, heffects₁, hroster⟩
  · exact ends_pure ⟨⟨h, .inl heffects, rfl, rfl, rfl⟩, heffects, rfl⟩

/-- To remove an entity comes to an end, and the roster is without it. -/
theorem Secluded.ends_remove (h : Secluded w) (hdepth : w.depth = 0) (hflushing : w.flushing = false)
    (heffects : w.effects = []) (hfound : w.find? 0 uri = some e) : (Store.remove 0 uri).Ends w fun _ w' ↦
      Worked w w' ∧ w'.effects = [] ∧ roster w' = (roster w).without uri := by
  refine Secluded.ends_batch hD hdepth hflushing (Q := fun _ R' _ ↦ R' = (roster w).without uri) ?_
  have h₀ : Secluded (w.setDepth (w.depth + 1)) := h.setDepth _
  obtain ⟨hworked₁, hroster₁⟩ := h₀.worked_struck heffects hfound
  have hquiet := ((w.setDepth (w.depth + 1)).quiet_strike e).trans (World.quiet_retire _ e)
  have heffects₁ := hquiet.effects_eq.trans heffects
  refine ends_get ?_
  have hfound₀ : (w.setDepth (w.depth + 1)).find? 0 uri = some e := hfound
  rw [hfound₀]
  refine ends_get (ends_after (modifyGet_run _ _) (ends_after (modify_run _ _) ?_))
  generalize (w.setDepth (w.depth + 1)).strike e = struck at *
  generalize struck.2.retire e = w₁ at *
  have h₁ := hworked₁.secluded
  refine ends_after (tellCut_run h₁.clocks_eq (congrArg (·.edgeRemoved.entries) h₁.listeners_eq) _) ?_
  refine ends_after (bumpAll_run h₁.clocks_eq _) ?_
  have hbusy : w₁.Busy := .inl (hworked₁.depth_eq.symm ▸ Nat.succ_pos _)
  have hremoved : (w₁.watchers (.store 0 .removed)).entries = [(1, .forget 0)] :=
    congrArg (·.removed.entries) h₁.listeners_eq
  refine (ends_notify_single hremoved (h₁.ends_letGo hD heffects₁ hbusy e)).bind fun _ w₂ hw₂ ↦ ?_
  obtain ⟨hworked₂, heffects₂, hroster₂⟩ := hw₂
  obtain ⟨hworked₃, hroster₃⟩ := hworked₂.secluded.worked_retireClocks hworked₂.owing uri
  refine ends_after (modify_run _ _) (ends_pure ⟨(hworked₁.trans hworked₂).trans hworked₃, ?_⟩)
  rw [hroster₃, hroster₂, hroster₁]
  rfl

end Run

end Breakpoint

end LiveGraph

/-! ## Toggling -/

namespace LiveGraph

/-- What a toggle is said to have done. -/
def Toggled.action : Toggled → String
  | .added _ => "added"
  | .removed _ => "removed"
  | .rejected => "rejected"

namespace Breakpoint

open Act World

/-- What a toggle that is carried out comes to: its target is removed, or there is none and one is added. -/
inductive Roster.CarriesOut (R : Roster) (l : Location) (target : Option Item) : Toggled → Roster → Prop
  | remove (x : Item) : target = some x → CarriesOut R l target (.removed x.uri) (R.without x.uri)
  | add (p : EntityPicture) (R' : Roster) : target = none → Inserted R l p.uri R' → CarriesOut R l target (.added p) R'

/-- What a toggle comes to whose target is the breakpoint that its location means. -/
def Roster.Toggles (R : Roster) (l : Location) : Toggled → Roster → Prop :=
  R.CarriesOut l (R.meant l)

theorem Roster.Toggles.ne_rejected {R R' : Roster} {l : Location} {t : Toggled} (h : R.Toggles l t R') :
    t ≠ .rejected := by
  cases h with
  | remove x hmeant => exact Toggled.noConfusion
  | add p R' hmeant hinserted => exact Toggled.noConfusion

/-- It is what a toggle makes of the roster, with a new URI for a breakpoint that is added. -/
theorem Roster.Toggles.exists_fresh {R R' : Roster} {l : Location} {t : Toggled} (h : R.Toggles l t R') :
    ∃ fresh, R' = R.toggled fresh l ∧ t.action = (R.meant l).elim "added" (fun _ ↦ "removed") ∧
      (R.meant l = none → IsNumbered fresh ∧ fresh ∉ (R.ensured l.path).2.uris) := by
  cases h with
  | remove x hmeant =>
    refine ⟨x.uri, ?_, by rw [hmeant]; rfl, fun hnone ↦ absurd (hmeant.symm.trans hnone) (Option.some_ne_none x)⟩
    rw [Roster.toggled, hmeant]
    rfl
  | add p R' hmeant hinserted =>
    refine ⟨p.uri, ?_, by rw [hmeant]; rfl, fun _ ↦ ⟨hinserted.isNumbered, hinserted.not_mem⟩⟩
    rw [Roster.toggled, hmeant]
    exact hinserted.roster_eq

/-- On rosters that differ in the URIs of breakpoints it is the same that a toggle does, and they still differ only
in these. -/
theorem Renamed.toggles {ρ : Uri → Uri} {R S R' S' : Roster} {l : Location} {t u : Toggled} (h : Renamed ρ R S)
    (hR : R.Closed) (hS : S.Closed) (ht : R.Toggles l t R') (hu : S.Toggles l u S') :
    u.action = t.action ∧ ∃ ρ', Renamed ρ' R' S' := by
  obtain ⟨fresh, rfl, haction, hfresh⟩ := ht.exists_fresh
  obtain ⟨fresh', rfl, haction', hfresh'⟩ := hu.exists_fresh
  refine ⟨?_, h.toggled hR hS l (fun hnone ↦ ⟨R.isSome_seat l.path, hfresh hnone⟩) hfresh'⟩
  rw [haction, haction', h.meant_eq hR, Option.elim_map]
  rfl

/-- A debug state that nobody else has to do with, between two operations, with all its locks free. -/
structure Settled (w : World) : Prop extends Secluded w where
  depth_eq : w.depth = 0
  flushing_eq : w.flushing = false
  effects_eq : w.effects = []
  line_eq : ∀ path, (w.state 0).locks.line path = []

variable {w w' : World}

theorem locks_eq (h : w'.background = w.background) : (w'.state 0).locks = (w.state 0).locks :=
  congrArg (fun β ↦ (β.states 0).locks) h

/-- What a toggle has found is removed if it is still there, and a breakpoint is added otherwise. -/
theorem Secluded.ends_carryOut [D : Dispatch] (hD : Deep D) (h : Secluded w) (hdepth : w.depth = 0)
    (hflushing : w.flushing = false) (heffects : w.effects = []) (l : Location) {found : Option EntityRef}
    (hfound : ∀ e ∈ found, e.store = 0 ∧ w.knows e) : (carryOut 0 l found).Ends w fun r w' ↦
      Worked w w' ∧ w'.effects = [] ∧ ∃ t, r = .ok t ∧
        (roster w).CarriesOut l ((found.filter fun e ↦ (w.entity e).live).map (item w)) t (roster w') := by
  have hground := h.ground
  refine ends_get ?_
  cases hthere : found.filter fun e ↦ (w.entity e).live with
  | none =>
    refine (h.ends_insert hD hdepth hflushing heffects l).bind fun r w₁ hw₁ ↦ ?_
    obtain ⟨hworked, heffects₁, e, fresh, rfl, hfind, hinserted⟩ := hw₁
    obtain ⟨-, -, rfl⟩ := isCurrent_of_find? hworked.secluded.ground hfind
    exact ends_get (ends_pure ⟨hworked, heffects₁, _, rfl, .add (w₁.picture e) _ rfl hinserted⟩)
  | some e =>
    obtain ⟨hmem, hlive⟩ := Option.filter_eq_some_iff.mp hthere
    obtain ⟨he, hknows⟩ := hfound e hmem
    have hcurrent := (hground.isCurrent_iff_isLive he).mpr ⟨he, hknows, hlive⟩
    rw [h.store_eq]
    refine (h.ends_remove hD hdepth hflushing heffects (find?_of_isCurrent he hcurrent)).bind fun _ w₁ hw₁ ↦ ?_
    obtain ⟨hworked, heffects₁, hroster⟩ := hw₁
    exact ends_pure ⟨hworked, heffects₁, _, rfl, hroster ▸ .remove (item w e) rfl⟩

/-- What is found on a path is there. -/
theorem Secluded.isLive_of_find (h : Secluded w) {l : Location} {e : EntityRef}
    (hfound : (scene w l.path).find l = some e) : w.IsLive 0 e := by
  obtain ⟨m, hm, rfl⟩ := Scene.mem_of_find hfound
  obtain ⟨he, hcurrent, -⟩ := marks_current h.ground (List.mem_of_mem_filter hm)
  exact h.editable.indexed.isLive he hcurrent

/-- The breakpoint that a location means is removed, or one is added if there is none. -/
theorem Secluded.ends_carryOut_find [D : Dispatch] (hD : Deep D) (h : Secluded w) (hdepth : w.depth = 0)
    (hflushing : w.flushing = false) (heffects : w.effects = []) (l : Location) :
    (carryOut 0 l ((scene w l.path).find l)).Ends w fun r w' ↦
      Worked w w' ∧ w'.effects = [] ∧ ∃ t, r = .ok t ∧ (roster w).Toggles l t (roster w') := by
  have hthere : ∀ e ∈ (scene w l.path).find l, w.IsLive 0 e := fun e he ↦ h.isLive_of_find he
  have hfilter : ((scene w l.path).find l).filter (fun e ↦ (w.entity e).live) = (scene w l.path).find l := by
    cases hfound : (scene w l.path).find l with
    | none => rfl
    | some e => exact Option.filter_some_pos (hthere e hfound).2.2
  have hcarried := h.ends_carryOut hD hdepth hflushing heffects l fun e he ↦ ⟨(hthere e he).1, (hthere e he).2.1⟩
  rwa [hfilter, ← meant_roster h.ground h.ground.coherent] at hcarried

namespace Settled

variable (h : Settled w)
include h

theorem idle : w.Idle :=
  fun _ _ ↦ ⟨h.editable.indexed.plain.queue_eq, h.effects_eq⟩

/-- An operation that has nothing left to be told leaves it so. -/
theorem worked (hworked : Worked w w') (heffects : w'.effects = []) : Settled w' where
  toSecluded := hworked.secluded
  depth_eq := hworked.depth_eq.trans h.depth_eq
  flushing_eq := hworked.flushing_eq.trans h.flushing_eq
  effects_eq := heffects
  line_eq path := by rw [locks_eq hworked.background_eq, h.line_eq]

section Run

variable [D : Dispatch] (hD : Deep D)
include hD

/-- A toggle gets its lock, is carried out, and gives the lock back. -/
theorem ends_toggleNow (l : Location) : (Task.toggleNow 0 0 l).Ends w fun r w' ↦
    Settled w' ∧ ∃ t, r = some (.ok t) ∧ (roster w).Toggles l t (roster w') := by
  let join : State → State := fun s ↦ { s with locks := s.locks.join l.path 0 }
  let leave : State → State := fun s ↦ { s with locks := s.locks.leave l.path 0 }
  let w₁ := w.modifyState 0 join
  have hlocks : ∀ {v : World}, 0 < v.states.size → ∀ F : State → State, ((v.modifyState 0 F).state 0) = F (v.state 0) :=
    fun {v} hsize F ↦ (v.state_modifyState 0 F 0).trans (if_pos ⟨rfl, hsize⟩)
  have hstate : w₁.state 0 = join (w.state 0) := hlocks h.focus.state_lt join
  have hline : ∀ path, (w₁.state 0).locks.line path = if l.path = path then [0] else [] := fun path ↦ by
    rw [hstate, KeyedMutex.line_join, h.line_eq, h.line_eq]
    rfl
  have h₁ : Secluded w₁ := h.restated (fun _ ↦ rfl) (fun _ ↦ rfl) fun _ ↦ funext fun slot ↦ by cases slot <;> rfl
  have hturn : w₁.hasTurn ⟨0, true, .toggle 0 l none⟩ = true := by
    refine (KeyedMutex.isHolder_iff _ l.path 0).mpr ?_
    rw [hline, if_pos rfl]
    rfl
  refine ends_after (modify_run _ _) (Ends.followedBy (ends_get ?_))
  have hfind : (find (w₁.state 0).store l).value w₁ = (scene w₁ l.path).find l := by
    rw [h₁.store_eq]
    exact find_value h₁.editable.indexed h.effects_eq rfl rfl l
  change Ends (if w₁.hasTurn ⟨0, true, .toggle 0 l none⟩ = true then
    some <$> carryOut 0 l ((find (w₁.state 0).store l).value w₁) else pure none) w₁ _
  rw [if_pos hturn, hfind]
  refine (h₁.ends_carryOut_find hD h.depth_eq h.flushing_eq h.effects_eq l).bind fun r w₂ hw₂ ↦ ends_pure ?_
  obtain ⟨hworked, heffects, t, rfl, htoggles⟩ := hw₂
  have h₂ := hworked.secluded
  refine ⟨⟨h₂.restated (F := leave) (fun _ ↦ rfl) (fun _ ↦ rfl) fun _ ↦ funext fun slot ↦ by cases slot <;> rfl,
    hworked.depth_eq.trans h.depth_eq, hworked.flushing_eq.trans h.flushing_eq, heffects, fun path ↦ ?_⟩, t, rfl,
    htoggles⟩
  change ((w₂.modifyState 0 leave).state 0).locks.line path = []
  rw [hlocks h₂.focus.state_lt, KeyedMutex.line_leave, locks_eq hworked.background_eq, hline, hline, if_pos rfl]
  split <;> rfl

end Run

section Focus

variable [Dispatch] (hrounds : 0 < Dispatch.rounds)
include hrounds

/-- To focus an entity leaves the roster. -/
theorem ends_focus (uri : Uri) : (Focus.focus 0 uri).Ends w fun _ w' ↦ Settled w' ∧ roster w' = roster w := by
  refine ends_get ((Focus.ends_apply hrounds (h.ready (.inr h.idle)) (P := Focus.Of w 0 none) (fun _ hj ↦ hj.isSlot)
    (fun name j hj ↦ ⟨.role none name, rfl, hj⟩) uri).bind fun _ w' hw' ↦ ends_pure ?_)
  obtain ⟨hsecluded, hbackground, hroster, hquiet⟩ := h.touched (fun _ hj ↦ hj.isSlot) hw'.1
  have heffects := hquiet.effects_eq.trans h.effects_eq
  exact ⟨h.worked ⟨hsecluded, .inl heffects, hbackground, hquiet.depth_eq, hquiet.flushing_eq⟩ heffects, hroster⟩

theorem ends_focusAll (uris : List Uri) : (Snapshot.focusAll 0 uris).Ends w fun _ w' ↦
    Settled w' ∧ roster w' = roster w := by
  induction uris generalizing w with
  | nil => exact ends_pure ⟨h, rfl⟩
  | cons uri rest ih =>
    refine (h.ends_focus hrounds uri).bind fun _ w₁ hw₁ ↦ ?_
    exact (ih hw₁.1).mono fun _ w' hw' ↦ ⟨hw'.1, hw'.2.trans hw₁.2⟩

end Focus

end Settled

/-- The lines and columns of the breakpoints on a path, in the order in which the service lists them. -/
def linesOn (w : World) (path : String) : List (Value × Value) :=
  ((onPath (w.state 0).store path).value w).map fun e ↦ (w.property e "line", w.property e "column")

/-- They are in the roster. -/
theorem Settled.linesOn_eq (h : Settled w) (path : String) : linesOn w path = (roster w).marks path := by
  have hmarks := onPath_value h.editable.indexed h.effects_eq rfl rfl path
  rw [Roster.marks, onPath_roster h.ground h.ground.coherent, ← hmarks, List.map_map, List.map_map, linesOn, h.store_eq]
  rfl

end Breakpoint

end LiveGraph
