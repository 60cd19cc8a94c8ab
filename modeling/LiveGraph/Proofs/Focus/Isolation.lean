import LiveGraph.Proofs.Focus.Calls
import LiveGraph.Session.Basic

/-!
# Scopes are isolated from each other

Calls are made on a focus one after the other. From what was called so far it is known what each scope owns; and
whatever is called next changes what is read only where it may: a call on a scope nothing that others read, and
no call elsewhere what a scope reads of what it owns.
-/

namespace LiveGraph.Focus

open World Act

/-- A call that was made, with the world it was made in and its answer. -/
structure Made where
  call : Call
  before : World
  answer : Bool

/-- Makes calls one after the other, and writes them down. -/
def course [Dispatch] (id : StateId) : List Call → Act (List Made)
  | [] => pure []
  | call :: rest => do
    let before ← get
    let answer ← call.perform id
    return ⟨call, before, answer⟩ :: (← course id rest)

/-- Since a scope was last cleared, something was focused in it whose role is at a depth or above. -/
def Owned (id : StateId) (past : List Made) (scope : String) (depth : Nat) : Prop :=
  ∃ earlier made later, past = earlier ++ made :: later ∧ (∀ m ∈ later, m.call ≠ .clearScope scope) ∧
    made.answer = true ∧ ∃ uri e owner, made.call = .focusIn scope uri ∧
      found? made.before (made.before.state id) uri = some (e, owner) ∧ owner ≤ depth

/-- A scope was cleared, and nothing was focused in it since. -/
def Cleared (past : List Made) (scope : String) : Prop :=
  ∃ earlier made later, past = earlier ++ made :: later ∧ made.call = .clearScope scope ∧
    ∀ m ∈ later, m.answer = true → ∀ uri, m.call ≠ .focusIn scope uri

/-- What a call has done to what is read, after some other calls: on a scope it changes nothing that is read
elsewhere, and on no other scope or for all anything that a scope reads of what it owns. Where it was refused it
changes nothing, and a scope that is cleared by then reads what is read for all. -/
structure Isolated (id : StateId) (past : List Made) (call : Call) (answer : Bool) (w w' : World) : Prop where
  elsewhere : ∀ scope, call.target = some scope → ∀ other ≠ some scope, ∀ role,
    (read id other role).value w' = (read id other role).value w
  owned : ∀ scope role depth, (w.state id).schema.roleDepth role = some depth → Owned id past scope depth →
    call.target ≠ some scope → (read id (some scope) role).value w' = (read id (some scope) role).value w
  refused : answer = false → ∀ scope role, (read id scope role).value w' = (read id scope role).value w
  cleared : ∀ scope, Cleared (past ++ [⟨call, w, answer⟩]) scope → ∀ role,
    (read id (some scope) role).value w' = (read id none role).value w'

/-- What calls have made scopes the owners of, they own, and where they were cleared they hold nothing. -/
structure Recorded (id : StateId) (past : List Made) (w : World) : Prop where
  owned : ∀ scope depth, Owned id past scope depth → ∃ owner ≤ depth, (holding w id (some scope)).ownedFrom = some owner
  cleared : ∀ scope, Cleared past scope → holding w id (some scope) = .empty

variable {w w' : World} {id : StateId} {past : List Made} {call : Call} {answer : Bool}

theorem recorded_nil (id : StateId) (w : World) : Recorded id [] w := by
  have hnone : ∀ {earlier later : List Made} {made : Made}, [] ≠ earlier ++ made :: later := fun {earlier _ _} h ↦
    List.append_ne_nil_of_right_ne_nil earlier (List.cons_ne_nil _ _) h.symm
  refine ⟨?_, ?_⟩
  · rintro scope depth ⟨earlier, made, later, hpast, -⟩
    exact absurd hpast hnone
  · rintro scope ⟨earlier, made, later, hpast, -⟩
    exact absurd hpast hnone

/-- A call that was made is the last one, or one of those before it. -/
theorem past_cases {made last : Made} {earlier later : List Made} (h : past ++ [last] = earlier ++ made :: later) :
    made = last ∧ later = [] ∨ ∃ before, later = before ++ [last] ∧ past = earlier ++ made :: before := by
  rcases List.eq_nil_or_concat' later with rfl | ⟨before, last', rfl⟩
  · obtain ⟨-, hlast⟩ := List.append_inj' h rfl
    exact .inl ⟨(List.singleton_inj.mp hlast).symm, rfl⟩
  · rw [← List.cons_append, ← List.append_assoc] at h
    obtain ⟨hbefore, hlast⟩ := List.append_inj' h rfl
    exact .inr ⟨before, by rw [List.singleton_inj.mp hlast], hbefore⟩

/-- One more call: what it has claimed is owned, and what was owned is kept unless it was cleared. -/
theorem Recorded.step (h : Recorded id past w) (hdone : Done id call answer w w') :
    Recorded id (past ++ [⟨call, w, answer⟩]) w' := by
  refine ⟨?_, ?_⟩
  · rintro scope depth ⟨earlier, made, later, hpast, hlater, hanswer, uri, e, owner, hcall, hfound, hle⟩
    rcases past_cases hpast with ⟨rfl, rfl⟩ | ⟨before, rfl, hbefore⟩
    · obtain ⟨owner', hle', howner'⟩ := hdone.claimed scope uri e owner hcall hanswer hfound
      exact ⟨owner', Nat.le_trans hle' hle, howner'⟩
    · have howned : Owned id past scope depth := ⟨earlier, made, before, hbefore, fun m hm ↦
        hlater m (List.mem_append_left _ hm), hanswer, uri, e, owner, hcall, hfound, hle⟩
      obtain ⟨owner₁, hle₁, howner₁⟩ := h.owned scope depth howned
      obtain ⟨owner₂, hle₂, howner₂⟩ := hdone.kept scope owner₁
        (hlater _ (List.mem_append_right _ (List.mem_singleton_self _))) howner₁
      exact ⟨owner₂, Nat.le_trans hle₂ hle₁, howner₂⟩
  · rintro scope ⟨earlier, made, later, hpast, hcall, hlater⟩
    rcases past_cases hpast with ⟨rfl, rfl⟩ | ⟨before, rfl, hbefore⟩
    · exact hdone.cleared scope hcall
    · have hempty := h.cleared scope ⟨earlier, made, before, hbefore, hcall, fun m hm ↦
        hlater m (List.mem_append_left _ hm)⟩
      -- The last call was on another scope, or cleared this one again, or was refused in it.
      by_cases htarget : call.target = some scope
      · have hlast := hlater _ (List.mem_append_right _ (List.mem_singleton_self _))
        cases call with
        | focus uri => exact nomatch htarget
        | unfocus role => exact nomatch htarget
        | clearScope s => exact hdone.cleared scope (congrArg Call.clearScope (Option.some.inj htarget))
        | focusIn s uri =>
          cases hanswer : answer with
          | false => rw [hdone.refused hanswer, hempty]
          | true => exact absurd (congrArg (Call.focusIn · uri) (Option.some.inj htarget)) (hlast hanswer uri)
      · rw [hdone.moves.holding_eq (some scope) (Ne.symm htarget), hempty]

/-- What is read in a scope depends on what it holds and on what is held for all. -/
theorem read_congr (hschema : (w'.state id).schema = (w.state id).schema) {scope : Option String}
    (hscope : holding w' id scope = holding w id scope) (hglobal : holding w' id none = holding w id none)
    (role : String) : (read id scope role).value w' = (read id scope role).value w := by
  cases scope with
  | none => rw [value_read_none, value_read_none, hglobal]
  | some scope => rw [value_read_some, value_read_some, hscope, hglobal, hschema]

/-- A scope reads nothing but its own of what it owns. -/
theorem value_read_of_owned {scope role : String} {depth owner : Nat}
    (hdepth : (w.state id).schema.roleDepth role = some depth) (hle : owner ≤ depth)
    (howner : (holding w id (some scope)).ownedFrom = some owner) :
    (read id (some scope) role).value w = (holding w id (some scope)).roles role := by
  have howns : (holding w id (some scope)).owns (some depth) = true := by
    rw [Holding.owns, howner]
    simpa using hle
  rw [value_read_some, hdepth, howns, if_pos rfl, Option.or_none]

theorem Done.isolated (hdone : Done id call answer w w') (hrecorded : Recorded id past w) :
    Isolated id past call answer w w' where
  elsewhere scope htarget other hne role := by
    have hother : ∀ s, s ≠ some scope → holding w' id s = holding w id s := fun s hs ↦
      hdone.moves.holding_eq s fun heq ↦ hs (heq.trans htarget)
    exact read_congr hdone.moves.schema_eq (hother other hne) (hother none (Option.some_ne_none scope).symm) role
  owned scope role depth hdepth howned hne := by
    obtain ⟨owner, hle, howner⟩ := hrecorded.owned scope depth howned
    have hsame := hdone.moves.holding_eq (some scope) hne.symm
    rw [value_read_of_owned hdepth hle howner,
      value_read_of_owned (hdone.moves.schema_eq ▸ hdepth) hle (hsame ▸ howner), hsame]
  refused hanswer scope role :=
    read_congr hdone.moves.schema_eq (hdone.refused hanswer scope) (hdone.refused hanswer none) role
  cleared scope hcleared role := by
    rw [value_read_some, value_read_none, (hrecorded.step hdone).cleared scope hcleared]
    rfl

section Course

variable [Dispatch] (hrounds : 0 < Dispatch.rounds)
include hrounds

/-- Calls come to an end one after the other, and leave the focus ready for the next. -/
theorem ends_course (h : Ready w id) (hrecorded : Recorded id past w) (calls : List Call) :
    (course id calls).Ends w fun later w' ↦ Ready w' id ∧ Recorded id (past ++ later) w' := by
  induction calls generalizing w past with
  | nil => exact ends_pure ⟨h, past.append_nil.symm ▸ hrecorded⟩
  | cons call rest ih =>
    refine ends_get ((call.ends_perform hrounds h).bind fun answer w₁ hdone ↦ ?_)
    refine (ih hdone.moves.ready (hrecorded.step hdone)).bind fun later w₂ ⟨hready, hlater⟩ ↦ ends_pure ⟨hready, ?_⟩
    rwa [List.append_assoc] at hlater

/-- Whatever was called before, and is called next. -/
theorem ends_course_isolated (h : Ready w id) (calls : List Call) (call : Call) :
    (course id calls).Ends w fun past w' ↦
      (call.perform id).Ends w' fun answer w'' ↦ Isolated id past call answer w' w'' := by
  refine (ends_course hrounds h (recorded_nil id w) calls).mono fun past w' ⟨hready, hrecorded⟩ ↦ ?_
  exact (call.ends_perform hrounds hready).mono fun answer w'' hdone ↦ hdone.isolated hrecorded

/-- Over any store and schema, whatever is called on a new focus, and is called next: the calls come to an end,
and the scopes are isolated from each other. -/
theorem scopes_isolated (hcalm : w.Busy ∨ w.Idle) (schema : Schema) (stores : Array Store) (calls : List Call)
    (call : Call) :
    (course w.states.size calls).Ends (withState w schema stores) fun past w' ↦
      (call.perform w.states.size).Ends w' fun answer w'' ↦ Isolated w.states.size past call answer w' w'' :=
  ends_course_isolated hrounds (ready_withState w hcalm schema stores) calls call

end Course

/-- A session and a thread. -/
def threadStores : Array Store :=
  #[{ Store.empty with
    incarnations := #[⟨"s", "session", ∅, 0, true⟩, ⟨"t", "thread", ∅, 0, true⟩]
    live := .ofList [("s", 1), ("t", 2)] }]

/-- It is so of a scope that has focused a thread and owns that role, when a session is focused for all. -/
theorem scopes_isolated_thread :
    0 < (dispatch 2).rounds ∧ World.empty.Idle ∧
      (@course (dispatch 2) World.empty.states.size [.focusIn "left" "t"]).Ends
        (withState .empty .debugger threadStores) fun past w' ↦ Owned World.empty.states.size past "left" 1 ∧
          (@Call.perform (dispatch 2) World.empty.states.size (.focus "s")).Ends w' fun answer w'' ↦
            Isolated World.empty.states.size past (.focus "s") answer w' w'' := by
  have hidle : World.empty.Idle := fun _ _ ↦ ⟨rfl, rfl⟩
  have hrounds : 0 < (dispatch 2).rounds := Nat.one_pos
  refine ⟨hrounds, hidle, ?_⟩
  obtain ⟨past, w', hrun, hcall⟩ := @scopes_isolated _ (dispatch 2) hrounds (.inr hidle) .debugger threadStores
    [.focusIn "left" "t"] (.focus "s")
  have hmade : (match @course (dispatch 2) World.empty.states.size [.focusIn "left" "t"]
        (withState .empty .debugger threadStores) with
      | .ok past _ => past.map fun m ↦
        (m.call, m.answer, found? m.before (m.before.state World.empty.states.size) "t")
      | .error _ _ => []) = [(.focusIn "left" "t", true, some (⟨0, 2⟩, 1))] := by decide +kernel
  rw [hrun] at hmade
  obtain ⟨made, rfl, hfacts⟩ := List.map_eq_singleton_iff.mp hmade
  simp only [Prod.mk.injEq] at hfacts
  obtain ⟨hcalled, hanswer, hfound⟩ := hfacts
  have howned : Owned World.empty.states.size [made] "left" 1 :=
    ⟨[], made, [], rfl, fun _ hm ↦ absurd hm List.not_mem_nil, hanswer, "t", _, 1, hcalled, hfound, Nat.le_refl 1⟩
  exact ⟨[made], w', hrun, howned, hcall⟩

end LiveGraph.Focus
