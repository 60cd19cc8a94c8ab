import LiveGraph.Proofs.Breakpoint.Service
import LiveGraph.Proofs.Index.Listing
import LiveGraph.Session.Basic

/-!
# Concurrent toggles

Any number of toggles on one path are started, polled, opened and dropped in any order, and others do what
leaves the path alone. The calls that are completed come to what they come to when they are carried out
one after the other, in the order in which they joined the line for the lock of the path.
-/

namespace LiveGraph.Breakpoint

open Act

variable {own : String → Prop} {δ : Definitions} {path : String} {D : Dispatch} {w₀ w : World}
variable {ς : Scene} {q : Waiting} {h : List (Call × World)} {α : Type}

/-- What happens while there are toggles on a path: steps of a session that have to do with them, and what
others do. -/
inductive Moment (own : String → Prop)
  | start (name : String) (line : Nat) (column : Option Nat)
  | toggle (line : Nat) (column : Option Nat)
  | open (name : String) (opening : Opening)
  | poll (name : String)
  | cancel (name : String)
  | other (c : Client (Reaction own))

namespace Moment

/-- The claim and the location of a call that may be completed now. -/
def call? (w : World) (path : String) : Moment own → Option (Nat × Location)
  | start _ line column => some (w.session.claims, ⟨path, line, column⟩)
  | toggle line column => some (w.session.claims, ⟨path, line, column⟩)
  | poll name => (w.session.tasks.get? name).bind fun t ↦
    match t.work with
    | .toggle _ l _ => some (t.claim, l)
    | _ => none
  | _ => none

/-- Carries out a step on behalf of a call, and gives the call if that is completed by it. -/
def step [Dispatch] (call? : Option (Nat × Location)) (s : Step) : Act (Option Call) := do
  match call?, ← Session.run s with
  | some (claim, l), .ready (.toggled r) => return some ⟨claim, l, r⟩
  | _, _ => return none

/-- What happens, and the call that is completed by it, if one is. -/
noncomputable def perform [Dispatch] (path : String) (m : Moment own) : Act (Option Call) := do
  let call? := m.call? (← get) path
  match m with
  | start name line column => step call? (.startToggle name ⟨path, line, column⟩)
  | toggle line column => step call? (.toggle ⟨path, line, column⟩)
  | .open name opening => step call? (.open name opening)
  | poll name => step call? (.poll name)
  | cancel name => step call? (.cancel name)
  | other c => do
    (c.sparing (SamePath path)).run Reaction.perform
    return none

end Moment

/-- The calls that are completed while things happen, in the order of their completion. -/
noncomputable def completed [Dispatch] (path : String) : List (Moment own) → Act (List Call)
  | [] => return []
  | m :: rest => do
    let call? ← m.perform path
    return call?.toList ++ (← completed path rest)

/-- What a step on behalf of a call has come to: the call goes on or is given up, or it is completed. -/
def Answered (own : String → Prop) (δ : Definitions) (path : String) (D : Dispatch) (w₀ : World)
    (h : List (Call × World)) (claim : Nat) (l : Location) (reply : Reply) (w : World) : Prop :=
  reply = .pending ∧ Ongoing own δ path D w₀ h w ∨
    ∃ r w₁, reply = .ready (.toggled r) ∧ Ongoing own δ path D w₀ (h ++ [(⟨claim, l, r⟩, w₁)]) w

namespace Ongoing

variable (hw : Ongoing own δ path D w₀ h w)
include hw

theorem unpin (p : Pin) : Ongoing own δ path D w₀ h (w.unpin p) := by
  obtain ⟨ς, q, hs, hlined⟩ := hw
  exact ⟨ς, q, hs.unpin p, hlined⟩

end Ongoing

namespace Answered

theorem unpin {claim : Nat} {l : Location} {reply : Reply}
    (hw : Answered own δ path D w₀ h claim l reply w) (p : Pin) :
    Answered own δ path D w₀ h claim l reply (w.unpin p) := by
  rcases hw with ⟨rfl, hw⟩ | ⟨r, w₁, rfl, hw⟩
  · exact .inl ⟨rfl, hw.unpin p⟩
  · exact .inr ⟨r, w₁, rfl, hw.unpin p⟩

end Answered

/-- Whoever has a name is dropped and leaves the line. -/
theorem Served.cancelTask (hs : Served own δ path D w₀ ς q h w) (hlined : q.Lined path (claims h) ς)
    (name : String) : ∃ q', Served own δ path D w₀ ς q' h (w.cancelTask name) ∧
      q'.Lined path (claims h) ς ∧ ∀ claim, q.Latest (claims h) claim → q'.Latest (claims h) claim := by
  unfold World.cancelTask
  cases hname : w.session.tasks.get? name with
  | none => exact ⟨q, hs, hlined, fun _ h ↦ h⟩
  | some t =>
    obtain ⟨l, found, hgoes⟩ := hlined.poll ((hs.holds.tasks_eq name).symm.trans hname)
    refine ⟨(q.leave t.claim).call name none, ?_, hgoes.quit, fun _ h ↦ (h.leave t.claim).call name none⟩
    have hleft : Served own δ path D w₀ ς (q.leave t.claim) h (w.leaveLine t) := by
      rw [hgoes.self.task_eq]
      exact hs.leaveLine hgoes.path_eq
    exact hleft.dropTaskName name

namespace Callbacks

theorem agree_held {a : Act Reply} {Q : Reply → World → Prop} (hs : Served own δ path D w₀ ς q h w)
    (ha : ∀ w, Served own δ path D w₀ ς q h w → Agree (· = w) a a Q fun _ ↦ False)
    (hQ : ∀ r w p, Q r w → Q r (w.unpin p)) :
    Agree (· = w) (Session.holdingCurrent a) (Session.holdingCurrent a) Q fun _ ↦ False := by
  refine agree_get fun w' (hw' : w' = w) ↦ ?_
  subst hw'
  exact agree_bind (agree_change _) fun _ ↦ agree_followedBy (ha _ (hs.pin _)) (fun r w ↦ hQ r w _)
    fun _ h ↦ h.elim

theorem agree_cancel (hs : Served own δ path D w₀ ς q h w) (hlined : q.Lined path (claims h) ς)
    (name : String) : Agree (· = w) (Session.cancel name) (Session.cancel name)
      (fun _ ↦ Ongoing own δ path D w₀ h) fun _ ↦ False := by
  refine agree_get fun w' (hw' : w' = w) ↦ ?_
  subst hw'
  obtain ⟨q', hs', hlined', -⟩ := hs.cancelTask hlined name
  exact agree_bind (agree_change _) fun _ ↦ agree_pure
    fun _ hw ↦ hw ▸ ⟨ς, q', hs', hlined'⟩

/-- A name that stands for no task changes nothing. -/
theorem agree_poll_none (hs : Served own δ path D w₀ ς q h w) (hlined : q.Lined path (claims h) ς)
    {name : String} (hname : q.tasks name = none) :
    Agree (· = w) (@Session.poll D name) (@Session.poll D name)
      (fun _ ↦ Ongoing own δ path D w₀ h) fun _ ↦ False := by
  refine agree_get fun w' (hw' : w' = w) ↦ ?_
  subst hw'
  rw [hs.holds.tasks_eq, hname]
  exact agree_pure fun _ hw ↦ hw ▸ ⟨ς, q, hs, hlined⟩

variable (hD : Callbacks own δ path D)
include hD

/-- A task that is polled loses its name, and gets it back if it has to wait. -/
theorem agree_poll {t : Task} {l : Location} {found : Option (Option EntityRef)} {name : String}
    (hs : Served own δ path D w₀ ς q h w) (hname : q.tasks name = some t)
    (hready : Ready (q.call name none) path (claims h) ς t l found) :
    Agree (· = w) (@Session.poll D name) (@Session.poll D name)
      (Answered own δ path D w₀ h t.claim l) fun _ ↦ False := by
  have hwork : t.work = .toggle 0 l found := hready.work_eq
  refine agree_get fun w' (hw' : w' = w) ↦ ?_
  subst hw'
  rw [hs.holds.tasks_eq, hname]
  simp only [Session.withThing, Session.storeOf, hwork]
  have hpinned := (hs.pin (.store (w'.state 0).store)).dropTaskName name
  refine agree_bind (agree_change _) fun _ ↦ agree_followedBy
    (Q := Answered own δ path D w₀ h t.claim l) (C := fun _ ↦ False)
    (agree_bind (agree_change _) fun _ ↦
      agree_bind (hD.agree_advance name hpinned hready) fun p w₁ hw₁ ↦ ?_)
    (fun _ _ hw ↦ hw.unpin _) fun _ h ↦ h
  cases p with
  | waiting t' =>
    obtain ⟨q', found', hs', hgoes⟩ := hw₁
    exact agree_bind (agree_modify fun w (hw : w = w₁) ↦ hw ▸ hs'.nameTask name t') (fun _ ↦
      agree_pure fun _ hw ↦ .inl ⟨rfl, ς, _, hw, hgoes.wait name⟩) w₁ rfl
  | done o =>
    obtain ⟨r, w₂, rfl, hongoing⟩ := hw₁
    exact agree_pure (fun w (hw : w = w₁) ↦ hw ▸ .inr ⟨r, w₂, rfl, hongoing⟩) w₁ rfl

/-- A task that is started gets its claim, is named, and is polled for the first time. -/
theorem agree_start (hs : Served own δ path D w₀ ς q h w) (hlined : q.Lined path (claims h) ς)
    (name : String) {l : Location} (hl : l.path = path) :
    Agree (· = w) (@Session.startTask D name true (.toggle 0 l none))
      (@Session.startTask D name true (.toggle 0 l none)) (Answered own δ path D w₀ h q.claims l)
      fun _ ↦ False := by
  have hclosed : Served own δ path D w₀ ς q.next h (w.nextClaim.2.closeGate name) :=
    hs.nextClaim.modifySession _ rfl rfl rfl
  obtain ⟨q', hs', hlined', hlatest⟩ := hclosed.cancelTask hlined.next name
  have hnamed := hs'.nameTask name ⟨q.claims, false, .toggle 0 l none⟩
  refine agree_bind (agree_changeGet _) fun claim w₁ ⟨hclaim, hw₁⟩ ↦ ?_
  obtain rfl : claim = q.claims := hclaim.trans hs.holds.claims_eq
  subst hw₁
  have hpoll := hD.agree_poll hnamed (by rw [Waiting.tasks_call, if_pos rfl])
    (.arrives hl (by rw [Waiting.call_call]; exact hlined'.forget name) (by
      rw [Waiting.call_call]
      exact (hlatest _ hlined.latest).call name none))
  exact (agree_bind (agree_change _) fun _ ↦ agree_bind (agree_change _) fun _ ↦ hpoll :
    Agree (· = w.nextClaim.2) _ _ _ _) _ rfl

/-- Who tries once joins the line, and leaves it whether or not he was the first. -/
theorem agree_toggleNow {claim : Nat} (hs : Served own δ path D w₀ ς q h w)
    (hlined : q.Lined path (claims h) ς) (hlatest : q.Latest (claims h) claim) {l : Location}
    (hl : l.path = path) :
    Agree (· = w) (@Task.toggleNow D claim 0 l) (@Task.toggleNow D claim 0 l)
      (fun r? w' ↦ match r? with
        | none => Ongoing own δ path D w₀ h w'
        | some r => ∃ w₁, Ongoing own δ path D w₀ (h ++ [(⟨claim, l, r⟩, w₁)]) w') fun _ ↦ False := by
  have hgoes := hlined.join hlatest hl
  have hjoined : Served own δ path D w₀ ς (q.join claim) h
      (w.joinLine ⟨claim, true, .toggle 0 l none⟩) := hs.joinLine hl
  refine agree_bind (agree_change _) fun _ ↦ agree_followedBy (C := fun _ ↦ False)
    (Q := fun r? w' ↦ match r? with
      | none => Served own δ path D w₀ ς (q.join claim) h w'
      | some r => (q.join claim).line.head? = some claim ∧
        ∃ w₁ ς', Served own δ path D w₀ ς' (q.join claim) (h ++ [(⟨claim, l, r⟩, w₁)]) w')
    (agree_get fun w' (hw' : w' = _) ↦ ?_) (fun r? w' hw' ↦ ?_) fun _ h ↦ h
  · subst hw'
    refine agree_ite (fun hturn ↦ ?_) fun _ ↦ agree_pure fun w' hw' ↦ hw' ▸ hjoined
    have hfirst := (hjoined.hasTurn_iff hl).mp hturn
    rw [hjoined.store_eq, hjoined.find_eq hD.owned hD.defined hl]
    exact agree_bind (hD.agree_carryOut hjoined claim hl) fun r ↦ agree_pure fun w' ⟨ς', hs'⟩ ↦
      ⟨hfirst, _, ς', hs'⟩
  · cases r? with
    | none => exact ⟨ς, _, Served.leaveLine hw' hl, hgoes.quit⟩
    | some r =>
      obtain ⟨hfirst, w₁, ς', hs'⟩ := hw'
      refine ⟨w₁, ς', _, hs'.leaveLine hl, ?_⟩
      rw [claims_append]
      exact hgoes.finish hfirst ς'

/-- A toggle that tries once takes a claim. -/
theorem agree_toggleOnce (hs : Served own δ path D w₀ ς q h w) (hlined : q.Lined path (claims h) ς)
    {l : Location} (hl : l.path = path) :
    Agree (· = w) (@Session.toggle D l) (@Session.toggle D l) (Answered own δ path D w₀ h q.claims l)
      fun _ ↦ False := by
  refine agree_bind (agree_changeGet _) fun claim w₁ ⟨hclaim, hw₁⟩ ↦ ?_
  obtain rfl : claim = q.claims := hclaim.trans hs.holds.claims_eq
  subst hw₁
  refine (agree_get fun w₁ (hw₁ : w₁ = w.nextClaim.2) ↦ ?_ : Agree (· = w.nextClaim.2) _ _ _ _) _ rfl
  subst hw₁
  have hcurrent : w.nextClaim.2.session.current = 0 := hs.holds.current_eq
  rw [hcurrent]
  refine agree_bind (hD.agree_toggleNow hs.nextClaim hlined.next hlined.latest hl) fun r? ↦ ?_
  cases r? with
  | none => exact agree_pure fun _ hw ↦ .inl ⟨rfl, hw⟩
  | some r => exact agree_pure fun _ ⟨w₁, hw⟩ ↦ .inr ⟨r, w₁, rfl, hw⟩

/-- What others do leaves the path alone, and the session. -/
theorem agree_other (hs : Served own δ path D w₀ ς q h w) (c : Client (Reaction own)) :
    Agree (· = w) (@Client.run _ D (@Reaction.perform own D) (c.sparing (SamePath path)))
      (@Client.run _ D (@Reaction.perform own D) (c.sparing (SamePath path)))
      (fun _ ↦ Served own δ path D w₀ ς q h) fun _ ↦ True := by
  have hat : At (Indexed own δ w.background (.whole ∅)) 0 false w :=
    ⟨⟨hs.holds.scened.indexed, hs.depth_eq, hs.flushing_eq⟩, hs.idle⟩
  have hrun := Client.agree_run_sparing Indexed.depthFree
    (fun _ _ _ h ↦ h : ∀ w, DepthFree (SamePath path w))
    (fun r d f ↦ r.agree_perform fun δ ↦ hD.indexed δ w.background)
    ((hD.indexed δ w.background).agree_flush Indexed.filed) c 0 hat
  refine (agree_recorded hrun).mono (fun _ h ↦ h) (fun _ w' hw' ↦ ?_) fun _ _ ↦ trivial
  obtain ⟨⟨hat', hsame⟩, hran⟩ := hw'
  have hscene : scene w' path = ς := hsame.trans hs.holds.scened.known
  exact hscene ▸ hs.changed hat' (.other _ hs.holds.serial hran hsame)

end Callbacks

/-- Some more calls were completed, and toggles go on as they should. -/
def Recorded (own : String → Prop) (δ : Definitions) (path : String) (D : Dispatch) (w₀ : World)
    (h : List (Call × World)) (calls : List Call) (w : World) : Prop :=
  ∃ h', h'.map Prod.fst = h.map Prod.fst ++ calls ∧ Ongoing own δ path D w₀ h' w

theorem Ongoing.recorded (hw : Ongoing own δ path D w₀ h w) : Recorded own δ path D w₀ h [] w :=
  ⟨h, (List.append_nil _).symm, hw⟩

namespace Moment

/-- A step on behalf of a call completes that call or none. -/
theorem agree_step {claim : Nat} {l : Location} {s : Step}
    (hs : Agree (· = w) (@Session.run D s) (@Session.run D s) (Answered own δ path D w₀ h claim l)
      fun _ ↦ False) :
    Agree (· = w) (@step D (some (claim, l)) s) (@step D (some (claim, l)) s)
      (fun call? ↦ Recorded own δ path D w₀ h call?.toList) fun _ ↦ True := by
  refine agree_bind (hs.mono (fun _ h ↦ h) (fun _ _ h ↦ h) fun _ _ ↦ trivial) fun reply w' hw' ↦ ?_
  rcases hw' with ⟨rfl, hw⟩ | ⟨r, w₁, rfl, hw⟩
  · exact ⟨rfl, hw.recorded⟩
  · exact ⟨rfl, _, List.map_append, hw⟩

/-- A step that is on behalf of no call completes none. -/
theorem agree_step_none {s : Step} (hs : Agree (· = w) (@Session.run D s) (@Session.run D s)
      (fun _ ↦ Ongoing own δ path D w₀ h) fun _ ↦ False) :
    Agree (· = w) (@step D none s) (@step D none s)
      (fun call? ↦ Recorded own δ path D w₀ h call?.toList) fun _ ↦ True :=
  agree_bind (hs.mono (fun _ h ↦ h) (fun _ _ h ↦ h) fun _ _ ↦ trivial) fun _ ↦
    agree_pure fun _ hw ↦ hw.recorded

variable (hD : Callbacks own δ path D)
include hD

/-- Whatever happens, toggles go on as they should, and a call that is completed is put on record. -/
theorem agree_perform (m : Moment own) :
    Agree (Ongoing own δ path D w₀ h) (@perform own D path m) (@perform own D path m)
      (fun call? ↦ Recorded own δ path D w₀ h call?.toList) fun _ ↦ True := by
  refine agree_get fun w ⟨ς, q, hs, hlined⟩ ↦ ?_
  have hheld {s : Step} {Q : Reply → World → Prop}
      (hact : ∀ w, Served own δ path D w₀ ς q h w → Agree (· = w) (@Session.runPlain D s)
        (@Session.runPlain D s) Q fun _ ↦ False) (hQ : ∀ r w p, Q r w → Q r (w.unpin p)) :
      Agree (· = w) (Session.holdingCurrent (@Session.runPlain D s))
        (Session.holdingCurrent (@Session.runPlain D s)) Q fun _ ↦ False :=
    Callbacks.agree_held hs hact hQ
  have hclaims := hs.holds.claims_eq
  have htasks := hs.holds.tasks_eq
  cases m with
  | start name line column =>
    refine agree_step (hheld (fun w hs ↦ agree_get fun w' (hw' : w' = w) ↦ ?_) fun _ _ _ h ↦ h.unpin _)
    subst hw'
    have hstart := hD.agree_start hs hlined name (l := ⟨path, line, column⟩) rfl
    rw [← hs.holds.current_eq, ← hclaims] at hstart
    exact hstart
  | toggle line column =>
    refine agree_step (hheld (fun w hs ↦ agree_get fun w' (hw' : w' = w) ↦ ?_) fun _ _ _ h ↦ h.unpin _)
    have htoggle := hD.agree_toggleOnce hs hlined (l := ⟨path, line, column⟩) rfl
    rw [← hclaims] at htoggle
    exact hw' ▸ htoggle
  | «open» name opening =>
    refine agree_step_none (hheld (fun w hs ↦ agree_get fun w' (hw' : w' = w) ↦ ?_)
      fun _ _ _ h ↦ h.unpin _)
    subst hw'
    exact agree_bind (agree_change _) fun _ ↦ agree_pure fun _ hw ↦
      ⟨ς, q, hw ▸ hs.modifySession _ rfl rfl rfl, hlined⟩
  | poll name =>
    change Agree (· = w) (@step D ((poll name : Moment own).call? w path) (.poll name))
      (@step D ((poll name : Moment own).call? w path) (.poll name)) _ _
    rw [call?, htasks]
    cases hname : q.tasks name with
    | none =>
      refine agree_step_none (hheld (fun w hs ↦ agree_get fun w' (hw' : w' = w) ↦ ?_)
        fun _ _ _ h ↦ h.unpin _)
      subst hw'
      exact Callbacks.agree_poll_none hs hlined hname
    | some t =>
      obtain ⟨l, found, hgoes⟩ := hlined.poll hname
      have hwork : t.work = .toggle 0 l found := by rw [hgoes.self.task_eq]
      simp only [Option.bind_some, hwork]
      exact agree_step (hheld (fun w hs ↦ agree_get fun w' (hw' : w' = w) ↦
        hw' ▸ hD.agree_poll hs hname (.stands hgoes)) fun _ _ _ h ↦ h.unpin _)
  | cancel name =>
    refine agree_step_none (hheld (fun w hs ↦ agree_get fun w' (hw' : w' = w) ↦ ?_)
      fun _ _ _ h ↦ h.unpin _)
    exact hw' ▸ Callbacks.agree_cancel hs hlined name
  | other c => exact agree_bind (hD.agree_other hs c) fun _ ↦ agree_pure fun _ hw ↦
      Ongoing.recorded ⟨ς, q, hw, hlined⟩

end Moment

namespace Ongoing

theorem serial (hw : Ongoing own δ path D w₀ h w) : Serial own path D w₀ h w := by
  obtain ⟨ς, q, hs, -⟩ := hw
  exact hs.holds.serial

theorem sorted (hw : Ongoing own δ path D w₀ h w) : (claims h).Pairwise (· < ·) := by
  obtain ⟨ς, q, -, hlined⟩ := hw
  exact hlined.done_sorted

end Ongoing

/-- What others may have done before: anything but to define the index of sources anew. -/
def prepare (react : String → Event → Client (Reaction (· = sourceIndex))) (n : Nat)
    (c : Client (Reaction (· = sourceIndex))) : Act Unit :=
  @Client.run _ (Reaction.dispatch react n) (@Reaction.perform _ (Reaction.dispatch react n)) c

section Start

variable (schema : Schema) (keepsFirst : Bool)

end Start

/-- A session in which others have prepared the store, and some things have happened already: what happens
from then on, with the world at that moment and the calls that are completed. -/
noncomputable def toggling (path : String) (react react' : String → Event → Client (Reaction (· = sourceIndex)))
    (n n' : Nat) (preparation : Client (Reaction (· = sourceIndex)))
    (before moments : List (Moment (· = sourceIndex))) : Act (World × List Call) := do
  prepare react n preparation
  let _ ← @completed _ (sealedDispatch path react' n') path before
  let w ← get
  return (w, ← @completed _ (sealedDispatch path react' n') path moments)

section Run

variable (path : String) (react react' : String → Event → Client (Reaction (· = sourceIndex)))
variable (n n' : Nat) (preparation : Client (Reaction (· = sourceIndex)))
variable (before moments : List (Moment (· = sourceIndex))) (schema : Schema) (keepsFirst : Bool)

end Run

end LiveGraph.Breakpoint
