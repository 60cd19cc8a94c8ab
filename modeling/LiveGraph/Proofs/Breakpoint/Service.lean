import LiveGraph.Proofs.Breakpoint.Line
import LiveGraph.Proofs.Breakpoint.Serial
import LiveGraph.Proofs.Lock.Line

/-!
# The service of a path

The tasks of a session and the lock of a path, together with what is on the path. The steps of a toggle
that come before and after what it carries out have to do with tasks and locks alone.
-/

namespace LiveGraph

namespace Breakpoint

open Act

variable {own : String → Prop} {δ : Definitions} {β : Background} {path : String} {D : Dispatch}
variable {w₀ w w' : World} {ς : Scene} {q q' : Waiting} {h : List (Call × World)}

namespace Beside

theorem modifySession (w : World) (F : Session → Session)
    (hF : (F w.session).current = w.session.current) : Beside w (w.modifySession F) :=
  .mk (F w.session) w.states w.pins hF rfl fun _ ↦ rfl

theorem modifyLocks (w : World) (id : StateId) (F : KeyedMutex → KeyedMutex) :
    Beside w (w.modifyState id fun s ↦ { s with locks := F s.locks }) := by
  refine .mk w.session _ w.pins rfl (w.size_modifyState id _) fun id' ↦ ?_
  have hstate := w.state_modifyState id (fun s ↦ { s with locks := F s.locks }) id'
  have heq : (w.modifyState id fun s ↦ { s with locks := F s.locks }).state id' =
      { w.state id' with
        locks := ((w.modifyState id fun s ↦ { s with locks := F s.locks }).state id').locks } := by
    rw [hstate]
    split <;> rfl
  exact heq

theorem setPins (w : World) (pins : List Pin) : Beside w { w with pins := pins } :=
  .mk w.session w.states pins rfl rfl fun _ ↦ rfl

theorem quiet (hw : Beside w w') : w.Quiet w' := by
  cases hw
  exact ⟨rfl, rfl, rfl, rfl⟩

theorem scened {Φ : Scene → Prop} (hw : Beside w w') (h : Scened own δ β path Φ (.whole ∅) w) :
    Scened own δ w'.background path Φ (.whole ∅) w' := by
  obtain ⟨session, states, pins, hcurrent, hsize, hstate⟩ := hw
  have hground : Ground (fun _ ↦ False) w := h.indexed.ground
  refine ⟨h.indexed.aside session states pins ⟨?_, ?_⟩ fun id ↦ ?_, h.known⟩
  · rw [hcurrent, hsize]
    exact hground.current.1
  · rw [hcurrent, hstate]
    exact hground.current.2
  · rw [hstate]
    rfl

end Beside

/-- The world as it is for those who toggle on a path, after some calls were completed. -/
structure Serving (own : String → Prop) (δ : Definitions) (path : String) (D : Dispatch) (w₀ : World)
    (ς : Scene) (q : Waiting) (h : List (Call × World)) (w : World) : Prop where
  scened : Scened own δ w.background path (· = ς) (.whole ∅) w
  current_eq : w.session.current = 0
  tasks_eq : ∀ name, w.session.tasks.get? name = q.tasks name
  line_eq : (w.state 0).locks.line path = q.line
  claims_eq : w.session.claims = q.claims
  serial : Serial own path D w₀ h w

/-- The same between two acts outside of all batches, where nothing is left to be told. -/
def Served (own : String → Prop) (δ : Definitions) (path : String) (D : Dispatch) (w₀ : World)
    (ς : Scene) (q : Waiting) (h : List (Call × World)) : World → Prop :=
  At (Serving own δ path D w₀ ς q h) 0 false

namespace Served

variable (hs : Served own δ path D w₀ ς q h w)
include hs

theorem beside (hw : Beside w w') (htasks : ∀ name, w'.session.tasks.get? name = q'.tasks name)
    (hline : (w'.state 0).locks.line path = q'.line) (hclaims : w'.session.claims = q'.claims) :
    Served own δ path D w₀ ς q' h w' := by
  refine hs.quiet hw.quiet ⟨hw.scened hs.holds.scened, ?_, htasks, hline, hclaims, hs.holds.serial.aside hw⟩
  cases hw with
  | mk _ _ _ hcurrent _ _ => exact hcurrent.trans hs.holds.current_eq

theorem effects_eq : w.effects = [] :=
  (hs.idle hs.depth_eq hs.flushing_eq).2

/-- What is noted and what is opened has nothing to do with those who wait. -/
theorem modifySession (F : Session → Session) (hcurrent : (F w.session).current = w.session.current)
    (htasks : (F w.session).tasks = w.session.tasks) (hclaims : (F w.session).claims = w.session.claims) :
    Served own δ path D w₀ ς q h (w.modifySession F) :=
  hs.beside (.modifySession w F hcurrent)
    (fun name ↦ (congrArg (·.get? name) htasks).trans (hs.holds.tasks_eq name)) hs.holds.line_eq
    (hclaims.trans hs.holds.claims_eq)

theorem nameTask (name : String) (t : Task) :
    Served own δ path D w₀ ς (q.call name (some t)) h (w.nameTask name t) := by
  refine hs.beside (.modifySession w _ rfl) (fun name' ↦ ?_) hs.holds.line_eq hs.holds.claims_eq
  have htasks : (w.nameTask name t).session.tasks = w.session.tasks.insert name t := rfl
  rw [htasks, Std.TreeMap.get?_eq_getElem?, Std.TreeMap.getElem?_insert, Waiting.tasks_call,
    ← hs.holds.tasks_eq]
  refine if_congr ?_ rfl rfl
  rw [Std.LawfulEqOrd.compare_eq_iff_eq]
  exact eq_comm

theorem dropTaskName (name : String) :
    Served own δ path D w₀ ς (q.call name none) h (w.dropTaskName name) := by
  refine hs.beside (.modifySession w _ rfl) (fun name' ↦ ?_) hs.holds.line_eq hs.holds.claims_eq
  have htasks : (w.dropTaskName name).session.tasks = w.session.tasks.erase name := rfl
  rw [htasks, Std.TreeMap.get?_eq_getElem?, Std.TreeMap.getElem?_erase, Waiting.tasks_call,
    ← hs.holds.tasks_eq]
  refine if_congr ?_ rfl rfl
  rw [Std.LawfulEqOrd.compare_eq_iff_eq]
  exact eq_comm

theorem nextClaim : Served own δ path D w₀ ς q.next h w.nextClaim.2 :=
  hs.beside (.modifySession w (fun s ↦ { s with claims := s.claims + 1 }) rfl) hs.holds.tasks_eq
    hs.holds.line_eq (congrArg (· + 1) hs.holds.claims_eq)

theorem modifyLocks (F : KeyedMutex → KeyedMutex) {line : List Nat}
    (hF : (F (w.state 0).locks).line path = line) :
    Served own δ path D w₀ ς { q with line := line } h
      (w.modifyState 0 fun s ↦ { s with locks := F s.locks }) := by
  refine hs.beside (.modifyLocks w 0 F) hs.holds.tasks_eq ?_ hs.holds.claims_eq
  have hsize : 0 < w.states.size := by
    have hground : Ground (fun _ ↦ False) w := hs.holds.scened.indexed.ground
    rw [← hs.holds.current_eq]
    exact hground.current.1
  rw [w.state_modifyState, if_pos ⟨rfl, hsize⟩]
  exact hF

theorem joinLine {claim : Nat} {claimed : Bool} {l : Location} {found : Option (Option EntityRef)}
    (hl : l.path = path) :
    Served own δ path D w₀ ς (q.join claim) h (w.joinLine ⟨claim, claimed, .toggle 0 l found⟩) := by
  refine hs.modifyLocks (·.join l.path claim) ?_
  rw [KeyedMutex.line_join, if_pos hl, hl, hs.holds.line_eq]

theorem leaveLine {claim : Nat} {l : Location} {found : Option (Option EntityRef)} (hl : l.path = path) :
    Served own δ path D w₀ ς (q.leave claim) h (w.leaveLine ⟨claim, true, .toggle 0 l found⟩) := by
  refine hs.modifyLocks (·.leave l.path claim) ?_
  rw [KeyedMutex.line_leave, if_pos hl, hl, hs.holds.line_eq]

theorem hasTurn_iff {claim : Nat} {claimed : Bool} {l : Location} {found : Option (Option EntityRef)}
    (hl : l.path = path) :
    w.hasTurn ⟨claim, claimed, .toggle 0 l found⟩ = true ↔ q.line.head? = some claim := by
  rw [← hs.holds.line_eq, ← hl]
  exact KeyedMutex.isHolder_iff _ l.path claim

theorem store_eq : (w.state 0).store = 0 := by
  have hground : Ground (fun _ ↦ False) w := hs.holds.scened.indexed.ground
  have hstore := hground.current.2
  rwa [hs.holds.current_eq] at hstore

theorem pin (p : Pin) : Served own δ path D w₀ ς q h (w.pin p) :=
  hs.beside (.setPins w _) hs.holds.tasks_eq hs.holds.line_eq hs.holds.claims_eq

theorem unpin (p : Pin) : Served own δ path D w₀ ς q h (w.unpin p) := by
  have hpins : Served own δ path D w₀ ς q h { w with pins := w.pins.erase p } :=
    hs.beside (.setPins w _) hs.holds.tasks_eq hs.holds.line_eq hs.holds.claims_eq
  rw [World.unpin, hpins.holds.scened.indexed.reap_eq]
  exact hpins

/-- Where the store was changed, those who wait wait still. -/
theorem changed {h' : List (Call × World)} (hat : At (Indexed own δ w.background (.whole ∅)) 0 false w')
    (hserial : Serial own path D w₀ h' w') : Served own δ path D w₀ (scene w' path) q h' w' := by
  have hbackground : w'.background = w.background := hat.holds.behind.background_eq
  have hsession : w'.session = w.session := congrArg Background.session hbackground
  have hstate : { w'.state 0 with issued := 0 } = { w.state 0 with issued := 0 } :=
    congrFun (congrArg Background.states hbackground) 0
  have hlocks : (w'.state 0).locks = (w.state 0).locks := by
    have := congrArg State.locks hstate
    exact this
  refine ⟨⟨⟨⟨hbackground ▸ hat.holds, rfl⟩, ?_, ?_, ?_, ?_, hserial⟩, hat.depth_eq, hat.flushing_eq⟩,
    hat.idle⟩
  · rw [hsession, hs.holds.current_eq]
  · rw [hsession]
    exact hs.holds.tasks_eq
  · rw [hlocks, hs.holds.line_eq]
  · rw [hsession, hs.holds.claims_eq]

/-- What was done is put on record, or a record is begun. -/
theorem record {w₁ : World} {h' : List (Call × World)} (hserial : Serial own path D w₁ h' w) :
    Served own δ path D w₁ ς q h' w :=
  ⟨⟨{ hs.holds with serial := hserial }, hs.depth_eq, hs.flushing_eq⟩, hs.idle⟩

/-- The service finds what a location means. -/
theorem find_eq (hown : own sourceIndex) (hδ : δ sourceIndex = some (sourceKind, sourceExtractor))
    {l : Location} (hl : l.path = path) : (find 0 l).value w = ς.find l := by
  rw [find_value hs.holds.scened.indexed hs.effects_eq hown hδ, hl, hs.holds.scened.known]

end Served

end Breakpoint

end LiveGraph

/-!
## Polling a toggle

A toggle that is polled joins the line for the lock of its path, unless it stands there already. If it is
the first it looks up what its location means, asks, and is completed as soon as there is a verdict, all at
once: what it does then is what it does alone.
-/

namespace LiveGraph.Breakpoint

open Act

variable {own : String → Prop} {δ : Definitions} {path : String} {D : Dispatch} {w₀ w : World}
variable {ς : Scene} {q : Waiting} {h : List (Call × World)} {α : Type}

/-- The claims of the calls that were completed. -/
def claims (h : List (Call × World)) : List Nat :=
  h.map (·.1.claim)

theorem claims_append (h : List (Call × World)) (c : Call) (w : World) :
    claims (h ++ [(c, w)]) = claims h ++ [c.claim] :=
  List.map_append

/-- Where toggles go on as they should: the world, those who wait, and the calls that were completed. -/
def Ongoing (own : String → Prop) (δ : Definitions) (path : String) (D : Dispatch) (w₀ : World)
    (h : List (Call × World)) (w : World) : Prop :=
  ∃ ς q, Served own δ path D w₀ ς q h w ∧ q.Lined path (claims h) ς

/-- A toggle in line, or one that has just got its claim and is about to join. -/
inductive Ready (q : Waiting) (path : String) (done : List Nat) (ς : Scene) :
    Task → Location → Option (Option EntityRef) → Prop
  | stands {t : Task} {l : Location} {found : Option (Option EntityRef)} :
    q.GoesOn path done ς t l found → Ready q path done ς t l found
  | arrives {claim : Nat} {l : Location} : l.path = path → q.Lined path done ς → q.Latest done claim →
    Ready q path done ς ⟨claim, false, .toggle 0 l none⟩ l none

theorem Ready.work_eq {t : Task} {l : Location} {found : Option (Option EntityRef)} {done : List Nat}
    (hready : Ready q path done ς t l found) : t.work = .toggle 0 l found := by
  cases hready with
  | stands hgoes => rw [hgoes.self.task_eq]
  | arrives => rfl

/-- Who does not stand in line yet joins it. -/
theorem agree_queueUp {t : Task} {l : Location} {found : Option (Option EntityRef)}
    (hs : Served own δ path D w₀ ς q h w) (hready : Ready q path (claims h) ς t l found) :
    Agree (· = w) t.queueUp t.queueUp (fun t' w' ↦ t'.claim = t.claim ∧
      ∃ q', Served own δ path D w₀ ς q' h w' ∧ q'.GoesOn path (claims h) ς t' l found) fun _ ↦ False := by
  cases hready with
  | stands hgoes =>
    have hclaimed : t.claimed = true := by rw [hgoes.self.task_eq]
    rw [Task.queueUp, if_pos hclaimed]
    exact agree_pure fun w' hw' ↦ hw' ▸ ⟨rfl, q, hs, hgoes⟩
  | arrives hl hlined hlatest =>
    exact agree_bind (agree_modify fun w' (hw' : w' = w) ↦ hw' ▸ hs.joinLine hl) fun _ ↦
      agree_pure fun w' hw' ↦ ⟨rfl, _, hw', hlined.join hlatest hl⟩

/-- What calls have to do with indices and with a path that is left alone. -/
structure Callbacks (own : String → Prop) (δ : Definitions) (path : String) (D : Dispatch) : Prop where
  indexed : ∀ δ β, Filing (Indexed own δ β) D D
  scened : ∀ β Φ, Filing (Scened own δ β path Φ) D D
  owned : own sourceIndex
  defined : δ sourceIndex = some (sourceKind, sourceExtractor)

namespace Callbacks

variable (hD : Callbacks own δ path D)
include hD

/-- An accepted toggle is carried out, and that is what it does when it is alone. -/
theorem agree_carryOut (hs : Served own δ path D w₀ ς q h w) (claim : Nat) {l : Location}
    (hl : l.path = path) :
    Agree (· = w) (@carryOut D 0 l (ς.find l)) (@carryOut D 0 l (ς.find l))
      (fun r w' ↦ ∃ ς', Served own δ path D w₀ ς' q (h ++ [(⟨claim, l, r⟩, w)]) w') fun _ ↦ False := by
  have hstore : (w.background.states 0).store = 0 := hs.store_eq
  have hcarry : Agree (Held (fun w' ↦ Scened own δ w.background path (· = ς) (.whole ∅) w' ∧
      w'.effects = [] ∧ (Tagged w → Tagged w')) 0 false) _ _ _ _ :=
    Breakpoint.agree_carryOut (hD.scened w.background) (hD.indexed δ w.background) hD.owned hD.defined
      hstore hl
  refine (agree_recorded (hcarry.pre fun w' (hw' : w' = w) ↦ ?_)).post fun r w' hw' ↦ ?_
  · subst hw'
    exact ⟨⟨hs.holds.scened, hs.effects_eq, fun h ↦ h⟩, hs.depth_eq, hs.flushing_eq⟩
  · obtain ⟨⟨⟨t, rfl, ht⟩, hat⟩, hrun⟩ := hw'
    have halone : @toggleAlone D l w = .ok (.ok t) w' := by
      simp only [toggleAlone, bind_run, get_run, hs.find_eq hD.owned hD.defined hl]
      exact hrun
    refine ⟨scene w' path, hs.changed (hat.mono fun _ h ↦ h.indexed) ?_⟩
    refine .accepted claim l t hl hs.holds.serial halone ht fun htagged ↦ ?_
    rw [hs.holds.scened.known]
    exact hat.holds.known htagged

/-- What a toggle that has the lock has come to: it waits for a verdict still, or its call is completed. -/
def Asked (own : String → Prop) (δ : Definitions) (path : String) (D : Dispatch) (w₀ : World) (ς : Scene)
    (q : Waiting) (h : List (Call × World)) (claim : Nat) (l : Location) : Progress → World → Prop
  | .waiting t, w => t.claim = claim ∧ Served own δ path D w₀ ς q h w ∧
    ∃ found, q.GoesOn path (claims h) ς t l found
  | .done o, w => ∃ r w₁ ς', o = .toggled r ∧ Served own δ path D w₀ ς' q (h ++ [(⟨claim, l, r⟩, w₁)]) w

/-- A toggle that has asked goes on by what it was opened with, if it was. -/
theorem agree_verdict {t : Task} {l : Location} {found : Option (Option EntityRef)}
    (opening? : Option Opening) (hs : Served own δ path D w₀ ς q h w)
    (hgoes : q.GoesOn path (claims h) ς t l found) (hfirst : q.line.head? = some t.claim) :
    let verdict : Act Progress := match opening? with
      | none => return .waiting { t with work := .toggle 0 l (some (ς.find l)) }
      | some (.verdict true) => return .done (.toggled (← @carryOut D 0 l (ς.find l)))
      | some _ => return .done (.toggled (.ok .rejected))
    Agree (· = w) verdict verdict (Asked own δ path D w₀ ς q h t.claim l) fun _ ↦ False := by
  dsimp only
  have hrejected : Agree (· = w) (pure (.done (.toggled (.ok .rejected))) : Act Progress)
      (pure (.done (.toggled (.ok .rejected)))) (Asked own δ path D w₀ ς q h t.claim l) fun _ ↦ False :=
    agree_pure fun w' hw' ↦ ⟨.ok .rejected, w, ς, rfl, hw' ▸ hs.record (.rejected t.claim l
      hgoes.path_eq hs.holds.serial)⟩
  match opening? with
  | none =>
    refine agree_pure fun w' hw' ↦ ⟨rfl, hw' ▸ hs, some (ς.find l), ?_⟩
    have hasked := hgoes.ask hfirst
    rwa [show (⟨t.claim, true, .toggle 0 l (some (ς.find l))⟩ : Task) =
      ⟨t.claim, t.claimed, .toggle 0 l (some (ς.find l))⟩ from by rw [hgoes.self.task_eq]] at hasked
  | some (.verdict true) =>
    refine agree_bind (hD.agree_carryOut hs t.claim hgoes.path_eq) fun r ↦ agree_pure fun w' hw' ↦ ?_
    obtain ⟨ς', hs'⟩ := hw'
    exact ⟨r, w, ς', rfl, hs'⟩
  | some (.verdict false) => exact hrejected
  | some (.children _) => exact hrejected

/-- A toggle that has the lock looks up what its location means and asks, once, and is completed as soon
as it was opened. -/
theorem agree_toggle {t : Task} {l : Location} {found : Option (Option EntityRef)} (name : String)
    (hs : Served own δ path D w₀ ς q h w) (hgoes : q.GoesOn path (claims h) ς t l found)
    (hfirst : q.line.head? = some t.claim) :
    Agree (· = w) (@Task.toggle D name t 0 l found) (@Task.toggle D name t 0 l found)
      (Asked own δ path D w₀ ς q h t.claim l) fun _ ↦ False := by
  have htarget : found.getD ((find (w.state 0).store l).value w) = ς.find l := by
    rw [hs.store_eq, hs.find_eq hD.owned hD.defined hgoes.path_eq]
    cases hfound : found with
    | none => rfl
    | some target => exact (hgoes.self.first target hfound).2
  refine agree_get fun w' (hw' : w' = w) ↦ ?_
  subst hw'
  simp only [htarget]
  refine agree_ite (fun _ ↦ ?_) fun _ ↦ hD.agree_verdict _ hs hgoes hfirst
  have hnoted : Served own δ path D w₀ ς q h (w'.note (.asked name)) := hs.modifySession _ rfl rfl rfl
  exact agree_bind (agree_modify fun _ hw ↦ congrArg (·.note (.asked name)) hw) fun _ ↦
    hD.agree_verdict _ hnoted hgoes hfirst

/-- A toggle that is polled waits, or is completed and leaves. -/
theorem agree_advance {t : Task} {l : Location} {found : Option (Option EntityRef)} (name : String)
    (hs : Served own δ path D w₀ ς q h w) (hready : Ready q path (claims h) ς t l found) :
    Agree (· = w) (@Task.advance D name t) (@Task.advance D name t)
      (fun p w' ↦ match p with
        | .waiting t' => ∃ q' found', Served own δ path D w₀ ς q' h w' ∧
          q'.GoesOn path (claims h) ς t' l found'
        | .done o => ∃ r w₁, o = .toggled r ∧
          Ongoing own δ path D w₀ (h ++ [(⟨t.claim, l, r⟩, w₁)]) w') fun _ ↦ False := by
  rw [Task.advance, hready.work_eq]
  refine agree_bind (agree_queueUp hs hready) fun t' w' hw' ↦ ?_
  obtain ⟨hclaim, q', hs', hgoes⟩ := hw'
  obtain rfl : t' = ⟨t.claim, true, .toggle 0 l found⟩ := hclaim ▸ hgoes.self.task_eq
  refine (agree_get fun w'' (hw'' : w'' = w') ↦ ?_ : Agree (· = w') _ _ _ _) w' rfl
  subst hw''
  refine agree_ite (fun hturn ↦ ?_) fun _ ↦ agree_pure fun w hw ↦ hw ▸ ⟨q', found, hs', hgoes⟩
  have hfirst := (hs'.hasTurn_iff hgoes.path_eq).mp hturn
  refine agree_bind (agree_orElse (hD.agree_toggle name hs' hgoes hfirst) fun _ h ↦ h.elim) fun p w hw ↦ ?_
  cases p with
  | waiting t' =>
    obtain ⟨-, hs, found', hgoes⟩ := hw
    exact agree_pure (fun w' (hw' : w' = w) ↦ hw' ▸ ⟨q', found', hs, hgoes⟩) w rfl
  | done o =>
    obtain ⟨r, w₁, ς', rfl, hs⟩ := hw
    refine agree_bind (agree_modify fun w' (hw' : w' = w) ↦ hw' ▸ hs.leaveLine hgoes.path_eq) (fun _ ↦
      agree_pure fun w' hw' ↦ ⟨r, w₁, rfl, ς', _, hw', ?_⟩) w rfl
    rw [claims_append]
    exact hgoes.finish hfirst ς'

end Callbacks

end LiveGraph.Breakpoint
