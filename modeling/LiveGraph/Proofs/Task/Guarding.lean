import LiveGraph.Proofs.Store.Integrity
import LiveGraph.Proofs.Store.Start
import LiveGraph.Session.Actions

/-!
# Tokens and guarded tasks

A token names one incarnation of an entity for later, and a guarded task holds one. Whatever is done to
the store and to its URIs meanwhile, the token is good for exactly this incarnation and exactly as long
as the store has it; once it was not, it never is again. So what a guarded task comes to is applied to
that incarnation or not at all. Serials are what carries this: none is given twice.
-/

namespace LiveGraph

/-- The incarnation a token was made from. -/
def Liveness.subject (l : Liveness) : EntityRef := ⟨l.store, l.serial⟩

@[simp] theorem World.subject_livenessOf (w : World) (e : EntityRef) : (w.livenessOf e).subject = e := rfl

/-- What a guarded task does to its entity once its work is finished. -/
def Guarded.apply [Dispatch] (g : Guarded) (name : String) (e : EntityRef) (value : Value) : Act Unit := do
  let r ← Entity.set e g.prop value
  let refusal := match r with
    | .ok () => none
    | .error why => some why
  Dispatch.call (.script name .every g.reaction) (.applied refusal)

/-- What a token answered, if this is what the note is of. -/
def Note.answer? (name : String) : Note → Option Bool
  | .value name' (.value (.bool live)) => if name' = name then some live else none
  | _ => none

namespace World

variable (w : World)

/-- The world without a guarded task of a name. -/
def dropGuarded (name : String) : World :=
  w.modifySession fun s ↦ { s with spawned := s.spawned.erase name }

/-- What the token of a name has answered so far, latest first. -/
def answers (name : String) : List Bool :=
  w.session.notes.filterMap (Note.answer? name)

theorem answers_note (name name' : String) (live : Bool) :
    (w.note (.value name (.value (.bool live)))).answers name' =
      if name = name' then live :: w.answers name' else w.answers name' := by
  unfold answers note modifySession
  rw [List.filterMap_cons]
  by_cases h : name = name'
  · simp only [Note.answer?, if_pos h]
  · simp only [Note.answer?, if_neg h]

end World

/-- What code does with a store and with guarded tasks. It may make tokens of all entities that there
ever were, each under a name of its own, and ask them; and it decides when the work of a task is
finished, or that it is broken off. -/
inductive Guarding
  | store (op : Listening)
  | token (e : EntityRef) (name : String)
  | ask (name : String)
  | spawn (e : EntityRef) (prop name : String)
  | finish (name : String) (value : Value) (aborted : Bool)

namespace Guarding

/-- Carries out an operation. What a token answers is written down under its name; a crash of what a
task applies ends the code that finishes the task. -/
def perform [Dispatch] : Guarding → Act Unit
  | store op => op.perform
  | token e name => modify fun w ↦
      if w.knows e && !w.session.tokens.contains name then w.nameToken name (w.livenessOf e) else w
  | ask name => do
    if let .token _ live _ ← Session.tokenState name then modify (·.note (.value name (.value (.bool live))))
  | spawn e prop name => do
    if (← get).knows e then
      let _ ← Session.spawn name e prop []
  | finish name value aborted => do
    if let .aborted false ← Session.finish name value aborted then throw .crash

/-- A world where tokens and tasks are good for their own incarnations, as long as the store has them. -/
structure Sound (w : World) : Prop where
  alive_iff : ∀ name l, w.session.tokens.get? name = some l →
    ∀ x, w.alive? l = some x ↔ x = l.subject ∧ x ∈ w.entities 0
  never_again : ∀ name l, w.session.tokens.get? name = some l → false ∈ w.answers name → w.alive? l = none
  never_answers_again : ∀ name, (w.answers name).Pairwise (· ≤ ·)
  applied : ∀ name g, w.session.spawned.get? name = some g → g.entity.subject ∈ w.entities 0 →
    ∀ (D : Dispatch) value, @Session.finish D name value false w =
      (do
        match ← (@Guarded.apply D g name g.entity.subject value).caught with
        | some () => return .bool true
        | none => return .aborted false : Act Reply) (w.dropGuarded name)
  dropped : ∀ name g, w.session.spawned.get? name = some g → g.entity.subject ∉ w.entities 0 →
    ∀ (D : Dispatch) value, @Session.finish D name value false w = .ok (.bool false) (w.dropGuarded name)

end Guarding

namespace Session

variable [Dispatch] {w : World} {g : Guarded} {e : EntityRef} {name : String}

theorem conclude_of_alive (h : w.alive? g.entity = some e) (name : String) (value : Value) :
    conclude name g value w = (do g.apply name e value; return true : Act Bool) w := by
  unfold conclude Guarded.apply
  simp only [Act.bind_run, Act.get_run, h]
  cases Entity.set e g.prop value w <;> rfl

theorem conclude_of_not_alive (h : w.alive? g.entity = none) (name : String) (value : Value) :
    conclude name g value w = .ok false w := by
  unfold conclude
  simp only [Act.bind_run, Act.get_run, h, Act.pure_run]

/-- A task whose work is finished is dropped, and then its result is taken in. -/
theorem finish_eq (hg : w.session.spawned.get? name = some g) (value : Value) : finish name value false w =
      (do
        match ← (conclude name g value).caught with
        | some applied => return .bool applied
        | none => return .aborted false : Act Reply) (w.dropGuarded name) := by
  unfold finish withThing
  simp only [Act.bind_run, Act.get_run, Act.modify_run, hg, Bool.false_eq_true, if_false]
  rfl

/-- The work of a task whose entity is still the same is applied to that. -/
theorem finish_of_alive (hg : w.session.spawned.get? name = some g) (halive : w.alive? g.entity = some e)
    (value : Value) : finish name value false w =
      (do
        match ← (g.apply name e value).caught with
        | some () => return .bool true
        | none => return .aborted false : Act Reply) (w.dropGuarded name) := by
  have hdropped : (w.dropGuarded name).alive? g.entity = some e := halive
  rw [finish_eq hg, Act.bind_run, Act.bind_run]
  simp only [Act.caught, conclude_of_alive hdropped, Act.bind_run]
  cases g.apply name e value (w.dropGuarded name) with
  | ok _ w' => rfl
  | error halt w' => cases halt <;> rfl

/-- The work of a task whose entity is gone comes to nothing. -/
theorem finish_of_not_alive (hg : w.session.spawned.get? name = some g) (halive : w.alive? g.entity = none)
    (value : Value) : finish name value false w = .ok (.bool false) (w.dropGuarded name) := by
  have hdropped : (w.dropGuarded name).alive? g.entity = none := halive
  rw [finish_eq hg, Act.bind_run]
  simp only [Act.caught, conclude_of_not_alive hdropped, Act.pure_run]

end Session

/-! ## Tokens -/

/-- A token of an incarnation of the first store. -/
structure World.Issued (w : World) (l : Liveness) : Prop where
  store_eq : l.store = 0
  serial_pos : 0 < l.serial
  serial_le : l.serial ≤ (w.store 0).incarnations.size
  uri_eq : ((w.store 0).incarnation l.serial).uri = l.uri

namespace World.Issued

variable {w w' : World} {l : Liveness} {e : EntityRef}

theorem later (h : w.Issued l) (hlater : Later w w') : w'.Issued l where
  store_eq := h.store_eq
  serial_pos := h.serial_pos
  serial_le := h.serial_le.trans hlater.size_le
  uri_eq := (hlater.uri_eq l.serial h.serial_pos h.serial_le).trans h.uri_eq

theorem rename (h : w.Issued l) (hstores : w'.stores = w.stores) : w'.Issued l := by
  have hstore : w'.store 0 = w.store 0 := congrArg (·.getD 0 default) hstores
  exact ⟨h.store_eq, h.serial_pos, hstore ▸ h.serial_le, hstore ▸ h.uri_eq⟩

theorem livenessOf {hidden : Nat → Prop} (hground : Ground hidden w) (he : w.knows e) : w.Issued (w.livenessOf e) := by
  obtain ⟨s, n⟩ := e
  obtain rfl : s = 0 := hground.store_eq he
  rw [World.knows, Bool.and_eq_true, decide_eq_true_eq, decide_eq_true_eq] at he
  exact ⟨rfl, he.1, he.2, rfl⟩

variable (hground : Ground (fun _ ↦ False) w) (h : w.Issued l)
include hground h

/-- The store has an incarnation as long as that has not ended. -/
theorem mem_entities_iff : l.subject ∈ w.entities 0 ↔ ((w.store 0).incarnation l.serial).live = true := by
  rw [World.mem_entities_of_coherent hground.coherent, World.isLive_iff]
  constructor
  · exact fun hlive ↦ hlive.2.2.2
  · exact fun hlive ↦ ⟨h.store_eq, h.serial_pos, h.serial_le, hlive⟩

/-- A token is good for its own incarnation, as long as that has not ended. -/
theorem alive?_eq (x : EntityRef) :
    w.alive? l = some x ↔ x = l.subject ∧ ((w.store 0).incarnation l.serial).live = true := by
  have hstore := h.store_eq
  have hheld : w.isStoreHeld l.store = true := hstore.symm ▸ hground.held
  have hlive : (w.store 0).live[l.uri]? = some l.serial ↔ ((w.store 0).incarnation l.serial).live = true := by
    rw [hground.coherent.live_iff]
    constructor
    · exact fun hfound ↦ hfound.2.2.2.2
    · exact fun hflag ↦ ⟨h.serial_pos, h.serial_le, not_false, h.uri_eq, hflag⟩
  rw [World.alive?, if_pos hheld, Option.filter_eq_some_iff, Bool.and_eq_true, decide_eq_true_eq]
  constructor
  · rintro ⟨hfound, hserial, -⟩
    obtain ⟨hx, hat⟩ := World.live_of_find? hfound
    rw [hstore, hserial] at hat
    exact ⟨EntityRef.eq_of_serial hx hserial, hlive.mp hat⟩
  · rintro ⟨rfl, hflag⟩
    refine ⟨?_, rfl, ?_⟩
    · rw [World.find?, hstore, Std.TreeMap.get?_eq_getElem?, hlive.mpr hflag]
      exact congrArg some (EntityRef.eq_of_serial hstore.symm rfl)
    · rw [World.entity]
      change ((w.store l.store).incarnation l.serial).live = true
      rw [hstore]
      exact hflag

theorem alive?_of_mem (hmem : l.subject ∈ w.entities 0) : w.alive? l = some l.subject :=
  (h.alive?_eq hground l.subject).mpr ⟨rfl, (h.mem_entities_iff hground).mp hmem⟩

theorem alive?_eq_none (hended : ((w.store 0).incarnation l.serial).live = false) : w.alive? l = none := by
  apply Option.eq_none_iff_forall_ne_some.mpr
  intro x hx
  have hflag := ((h.alive?_eq hground x).mp hx).2
  exact Bool.false_ne_true (hended.symm.trans hflag)

theorem alive?_of_not_mem (hmem : l.subject ∉ w.entities 0) : w.alive? l = none :=
  h.alive?_eq_none hground (Bool.eq_false_iff.mpr fun hflag ↦ hmem ((h.mem_entities_iff hground).mpr hflag))

end World.Issued

/-- A world where tokens and tasks have incarnations of the first store, and where what tokens have
answered still is as it was: those that were not good any more are of incarnations that have ended. -/
structure Tokened (w : World) : Prop where
  token : ∀ name l, w.session.tokens.get? name = some l → w.Issued l
  task : ∀ name g, w.session.spawned.get? name = some g → w.Issued g.entity
  unnamed : ∀ name, w.session.tokens.get? name = none → w.answers name = []
  ended : ∀ name l, w.session.tokens.get? name = some l → false ∈ w.answers name →
    ((w.store 0).incarnation l.serial).live = false
  sorted : ∀ name, (w.answers name).Pairwise (· ≤ ·)

namespace Tokened

variable {w w' : World}

theorem lasting : Lasting Tokened := by
  intro w w' hlater h
  have hanswers : ∀ name, w'.answers name = w.answers name := by
    intro name
    rw [World.answers, hlater.session_eq, World.answers]
  refine ⟨?_, ?_, ?_, ?_, ?_⟩
  · rw [hlater.session_eq]
    exact fun name l hl ↦ (h.token name l hl).later hlater
  · rw [hlater.session_eq]
    exact fun name g hg ↦ (h.task name g hg).later hlater
  · simp only [hlater.session_eq, hanswers]
    exact h.unnamed
  · simp only [hlater.session_eq, hanswers]
    intro name l hl hfalse
    have hissued := h.token name l hl
    exact hlater.ended l.serial hissued.serial_pos hissued.serial_le (h.ended name l hl hfalse)
  · simp only [hanswers]
    exact h.sorted

theorem start (schema : Schema) (keepsFirst : Bool) : Tokened (Session.start schema keepsFirst) := by
  have hsession := start_session schema keepsFirst
  have htokens : ∀ name, (Session.start schema keepsFirst).session.tokens.get? name = none := by
    intro name
    rw [hsession]
    exact Std.TreeMap.getElem?_emptyc
  have hspawned : ∀ name, (Session.start schema keepsFirst).session.spawned.get? name = none := by
    intro name
    rw [hsession]
    exact Std.TreeMap.getElem?_emptyc
  have hanswers : ∀ name, (Session.start schema keepsFirst).answers name = [] := by
    intro name
    rw [World.answers, hsession]
    rfl
  constructor
  · exact fun name l hl ↦ absurd (hl.symm.trans (htokens name)) (Option.some_ne_none l)
  · exact fun name g hg ↦ absurd (hg.symm.trans (hspawned name)) (Option.some_ne_none g)
  · exact fun name _ ↦ hanswers name
  · exact fun name l hl _ ↦ absurd (hl.symm.trans (htokens name)) (Option.some_ne_none l)
  · exact fun name ↦ hanswers name ▸ List.Pairwise.nil

variable (h : Tokened w)
include h

theorem nameToken {name : String} {l : Liveness} (hnew : w.session.tokens.get? name = none) (hl : w.Issued l) :
    Tokened (w.nameToken name l) := by
  have hget : ∀ name', (w.nameToken name l).session.tokens.get? name' =
      if name = name' then some l else w.session.tokens.get? name' := by
    intro name'
    change (w.session.tokens.insert name l)[name']? = _
    rw [Std.TreeMap.getElem?_insert]
    simp only [Std.LawfulEqOrd.compare_eq_iff_eq]
    rfl
  refine ⟨fun name' l' hl' ↦ ?_, fun name' g hg ↦ (h.task name' g hg).rename rfl, fun name' hnone ↦ ?_,
    fun name' l' hl' hfalse ↦ ?_, h.sorted⟩
  · rw [hget] at hl'
    split at hl'
    · exact Option.some.inj hl' ▸ hl.rename rfl
    · exact (h.token name' l' hl').rename rfl
  · rw [hget] at hnone
    split at hnone
    · exact absurd hnone (Option.some_ne_none l)
    · exact h.unnamed name' hnone
  · rw [hget] at hl'
    split at hl'
    · rename_i heq
      have hnever : w.answers name' = [] := h.unnamed name' (heq ▸ hnew)
      exact absurd (hnever ▸ hfalse) List.not_mem_nil
    · exact h.ended name' l' hl' hfalse

/-- What a token answers now fits what it answered before. -/
theorem answer (hground : Ground (fun _ ↦ False) w) {name : String} {l : Liveness}
    (hl : w.session.tokens.get? name = some l) :
    Tokened (w.note (.value name (.value (.bool (w.alive? l).isSome)))) := by
  have hissued := h.token name l hl
  have hflag : (w.alive? l).isSome = ((w.store 0).incarnation l.serial).live := by
    cases hlive : ((w.store 0).incarnation l.serial).live with
    | false => rw [hissued.alive?_eq_none hground hlive, Option.isSome_none]
    | true => rw [(hissued.alive?_eq hground l.subject).mpr ⟨rfl, hlive⟩, Option.isSome_some]
  have hanswers := w.answers_note name
  refine ⟨fun name' l' hl' ↦ (h.token name' l' hl').rename rfl, fun name' g hg ↦ (h.task name' g hg).rename rfl,
    fun name' hnone ↦ ?_, fun name' l' hl' hfalse ↦ ?_, fun name' ↦ ?_⟩
  · have hne : name ≠ name' := fun heq ↦ Option.some_ne_none l (hl.symm.trans (heq ▸ hnone))
    rw [hanswers, if_neg hne]
    exact h.unnamed name' hnone
  · rw [hanswers] at hfalse
    split at hfalse
    · rename_i heq
      obtain rfl : l' = l := Option.some.inj (hl'.symm.trans (heq ▸ hl))
      rcases List.mem_cons.mp hfalse with hnow | hbefore
      · exact hflag ▸ hnow.symm
      · exact h.ended name' l' hl' hbefore
    · exact h.ended name' l' hl' hfalse
  · rw [hanswers]
    split
    · rename_i heq
      refine List.pairwise_cons.mpr ⟨fun before hbefore ↦ ?_, h.sorted name'⟩
      cases before with
      | true => exact Bool.le_true _
      | false => rw [hflag, h.ended name' l (heq ▸ hl) hbefore]
    · exact h.sorted name'

/-- There may be other tasks, as long as they have incarnations of the store too. -/
theorem modifySession {F : Session → Session} (htokens : (F w.session).tokens = w.session.tokens)
    (hnotes : (F w.session).notes = w.session.notes)
    (htask : ∀ name g, (F w.session).spawned.get? name = some g → w.Issued g.entity) :
    Tokened (w.modifySession F) := by
  have hanswers : ∀ name, (w.modifySession F).answers name = w.answers name := fun name ↦
    congrArg (List.filterMap (Note.answer? name)) hnotes
  have hget : ∀ name, (w.modifySession F).session.tokens.get? name = w.session.tokens.get? name := fun name ↦
    congrArg (fun tokens : Std.TreeMap String Liveness ↦ tokens.get? name) htokens
  constructor
  · exact fun name l hl ↦ (h.token name l (hget name ▸ hl)).rename rfl
  · exact fun name g hg ↦ (htask name g hg).rename rfl
  · exact fun name hnone ↦ (hanswers name).trans (h.unnamed name (hget name ▸ hnone))
  · exact fun name l hl hfalse ↦ h.ended name l (hget name ▸ hl) (hanswers name ▸ hfalse)
  · exact fun name ↦ hanswers name ▸ h.sorted name

theorem dropGuarded (name : String) : Tokened (w.dropGuarded name) := by
  refine h.modifySession rfl rfl fun name' g hg ↦ ?_
  change (w.session.spawned.erase name)[name']? = some g at hg
  rw [Std.TreeMap.getElem?_erase] at hg
  split at hg
  · exact absurd hg.symm (Option.some_ne_none g)
  · exact h.task name' g hg

end Tokened

namespace Guarding

open Act

variable {D D' : Dispatch} {d : Nat} {f : Bool} {w : World}

theorem sound_of_settled (hw : At (PlainGround Tokened).settled d f w) : Sound w := by
  obtain ⟨hground, -, h⟩ := hw.holds
  refine ⟨fun name l hl x ↦ ?_, fun name l hl hfalse ↦ ?_, h.sorted, fun name g hg hmem D value ↦ ?_,
    fun name g hg hmem D value ↦ ?_⟩
  · have hissued := h.token name l hl
    rw [hissued.alive?_eq hground, ← hissued.mem_entities_iff hground]
    constructor
    · rintro ⟨rfl, hmem⟩
      exact ⟨rfl, hmem⟩
    · rintro ⟨rfl, hmem⟩
      exact ⟨rfl, hmem⟩
  · exact (h.token name l hl).alive?_eq_none hground (h.ended name l hl hfalse)
  · exact Session.finish_of_alive hg ((h.task name g hg).alive?_of_mem hground hmem) value
  · exact Session.finish_of_not_alive hg ((h.task name g hg).alive?_of_not_mem hground hmem) value

/-- Tokens and tasks are none of the ground. -/
theorem renamed (hw : At (PlainGround Tokened).settled d f w) {F : Session → Session}
    (hcurrent : (F w.session).current = w.session.current) (h : Tokened (w.modifySession F)) :
    At (PlainGround Tokened).settled d f (w.modifySession F) := by
  have hsame : SameGround w (w.modifySession F) := ⟨.refl _, rfl, fun h ↦ ⟨h, rfl⟩, rfl, hcurrent, rfl, rfl⟩
  exact hw.quiet ⟨rfl, rfl, rfl, rfl⟩ ⟨OnGround.same hw.holds.1 hsame, hw.holds.2.1.same hsame, h⟩

section Alike

variable (h : Alike Tokened D D')
include h

/-- A result is taken in by a change of one property, and by whatever code follows that. -/
theorem agree_conclude (name : String) (g : Guarded) (value : Value) :
    Agree (fun w ↦ At (PlainGround Tokened).settled d f w ∧ w.Issued g.entity) (@Session.conclude D name g value)
      (@Session.conclude D' name g value) (fun _ ↦ At (PlainGround Tokened).settled d f)
      (Held (PlainGround Tokened).settled d f) := by
  refine agree_get fun w ⟨hw, hg⟩ ↦ ?_
  cases halive : w.alive? g.entity with
  | none => exact agree_pure fun w' hw' ↦ hw' ▸ hw
  | some e =>
    obtain ⟨rfl, -⟩ := (hg.alive?_eq hw.holds.1 e).mp halive
    have hset : Agree (· = w) (@Entity.set D g.entity.subject g.prop value)
        (@Entity.set D' g.entity.subject g.prop value) (fun _ ↦ At (PlainGround Tokened).settled d f)
        (Held (PlainGround Tokened).settled d f) :=
      (h.kept.toAssigning.agree_set h.kept.flushes hg.store_eq hg.serial_pos g.prop value).mono
        (fun w' hw' ↦ hw' ▸ hw) (fun _ _ hw ↦ hw) fun _ h ↦ h.elim
    exact agree_bind hset fun r ↦ agree_bind (h.script name .every g.reaction _ d f) fun _ ↦
      agree_pure fun _ hw ↦ hw

theorem agree_finish (name : String) (value : Value) (aborted : Bool) :
    Agree (At (PlainGround Tokened).settled d f) (@perform D (.finish name value aborted))
      (@perform D' (.finish name value aborted)) (fun _ ↦ At (PlainGround Tokened).settled d f)
      (Held (PlainGround Tokened).settled d f) := by
  -- where the code that is applied crashes, it may leave something undone
  let Q : Reply → World → Prop := fun r w ↦ Held (PlainGround Tokened).settled d f w ∧
    ((∀ aborted, r = .aborted aborted → aborted = true) → At (PlainGround Tokened).settled d f w)
  have hdone {r : Reply} {w : World} (hw : At (PlainGround Tokened).settled d f w) : Q r w := ⟨hw.toHeld, fun _ ↦ hw⟩
  have hfinish : Agree (At (PlainGround Tokened).settled d f) (@Session.finish D name value aborted)
      (@Session.finish D' name value aborted) Q (Held (PlainGround Tokened).settled d f) := by
    refine agree_get fun w hw ↦ ?_
    cases hg : w.session.spawned.get? name with
    | none => exact agree_pure fun w' hw' ↦ hdone (hw' ▸ hw)
    | some g =>
      have hissued := hw.holds.2.2.task name g hg
      have hdropped : At (PlainGround Tokened).settled d f (w.dropGuarded name) :=
        renamed hw rfl (hw.holds.2.2.dropGuarded name)
      refine agree_bind (agree_modify (Q := fun _ ↦ (· = w.dropGuarded name)) fun w' hw' ↦ hw' ▸ rfl) fun _ ↦ ?_
      refine agree_ite (fun _ ↦ agree_pure fun w' hw' ↦ hdone (hw' ▸ hdropped)) fun _ ↦ ?_
      have hconclude := (agree_conclude (d := d) (f := f) h name g value).pre
        fun w' (hw' : w' = w.dropGuarded name) ↦ hw' ▸ ⟨hdropped, hissued.rename rfl⟩
      refine agree_bind (agree_caught (R := fun r ↦ match r with
        | some _ => At (PlainGround Tokened).settled d f
        | none => Held (PlainGround Tokened).settled d f) hconclude (fun _ _ hw ↦ hw) fun _ hw ↦ hw) fun r ↦ ?_
      cases r with
      | some applied => exact agree_pure fun _ hw ↦ hdone hw
      | none => exact agree_pure fun _ hw ↦ ⟨hw, fun hnot ↦ absurd (hnot false rfl) Bool.false_ne_true⟩
  refine agree_bind hfinish fun r ↦ ?_
  by_cases hr : r = .aborted false
  · subst hr
    exact agree_throw fun _ hw ↦ hw.1
  · split
    · exact absurd rfl hr
    · refine agree_pure fun w hw ↦ hw.2 fun aborted haborted ↦ ?_
      cases aborted with
      | true => rfl
      | false => exact absurd haborted hr

theorem agree_perform (op : Guarding) (d : Nat) (f : Bool) :
    Agree (At (PlainGround Tokened).settled d f) (@perform D op) (@perform D' op)
      (fun _ ↦ At (PlainGround Tokened).settled d f) (Held (PlainGround Tokened).settled d f) := by
  match op with
  | .store op =>
    exact (Listening.agree_perform h op d f).mono (fun _ hw ↦ hw) (fun _ _ hw ↦ hw) fun _ h ↦ h.elim
  | .token e name =>
    refine Act.agree_modify fun w hw ↦ ?_
    split
    · rename_i hnew
      rw [Bool.and_eq_true, Bool.not_eq_true'] at hnew
      have hnone : w.session.tokens.get? name = none := Std.TreeMap.getElem?_eq_none_of_contains_eq_false hnew.2
      exact renamed hw rfl (hw.holds.2.2.nameToken hnone (.livenessOf hw.holds.1 hnew.1))
    · exact hw
  | .ask name =>
    refine agree_bind (α := Reply) (Q := fun r w ↦ At (PlainGround Tokened).settled d f w ∧
      ∀ uri live serial, r = .token uri live serial → ∃ l, w.session.tokens.get? name = some l ∧
        live = (w.alive? l).isSome) ?_ fun r ↦ ?_
    · refine agree_get fun w hw ↦ ?_
      cases hl : w.session.tokens.get? name with
      | none => exact agree_pure fun w' hw' ↦ ⟨hw' ▸ hw, fun _ _ _ hr ↦ by cases hr⟩
      | some l =>
        refine agree_pure fun w' hw' ↦ ⟨hw' ▸ hw, fun uri live serial hr ↦ ⟨l, hw' ▸ hl, ?_⟩⟩
        obtain ⟨-, hlive, -⟩ := Reply.token.inj hr
        exact hw' ▸ hlive.symm
    · split
      · refine Act.agree_modify fun w ⟨hw, hr⟩ ↦ ?_
        obtain ⟨l, hl, rfl⟩ := hr _ _ _ rfl
        exact renamed hw rfl (hw.holds.2.2.answer hw.holds.1 hl)
      · exact agree_pure fun _ hw ↦ hw.1
  | .spawn e prop name =>
    refine agree_get fun w hw ↦ agree_ite (fun hknows ↦ ?_) fun _ ↦ agree_pure fun w' hw' ↦ hw' ▸ hw
    refine agree_bind (agree_bind (agree_modify (Q := fun _ ↦ At (PlainGround Tokened).settled d f)
      fun w' hw' ↦ ?_) fun _ ↦ agree_pure fun _ hw ↦ hw) fun _ ↦ agree_pure fun _ hw ↦ hw
    subst hw'
    let F : Session → Session := fun s ↦
      { s with
        openings := s.openings.insert name none
        spawned := s.spawned.insert name ⟨w'.livenessOf e, prop, []⟩ }
    refine renamed (F := F) hw rfl (hw.holds.2.2.modifySession rfl rfl fun name' g hg ↦ ?_)
    change (w'.session.spawned.insert name _)[name']? = some g at hg
    rw [Std.TreeMap.getElem?_insert] at hg
    split at hg
    · exact Option.some.inj hg ▸ .livenessOf hw.holds.1 hknows
    · exact hw.holds.2.2.task name' g hg
  | .finish name value aborted => exact agree_finish h name value aborted

end Alike

/-- What calls come to for code that reacts to what it is told. -/
@[reducible]
def dispatch (react : String → Event → Client Guarding) (n : Nat) : Dispatch :=
  Client.dispatch perform react n

/-- Runs code with guarded tasks, to a given depth of calls. -/
def run (react : String → Event → Client Guarding) (n : Nat) (c : Client Guarding) : Act Unit :=
  @Client.run _ (dispatch react n) (@perform (dispatch react n)) c

/-- Runs code under observation, and so is all that it reacts with. -/
noncomputable def watched (react : String → Event → Client Guarding) (n : Nat) (c : Client Guarding) : Act Unit :=
  run (fun name event ↦ (react name event).checked Sound) n (c.checked Sound)

/-- In whatever order code makes tokens, starts tasks, has them finish, and changes the store, URIs that
are given again included: wherever it looks, from within callbacks too, tokens and tasks are good for
their own incarnations and for as long as the store has these. The code does the same under an
observation that would stop it elsewhere. -/
theorem tokens_neverStale (react : String → Event → Client Guarding) (n : Nat) (c : Client Guarding)
    (schema : Schema) (keepsFirst : Bool) :
    run react n c (Session.start schema keepsFirst) = watched react n c (Session.start schema keepsFirst) ∧
      ∀ w, run react n c (Session.start schema keepsFirst) = .ok () w → Sound w :=
  agree_run_from_start Tokened.lasting (fun _ _ _ hw ↦ sound_of_settled hw) (fun _ _ h ↦ agree_perform h) react n c
    (Tokened.start schema keepsFirst)

end Guarding

end LiveGraph
