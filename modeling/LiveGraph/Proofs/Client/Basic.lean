import LiveGraph.Session.Basic

/-!
# Code that uses a store

User code as a tree of what it does: it looks at the world and decides by what it sees, carries out
operations, opens batches, and may crash or never come back. Callbacks registered by name carry out
such code when they are called. Nothing else is known of user code, so what is proved of every tree
holds of every program.
-/

namespace LiveGraph

/-- A piece of user code over some operations. -/
inductive Client (Op : Type)
  | done
  | halt (why : Halt)
  | look (next : World → Client Op)
  | act (op : Op) (next : Client Op)
  | batch (body next : Client Op)

namespace Client

variable {Op : Type}

/-- Carries out a piece of code. -/
def run [Dispatch] (perform : Op → Act Unit) : Client Op → Act Unit
  | done => pure ()
  | halt why => throw why
  | look next => do run perform (next (← get))
  | act op next => do
    perform op
    run perform next
  | batch body next => do
    LiveGraph.batch (run perform body)
    run perform next

/-- Calls to a given depth, where every callback of a script carries out the code of its name and
all other callbacks do what they always do. -/
@[reducible]
def dispatch (perform : [Dispatch] → Op → Act Unit) (react : String → Event → Client Op) :
    Nat → Dispatch
  | 0 => ⟨0, fun _ _ ↦ throw .rounds, fun _ ↦ throw .rounds⟩
  | n + 1 =>
    { rounds := n
      call := fun callback event ↦
        letI := dispatch perform react n
        match callback with
        | .script name filter _ => do
          if filter.admits (← get) event then (react name event).run perform
        | callback => callback.run event
      compute := fun id ↦ do
        letI := dispatch perform react n
        ((← get).derived id).compute.run }

section Calls

variable (perform : [Dispatch] → Op → Act Unit) (react : String → Event → Client Op) (n : Nat)

theorem rounds_dispatch : (dispatch perform react (n + 1)).rounds = n := rfl

theorem call_script (name : String) (filter : EventFilter) (reaction : List Step) (event : Event) :
    (dispatch perform react (n + 1)).call (.script name filter reaction) event = (do
      if filter.admits (← get) event then
        @run Op (dispatch perform react n) (@perform (dispatch perform react n))
          (react name event)) := rfl

theorem call_other (callback : Callback) (event : Event)
    (h : ∀ name filter reaction, callback ≠ .script name filter reaction) :
    (dispatch perform react (n + 1)).call callback event =
      @Callback.run (dispatch perform react n) callback event := by
  cases callback with
  | script name filter reaction => exact absurd rfl (h name filter reaction)
  | property e prop => rfl
  | forget id => rfl
  | view id what => rfl

end Calls

open Classical in
/-- The same code under observation: it never comes back from a look at a world that is not as it
should be, and no act around it contains that. -/
noncomputable def checked (sound : World → Prop) : Client Op → Client Op
  | done => done
  | halt why => halt why
  | look next => look fun w ↦ if sound w then (next w).checked sound else halt .rounds
  | act op next => act op (next.checked sound)
  | batch body next => batch (body.checked sound) (next.checked sound)

end Client

/-- Whether there ever was the entity that is meant. -/
def World.knows (w : World) (e : EntityRef) : Bool :=
  0 < e.serial && e.serial ≤ (w.store e.store).incarnations.size

/-- The operations that change a store. -/
inductive Edit
  | add (spec : EntitySpec)
  | remove (uri : Uri)
  | update (uri : Uri) (props : List (String × Value))
  | set (e : EntityRef) (prop : String) (value : Value)
  | define (e : EntityRef) (prop : String) (value : Value)
  | link (edge : Edge) (atFront : Bool)
  | unlink (edge : Edge)
  | defineIndex (name kind : String) (x : Extractor)

namespace Edit

/-- Whether an operation may add or remove entities or edges. -/
def Structural : Edit → Prop
  | add _ => True
  | remove _ => True
  | link _ _ => True
  | unlink _ => True
  | update _ _ => False
  | set _ _ _ => False
  | define _ _ _ => False
  | defineIndex _ _ _ => False

/-- Carries out an operation; code can only mean entities that there were at some time. -/
def perform [Dispatch] (s : StoreId) : Edit → Act Unit
  | add spec => do let _ ← Store.add s spec
  | remove uri => do let _ ← Store.remove s uri
  | update uri props => do let _ ← Store.update s uri props
  | set e prop value => do
    if (← get).knows e then
      let _ ← Entity.set e prop value
  | define e prop value => do
    if (← get).knows e then
      let _ ← Entity.define e prop value
  | link edge atFront => do let _ ← Store.link s edge atFront
  | unlink edge => do let _ ← Store.unlink s edge
  | defineIndex name kind x => Store.defineIndex s name kind x

end Edit

end LiveGraph
