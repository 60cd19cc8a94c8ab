import LiveGraph.Session.Run

/-!
# Sessions

A session begins with an empty store over a schema, and answers one step after the other. Callbacks
carry out steps in their turn, so the meaning of a call is given by the meaning of calls at the next
smaller depth.
-/

namespace LiveGraph

namespace EventFilter

/-- The type of what an event is about. -/
def subjectKind (w : World) : Event → Option String
  | .entity _ e => some (w.kindOf e)
  | .property e _ => some (w.kindOf e)
  | .edge _ edge => some edge.kind
  | _ => none

def admits (filter : EventFilter) (w : World) (event : Event) : Bool :=
  match filter with
  | .every => true
  | .kind wanted => wanted = "*" || subjectKind w event = some wanted
  | .window what =>
    match event with
    | .window actual _ => actual = what
    | _ => false

end EventFilter

namespace Event

/-- What is written down of an event; a property is shown as it is now. -/
def note (event : Event) (w : World) (name : String) : Note :=
  match event with
  | .value d => .value name d
  | .entity what e => .entity name what (w.uriOf e)
  | .property e prop => .property name (w.uriOf e) prop (w.property e prop)
  | .edge what e => .edge name what e
  | .window what e => .window name what (e.map w.uriOf)
  | .applied refusal => .applied name refusal

end Event

namespace Callback

/-- What a callback does about an event. -/
def run [Dispatch] (callback : Callback) (event : Event) : Act Unit := do
  let w ← get
  match callback, event with
  | .script name filter reaction, event =>
    if filter.admits w event then
      modify (·.note (event.note w name))
      Session.runAll reaction
  | .property e prop, _ =>
    if w.isStoreHeld e.store then
      Act.holding (.store e.store) (Entity.propertyChanged e prop)
  | .forget id, .entity _ e =>
    if w.isStateHeld id then Act.holding (.state id) (Focus.forget id (w.uriOf e))
  | .view id what, .entity _ e => View.react id what e
  | .view id what, .property e _ => View.react id what e
  | _, _ => pure ()

end Callback

/-- Calls and computations to a given depth. -/
@[reducible]
def dispatch : Nat → Dispatch
  | 0 => ⟨0, fun _ _ ↦ throw .rounds, fun _ ↦ throw .rounds⟩
  | n + 1 =>
    { rounds := n
      call := fun callback event ↦
        letI := dispatch n
        callback.run event
      compute := fun id ↦ do
        letI := dispatch n
        ((← get).derived id).compute.run }

namespace World

def empty : World where
  signals := #[]
  deriveds := #[]
  stores := #[]
  views := #[]
  states := #[]
  depth := 0
  flushing := false
  queue := []
  effects := []
  frames := []
  pins := []
  session := default

end World

namespace Session

/-- A session over a schema. Its first debug state may be one that is kept after a reset. -/
def start (schema : Schema) (keepsFirst : Bool) : World :=
  let (id, w) := World.empty.addState schema
  w.modifySession fun s ↦
    { s with current := id, kept := if keepsFirst then some id else none, schema := schema }

/-- The answer to a step, what was written down meanwhile, and the world after it. A crash ends the
step and nothing else. -/
def answer (depth : Nat) (w : World) (step : Step) : (Reply × List Note) × World :=
  letI := dispatch depth
  let w := w.modifySession fun s ↦ { s with notes := [] }
  let (reply, w) := match run step w with
    | .ok reply w => (reply, w)
    | .error _ w => (.crashed, w)
  ((reply, w.session.notes.reverse), w)

/-- The answers to steps in order. -/
def answers (depth : Nat) : World → List Step → List (Reply × List Note)
  | _, [] => []
  | w, step :: rest =>
    let (a, w) := answer depth w step
    a :: answers depth w rest

end Session

end LiveGraph
