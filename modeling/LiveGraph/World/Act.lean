import LiveGraph.World.Holding

/-!
# Acts

An act changes the world and gives a result, or ends early: by a crash, or because it takes more
rounds than it was given. What an act did before it ended stays done. Callbacks and the functions of
derived values are given from outside, so that everything below is defined without them.
-/

namespace LiveGraph

/-- Why an act ended early. -/
inductive Halt
  | crash
  | rounds
  deriving DecidableEq, Inhabited, Repr

abbrev Act := EStateM Halt World

/-- How callbacks are called and derived values computed, and how many rounds a flush may take. -/
class Dispatch where
  rounds : Nat
  call : Callback → Event → Act Unit
  compute : DerivedId → Act Datum

namespace Act

/-- An act with what has to follow it, whether it is finished or ends early. -/
def followedBy {α : Type} (act : Act α) (after : World → World) : Act α := fun w ↦
  match act w with
  | .ok a w => .ok a (after w)
  | .error halt w => .error halt (after w)

/-- An act with what has to follow it should it end early. -/
def orElse {α : Type} (act : Act α) (after : World → World) : Act α := fun w ↦
  match act w with
  | .ok a w => .ok a w
  | .error halt w => .error halt (after w)

/-- An act whose crash is kept from the act around it, which gets nothing instead of a result. -/
def caught {α : Type} (act : Act α) : Act (Option α) := fun w ↦
  match act w with
  | .ok a w => .ok (some a) w
  | .error .crash w => .ok none w
  | .error .rounds w => .error .rounds w

/-- An act that may crash without consequence for the act around it. -/
def contained (act : Act Unit) : Act Unit := do
  let _ ← act.caught

/-- An act during which something is held. -/
def holding {α : Type} (p : Pin) (act : Act α) : Act α := do
  modify (·.pin p)
  act.followedBy (·.unpin p)

/-- Reads off the world without a trace. -/
def peek {α : Type} (f : World → α) : Act α := do
  return f (← get)

end Act

end LiveGraph
