import LiveGraph.Reactive.Flush

/-!
# Signals

Cells that hold a value. A write that changes nothing, by the signal's own equality, is no write.
-/

namespace LiveGraph

namespace World

/-- Drops the watchers and dependents of a signal for good; its value stays readable. -/
def disposeSignal (w : World) (id : SignalId) : World :=
  if (w.signal id).disposed then w
  else w.modifySignal id fun s ↦
    { s with disposed := true, watchers := s.watchers.clear, observers := [] }

end World

namespace Signal

/-- The value; the read is recorded. -/
def read (id : SignalId) : Act Value := do
  modify (·.track (.signal id))
  Act.peek (·.valueOf id)

/-- Writes a value and settles what follows from it. -/
def set [Dispatch] (id : SignalId) (value : Value) : Act (Except Fault Unit) := do
  let s := (← get).signal id
  if s.disposed then return .error .disposed
  if s.equality.holds (.value s.value) (.value value) then return .ok ()
  batch (modify (·.write id value))
  return .ok ()

/-- Raises a counter, as a change of whatever it counts. -/
def advance [Dispatch] (id : SignalId) : Act Unit := do
  let n := ((← get).valueOf id).asInt?.getD 0
  let _ ← set id (.int (n + 1))

def watch (id : SignalId) (callback : Callback) : Act Subscription := do
  if ((← get).signal id).disposed then return none
  modifyGet (·.subscribe (.signal id) callback)

end Signal

end LiveGraph
