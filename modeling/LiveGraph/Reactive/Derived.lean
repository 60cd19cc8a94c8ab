import LiveGraph.Reactive.Signal

/-!
# Derived values

Values computed from others and kept until one of those changes. The first read computes a value;
from then on it is kept up to date by every flush.
-/

namespace LiveGraph.Derived

/-- Brings a derived value up to date, and what depends on it if it has changed. -/
def refresh [Dispatch] (id : DerivedId) : Act Unit := do
  if ← recompute id then flushOutside

/-- The value; the read is recorded. A derived value read during its own evaluation, be it through
others, is a cycle; one that was disposed of keeps what it had. -/
def read [Dispatch] (id : DerivedId) : Act (Except Fault Datum) := do
  let d := (← get).derived id
  if d.evaluating then
    modify (·.flagCycle id)
    return .error .cycle
  if d.disposed then return d.value.elim (.error .disposed) .ok
  modify (·.track (.derived id))
  if d.stale then refresh id
  let d := (← get).derived id
  if d.cyclic then return .error .cycle
  return d.value.elim (.error .cycle) .ok

/-- Registers a watcher, after a first computation. -/
def watch [Dispatch] (id : DerivedId) (callback : Callback) : Act Subscription := do
  let d := (← get).derived id
  if d.disposed then return none
  if d.stale && !d.evaluating then (refresh id).untracked
  modifyGet (·.subscribe (.derived id) callback)

/-- Ends a derived value: it depends on nothing, nothing depends on it, and its value stays. -/
def dispose (id : DerivedId) : Act Unit := do
  if !((← get).derived id).disposed then
    modify fun w ↦
      let w := w.modifyDerived id fun d ↦
        { d with disposed := true, watchers := d.watchers.clear, observers := [] }
      let w := (w.derived id).sources.foldl (fun w s ↦ w.removeObserver id s) w
      (w.modifyDerived id fun d ↦ { d with sources := [] }).reap

end LiveGraph.Derived
