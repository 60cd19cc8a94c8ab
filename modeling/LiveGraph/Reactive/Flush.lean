import LiveGraph.Reactive.Tracking

/-!
# Flushing

A write marks what depends on it and queues it. When the outermost batch ends, the queue is worked
off lowest height first, each derived value being computed once its sources are settled, and then
the watchers are told, one at a time; what they write is settled before the next is told.
-/

namespace LiveGraph

/-- Tells the listed callbacks, passing over those that are gone by then. -/
def notifyEach [Dispatch] (channel : Channel) (event : Event) : List (Nat × Callback) → Act Unit
  | [] => pure ()
  | (id, callback) :: rest => do
    if ((← get).watchers channel).contains id then (Dispatch.call callback event).contained
    notifyEach channel event rest

/-- Tells the callbacks of a channel, in the order they were registered. One that is registered
meanwhile is not told, and a crash of one does not keep the others from being told. -/
def notify [Dispatch] (channel : Channel) (event : Event) : Act Unit := do
  notifyEach channel event ((← get).watchers channel).entries

namespace World

/-- Puts the notification of a signal's watchers off to the flush, once. -/
def deferSignal (w : World) (id : SignalId) : World :=
  let s := w.signal id
  if s.watchers.isEmpty || s.notifying then w
  else
    let w := w.modifySignal id fun s ↦ { s with notifying := true }
    { w with effects := w.effects ++ [.signal id] }

def deferDerived (w : World) (id : DerivedId) : World :=
  let d := w.derived id
  if d.watchers.isEmpty || d.notifying then w
  else
    let w := w.modifyDerived id fun d ↦ { d with notifying := true }
    { w with effects := w.effects ++ [.derived id] }

def deferView (w : World) (id : ViewId) : World :=
  if (w.view id).changing then w
  else
    let w := w.modifyView id fun v ↦ { v with changing := true }
    { w with effects := w.effects ++ [.view id] }

/-- Writes a signal and marks what depends on it. -/
def write (w : World) (id : SignalId) (value : Value) : World :=
  let w := w.modifySignal id fun s ↦ { s with value := value }
  (w.markObservers (.signal id)).deferSignal id

/-- Keeps a computed value and marks what depends on it. -/
def keep (w : World) (id : DerivedId) (value : Datum) : World :=
  let w := w.modifyDerived id fun d ↦ { d with value := some value }
  (w.markObservers (.derived id)).deferDerived id

/-- The first queued derived value that is still in being, and the world without it in the queue. -/
def popQueued? (w : World) : Option (DerivedId × World) :=
  match w.queue.dropWhile fun (_, id) ↦ (w.derived id).dropped with
  | [] => none
  | (_, id) :: rest => some (id, { w with queue := rest })

end World

namespace Effect

/-- Tells the watchers the present value, unless what they watch has ended meanwhile. -/
def run [Dispatch] : Effect → Act Unit
  | .signal id => do
    if (← get).isSignalHeld id then
      modify (·.modifySignal id fun s ↦ { s with notifying := false })
      let s := (← get).signal id
      if !s.disposed then notify (.signal id) (.value (.value s.value))
  | .derived id => do
    if !((← get).derived id).dropped then
      Act.holding (.derived id) do
        modify (·.modifyDerived id fun d ↦ { d with notifying := false })
        let d := (← get).derived id
        if let (false, some value) := (d.disposed, d.value) then notify (.derived id) (.value value)
  | .view id => do
    if !((← get).view id).dropped then
      Act.holding (.view id) do
        modify (·.modifyView id fun v ↦ { v with changing := false })
        if !((← get).view id).disposed then notify (.view id) (.window .change none)

end Effect

namespace Derived

/-- Computes a stale derived value anew; tells whether a value it had before has changed. While it
is computed it counts as evaluating, and a crash leaves it so. -/
def recompute [Dispatch] (id : DerivedId) : Act Bool := do
  let d := (← get).derived id
  if d.disposed || !d.stale then return false
  modify (·.modifyDerived id fun d ↦ { d with stale := false, evaluating := true })
  let (value, frame) ← Act.evaluating id (Dispatch.compute id)
  modify fun w ↦
    let w := (w.modifyDerived id fun d ↦ { d with evaluating := false }).retrack id frame.sources
    (w.modifyDerived id fun d ↦ { d with cyclic := frame.cyclic }).reap
  if frame.cyclic then return false
  let d := (← get).derived id
  match d.value with
  | none =>
    modify (·.modifyDerived id fun d ↦ { d with value := some value })
    return false
  | some previous =>
    if d.equality.holds previous value then return false
    modify (·.keep id value)
    return true

end Derived

/-- Works off the queue and the effects, in that order after each effect. -/
def drain [Dispatch] : Nat → Act Unit
  | 0 => throw .rounds
  | n + 1 => do
    match (← get).popQueued? with
    | some (id, w) =>
      set w
      Act.holding (.derived id) do
        let _ ← Derived.recompute id
      drain n
    | none =>
      match (← get).effects with
      | [] => modify fun w ↦ { w with queue := [] }
      | effect :: rest =>
        modify fun w ↦ { w with queue := [], effects := rest }
        effect.run.untracked
        drain n

/-- Settles everything. A flush under way takes up what is queued meanwhile. -/
def flush [Dispatch] : Act Unit := do
  if !(← get).flushing then
    modify fun w ↦ { w with flushing := true }
    (drain Dispatch.rounds).followedBy fun w ↦ { w with flushing := false }

def flushOutside [Dispatch] : Act Unit := do
  if (← get).depth = 0 then flush

/-- An act as one change: nothing is computed and nobody is told before the outermost batch is
finished. -/
def batch [Dispatch] {α : Type} (act : Act α) : Act α := do
  modify fun w ↦ { w with depth := w.depth + 1 }
  let a ← act.followedBy fun w ↦ { w with depth := w.depth - 1 }
  flushOutside
  return a

end LiveGraph
