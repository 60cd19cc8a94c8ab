import LiveGraph.World.Act

/-!
# Tracking

Which signals and derived values an evaluation reads, and who is to be told of a change. Frames lie
one in the other: a read belongs to the innermost one, and to none if that is untracked.
-/

namespace LiveGraph

namespace Frame

/-- The frame with one more source; a source counts once. -/
def read (f : Frame) (s : Source) : Frame :=
  if f.owner.isSome && !f.sources.contains s then { f with sources := f.sources ++ [s] } else f

/-- Flags the innermost frame of a derived value and all frames within it; nothing if it has no
frame. -/
def flagUpTo? (id : DerivedId) : List Frame → Option (List Frame)
  | [] => none
  | f :: rest =>
    if f.owner = some id then some ({ f with cyclic := true } :: rest)
    else (flagUpTo? id rest).map ({ f with cyclic := true } :: ·)

end Frame

namespace World

/-- Records a read. -/
def track (w : World) (s : Source) : World :=
  match w.frames with
  | [] => w
  | f :: rest => { w with frames := f.read s :: rest }

/-- Records that a derived value was read during its own evaluation. -/
def flagCycle (w : World) (id : DerivedId) : World :=
  { w with frames := (Frame.flagUpTo? id w.frames).getD w.frames }

def pushFrame (w : World) (owner : Option DerivedId) : World :=
  { w with frames := ⟨owner, [], false⟩ :: w.frames }

def popFrame (w : World) : World :=
  { w with frames := w.frames.tail }

def observersOf (w : World) : Source → List DerivedId
  | .signal id => (w.signal id).observers
  | .derived id => (w.derived id).observers

/-- Plain signals are at height 0, derived values above all their sources. -/
def heightOf (w : World) : Source → Nat
  | .signal _ => 0
  | .derived id => (w.derived id).height

def isDisposed (w : World) : Source → Bool
  | .signal id => (w.signal id).disposed
  | .derived id => (w.derived id).disposed

def addObserver (w : World) (observer : DerivedId) (s : Source) : World :=
  if w.isDisposed s || (w.observersOf s).contains observer then w
  else match s with
    | .signal id => w.modifySignal id fun s ↦ { s with observers := s.observers ++ [observer] }
    | .derived id => w.modifyDerived id fun d ↦ { d with observers := d.observers ++ [observer] }

/-- Replaces the sources of a derived value; only the difference is observed anew or no longer. -/
def retrack (w : World) (id : DerivedId) (next : List Source) : World :=
  let previous := (w.derived id).sources
  let w := (previous.filter fun s ↦ !next.contains s).foldl (fun w s ↦ w.removeObserver id s) w
  let w := (next.filter fun s ↦ !previous.contains s).foldl (fun w s ↦ w.addObserver id s) w
  let height := (next.map w.heightOf).foldl max 0 + 1
  w.modifyDerived id fun d ↦ { d with sources := next, height := height }

/-- Takes a place in the queue: lower heights first, older values first at the same height. -/
def insertQueued (entry : Nat × DerivedId) : List (Nat × DerivedId) → List (Nat × DerivedId)
  | [] => [entry]
  | e :: rest =>
    if e = entry then e :: rest
    else if entry.1 < e.1 || entry.1 = e.1 && entry.2 < e.2 then entry :: e :: rest
    else e :: insertQueued entry rest

/-- Marks a derived value stale and queues it; one that is stale already is left alone. -/
def markStale (w : World) (id : DerivedId) : World :=
  let d := w.derived id
  if d.disposed || d.stale then w
  else
    let w := w.modifyDerived id fun d ↦ { d with stale := true }
    { w with queue := insertQueued (d.height, id) w.queue }

def markObservers (w : World) (s : Source) : World :=
  (w.observersOf s).foldl markStale w

end World

namespace Act

/-- An act whose reads are not recorded. -/
def untracked {α : Type} (act : Act α) : Act α := do
  modify (·.pushFrame none)
  act.followedBy fun w ↦ w.popFrame.reap

/-- An act in a frame of its own, with what the frame holds in the end. -/
def evaluating {α : Type} (owner : DerivedId) (act : Act α) : Act (α × Frame) := do
  modify (·.pushFrame (some owner))
  let a ← act.orElse fun w ↦ w.popFrame.reap
  let frame := (← get).frames.headD default
  modify (·.popFrame)
  return (a, frame)

end Act

end LiveGraph
