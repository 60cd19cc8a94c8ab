import LiveGraph.Session.Description
import LiveGraph.State
import LiveGraph.Task.Basic

/-!
# Names

A session knows things by names of its own, one table per kind. A name given again stands for the
new thing, and what it stood for before is let go.
-/

namespace LiveGraph.World

def nameEntity (w : World) (name : String) (e : EntityRef) : World :=
  w.modifySession fun s ↦ { s with entities := s.entities.insert name e }

def nameSignal (w : World) (name : String) (id : SignalId) : World :=
  w.modifySession fun s ↦ { s with signals := s.signals.insert name id }

def nameDerived (w : World) (name : String) (id : DerivedId) : World :=
  (w.modifySession fun s ↦ { s with deriveds := s.deriveds.insert name id }).reap

def nameView (w : World) (name : String) (id : ViewId) : World :=
  (w.modifySession fun s ↦ { s with views := s.views.insert name id }).reap

def nameSubscription (w : World) (name : String) (sub : Subscription) : World :=
  w.modifySession fun s ↦ { s with subscriptions := s.subscriptions.insert name sub }

def nameIterator (w : World) (name : String) (left : List EntityRef) : World :=
  w.modifySession fun s ↦ { s with iterators := s.iterators.insert name left }

def nameToken (w : World) (name : String) (l : Liveness) : World :=
  w.modifySession fun s ↦ { s with tokens := s.tokens.insert name l }

def nameSnapshot (w : World) (name : String) (snapshot : Snapshot) : World :=
  w.modifySession fun s ↦ { s with snapshots := s.snapshots.insert name snapshot }

def dropSignalName (w : World) (name : String) : World :=
  w.modifySession fun s ↦ { s with signals := s.signals.erase name }

def dropDerivedName (w : World) (name : String) : World :=
  (w.modifySession fun s ↦ { s with deriveds := s.deriveds.erase name }).reap

def dropViewName (w : World) (name : String) : World :=
  (w.modifySession fun s ↦ { s with views := s.views.erase name }).reap

def dropSubscriptionName (w : World) (name : String) : World :=
  w.modifySession fun s ↦ { s with subscriptions := s.subscriptions.erase name }

def nameTask (w : World) (name : String) (t : Task) : World :=
  w.modifySession fun s ↦ { s with tasks := s.tasks.insert name t }

def dropTaskName (w : World) (name : String) : World :=
  w.modifySession fun s ↦ { s with tasks := s.tasks.erase name }

/-- Drops the task of a name, if there is one. -/
def cancelTask (w : World) (name : String) : World :=
  match w.session.tasks.get? name with
  | none => w
  | some t => (w.leaveLine t).dropTaskName name

/-- Gives back the lock kept under a name, if there is one. -/
def releaseGuard (w : World) (name : String) : World :=
  match w.session.guards.get? name with
  | none => w
  | some (key, claim) =>
    w.modifySession fun s ↦
      { s with guards := s.guards.erase name, locks := s.locks.leave key claim }

/-- Keeps a lock under a name. -/
def nameGuard (w : World) (name key : String) (claim : Nat) : World :=
  (w.releaseGuard name).modifySession fun s ↦
    { s with guards := s.guards.insert name (key, claim) }

/-- Closes what a task of this name waits for. -/
def closeGate (w : World) (name : String) : World :=
  w.modifySession fun s ↦ { s with openings := s.openings.insert name none }

def openGate (w : World) (name : String) (opening : Opening) : World :=
  w.modifySession fun s ↦
    { s with
      openings := if s.openings.contains name then s.openings.insert name (some opening)
        else s.openings }

/-- The next claim to a place in a line. -/
def nextClaim (w : World) : Nat × World :=
  (w.session.claims, w.modifySession fun s ↦ { s with claims := s.claims + 1 })

end LiveGraph.World
