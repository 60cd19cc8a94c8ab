import LiveGraph.World.Access

/-!
# What is still held

A thing is in being as long as something holds it: a name of the session, an act under way, or
something that is in being itself. Derived values and views end when nothing holds them any more;
what they held is then let go in turn. Two derived values that hold each other stay.
-/

namespace LiveGraph.World

/-- Whether a derived value in being, or an evaluation under way, has the source. -/
def isSource (w : World) (s : Source) : Bool :=
  w.deriveds.any (fun d ↦ !d.dropped && d.sources.contains s)
    || w.frames.any fun f ↦ f.sources.contains s

def isDerivedHeld (w : World) (id : DerivedId) : Bool :=
  w.session.deriveds.values.contains id || w.pins.contains (.derived id)
    || w.isSource (.derived id)

def isViewHeld (w : World) (id : ViewId) : Bool :=
  w.session.views.values.contains id || w.pins.contains (.view id)

/-- A debug state is held by being the session's, by being the one kept for it, or by an act. -/
def isStateHeld (w : World) (id : StateId) : Bool :=
  w.session.current = id || w.session.kept = some id || w.pins.contains (.state id)

/-- A store is held by its debug state, and by views, summaries and tasks that use it. -/
def isStoreHeld (w : World) (s : StoreId) : Bool :=
  w.pins.contains (.store s)
    || (List.range w.states.size).any (fun id ↦ w.isStateHeld id && (w.state id).store = s)
    || w.views.any (fun v ↦ !v.dropped && v.store = s)
    || w.deriveds.any (fun d ↦ !d.dropped && match d.compute with
      | .rollup store _ _ => store = s
      | .formula _ _ => false)
    || w.session.tasks.values.any fun t ↦ match t.work with
      | .toggle state _ _ => (w.state state).store = s
      | .load store _ _ _ => store = s
      | .lock _ => false

def isEntityHeld (w : World) (e : EntityRef) : Bool :=
  w.isStoreHeld e.store || w.session.entities.values.contains e

def isOwnerHeld (w : World) : Owner → Bool
  | .handles => false
  | .entity e => w.isEntityHeld e
  | .state id => w.isStateHeld id
  | .view id => !(w.view id).dropped
  | .clock => true

def isSignalHeld (w : World) (id : SignalId) : Bool :=
  w.session.signals.values.contains id || w.pins.contains (.signal id)
    || w.isOwnerHeld (w.signal id).owner
    || w.isSource (.signal id)

def removeObserver (w : World) (observer : DerivedId) : Source → World
  | .signal id => w.modifySignal id fun s ↦ { s with observers := s.observers.erase observer }
  | .derived id => w.modifyDerived id fun d ↦ { d with observers := d.observers.erase observer }

/-- Ends a derived value: it no longer observes anything and holds nothing. -/
def dropDerived (w : World) (id : DerivedId) : World :=
  let w' := (w.derived id).sources.foldl (fun w s ↦ w.removeObserver id s) w
  w'.modifyDerived id fun d ↦ { d with sources := [], dropped := true }

/-- Takes a view off its store and drops its callbacks; its window stays. -/
def shutView (w : World) (id : ViewId) : World :=
  if (w.view id).disposed then w
  else
    let w' := (w.view id).subscriptions.foldl unsubscribe w
    w'.modifyView id fun v ↦
      { v with subscriptions := [], watchers := v.watchers.clear, disposed := true }

def dropView (w : World) (id : ViewId) : World :=
  (w.shutView id).modifyView id fun v ↦ { v with dropped := true }

/-- Ends the derived values that nothing holds, one after the other. -/
def reapDeriveds : Nat → World → World
  | 0, w => w
  | n + 1, w =>
    match (List.range w.deriveds.size).find? fun id ↦
        !(w.derived id).dropped && !w.isDerivedHeld id with
    | some id => reapDeriveds n (w.dropDerived id)
    | none => w

def reapViews (w : World) : World :=
  (List.range w.views.size).foldl
    (fun w id ↦ if (w.view id).dropped || w.isViewHeld id then w else w.dropView id) w

/-- Ends everything that nothing holds. -/
def reap (w : World) : World :=
  reapDeriveds w.deriveds.size w.reapViews

def pin (w : World) (p : Pin) : World :=
  { w with pins := p :: w.pins }

def unpin (w : World) (p : Pin) : World :=
  reap { w with pins := w.pins.erase p }

end LiveGraph.World
