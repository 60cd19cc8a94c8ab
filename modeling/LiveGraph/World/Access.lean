import LiveGraph.World.Basic

/-!
# Looking into the world

Reading and replacing single things of a world, and what is known without any tracking.
-/

namespace LiveGraph

namespace Store

/-- The number of clocks from which on unread ones are dropped. -/
def sweepThreshold : Nat := 256

def empty : Store where
  incarnations := #[]
  live := ∅
  byKind := ∅
  edges := .empty
  indices := ∅
  clocks := ∅
  sweepAt := sweepThreshold
  listeners := ⟨.empty, .empty, .empty, .empty, .empty⟩

/-- The incarnation created under a serial; serials start at 1. -/
def incarnation (s : Store) (serial : Nat) : Entity :=
  s.incarnations.getD (serial - 1) default

/-- The live entities of a type by serial. -/
def bucket (s : Store) (kind : String) : Std.TreeMap Nat Uri :=
  s.byKind.getD kind ∅

def setBucket (s : Store) (kind : String) (bucket : Std.TreeMap Nat Uri) : Store :=
  { s with
    byKind := if bucket.isEmpty then s.byKind.erase kind else s.byKind.insert kind bucket }

/-- The serials of the live entities of a type, oldest first. -/
def serialsOf (s : Store) (kind : String) : List Nat :=
  (s.bucket kind).keys

end Store

namespace Listeners

def get (ls : Listeners) : StoreEvent → Watchers
  | .added => ls.added
  | .removed => ls.removed
  | .updated => ls.updated
  | .edgeAdded => ls.edgeAdded
  | .edgeRemoved => ls.edgeRemoved

def modify (ls : Listeners) (event : StoreEvent) (f : Watchers → Watchers) : Listeners :=
  match event with
  | .added => { ls with added := f ls.added }
  | .removed => { ls with removed := f ls.removed }
  | .updated => { ls with updated := f ls.updated }
  | .edgeAdded => { ls with edgeAdded := f ls.edgeAdded }
  | .edgeRemoved => { ls with edgeRemoved := f ls.edgeRemoved }

end Listeners

namespace World

def signal (w : World) (id : SignalId) : Signal :=
  w.signals.getD id default

def modifySignal (w : World) (id : SignalId) (f : Signal → Signal) : World :=
  { w with signals := w.signals.modify id f }

/-- A new signal and its number. -/
def addSignal (w : World) (value : Value) (equality : Equality) (owner : Owner) :
    SignalId × World :=
  (w.signals.size,
    { w with signals := w.signals.push ⟨value, equality, owner, .empty, [], false, false⟩ })

def valueOf (w : World) (id : SignalId) : Value :=
  (w.signal id).value

def derived (w : World) (id : DerivedId) : Derived :=
  w.deriveds.getD id default

def modifyDerived (w : World) (id : DerivedId) (f : Derived → Derived) : World :=
  { w with deriveds := w.deriveds.modify id f }

/-- A new derived value, not yet computed, and its number. -/
def addDerived (w : World) (compute : Compute) (equality : Equality) : DerivedId × World :=
  (w.deriveds.size,
    { w with
      deriveds := w.deriveds.push
        ⟨compute, equality, none, true, false, false, 1, [], [], .empty, false, false, false⟩ })

def store (w : World) (id : StoreId) : Store :=
  w.stores.getD id default

def modifyStore (w : World) (id : StoreId) (f : Store → Store) : World :=
  { w with stores := w.stores.modify id f }

def view (w : World) (id : ViewId) : View :=
  w.views.getD id default

def modifyView (w : World) (id : ViewId) (f : View → View) : World :=
  { w with views := w.views.modify id f }

def state (w : World) (id : StateId) : State :=
  w.states.getD id default

def modifyState (w : World) (id : StateId) (f : State → State) : World :=
  { w with states := w.states.modify id f }

def modifySession (w : World) (f : Session → Session) : World :=
  { w with session := f w.session }

def note (w : World) (n : Note) : World :=
  w.modifySession fun s ↦ { s with notes := n :: s.notes }

/-- The callbacks of a channel. -/
def watchers (w : World) : Channel → Watchers
  | .signal id => (w.signal id).watchers
  | .derived id => (w.derived id).watchers
  | .store id event => (w.store id).listeners.get event
  | .view id => (w.view id).watchers

def modifyWatchers (w : World) (channel : Channel) (f : Watchers → Watchers) : World :=
  match channel with
  | .signal id => w.modifySignal id fun s ↦ { s with watchers := f s.watchers }
  | .derived id => w.modifyDerived id fun d ↦ { d with watchers := f d.watchers }
  | .store id event =>
    w.modifyStore id fun s ↦ { s with listeners := s.listeners.modify event f }
  | .view id => w.modifyView id fun v ↦ { v with watchers := f v.watchers }

/-- Registers a callback. -/
def subscribe (w : World) (channel : Channel) (callback : Callback) : Subscription × World :=
  (some (channel, (w.watchers channel).issued + 1), w.modifyWatchers channel (·.add callback))

def unsubscribe (w : World) : Subscription → World
  | some (channel, id) => w.modifyWatchers channel (·.remove id)
  | none => w

/-- The incarnation an entity reference names. -/
def entity (w : World) (e : EntityRef) : Entity :=
  (w.store e.store).incarnation e.serial

def modifyEntity (w : World) (e : EntityRef) (f : Entity → Entity) : World :=
  w.modifyStore e.store fun s ↦
    { s with incarnations := s.incarnations.modify (e.serial - 1) f }

def uriOf (w : World) (e : EntityRef) : Uri :=
  (w.entity e).uri

def kindOf (w : World) (e : EntityRef) : String :=
  (w.entity e).kind

/-- Same URI and same serial, be it in two stores. -/
def sameEntity (w : World) (a b : EntityRef) : Bool :=
  a.serial = b.serial && w.uriOf a = w.uriOf b

/-- The live entity at a URI. -/
def find? (w : World) (s : StoreId) (uri : Uri) : Option EntityRef :=
  ((w.store s).live.get? uri).map (EntityRef.mk s)

def contains (w : World) (s : StoreId) (uri : Uri) : Bool :=
  (w.store s).live.contains uri

/-- The live entities of a type, oldest first. -/
def entitiesOf (w : World) (s : StoreId) (kind : String) : List EntityRef :=
  ((w.store s).serialsOf kind).map (EntityRef.mk s)

/-- All live entities by URI. -/
def entities (w : World) (s : StoreId) : List EntityRef :=
  (w.store s).live.values.map (EntityRef.mk s)

/-- The value of a property as it is now, if there is that property. -/
def property? (w : World) (e : EntityRef) (prop : String) : Option Value :=
  ((w.entity e).props.get? prop).map w.valueOf

/-- The value of a property as it is now; an absent one is unset. -/
def property (w : World) (e : EntityRef) (prop : String) : Value :=
  ((w.entity e).props.get? prop).elim .nil w.valueOf

/-- All properties by name. -/
def properties (w : World) (e : EntityRef) : List (String × Value) :=
  (w.entity e).props.toList.map fun (prop, id) ↦ (prop, w.valueOf id)

def picture (w : World) (e : EntityRef) : EntityPicture :=
  ⟨w.uriOf e, w.kindOf e, e.serial, (w.entity e).live, w.properties e⟩

def counts (w : World) (s : StoreId) : Counts :=
  ⟨(w.store s).live.size, (w.store s).edges.count,
    (w.store s).byKind.toList.map fun (kind, bucket) ↦ (kind, bucket.size)⟩

/-- Whether a read made now is recorded: an evaluation is innermost. -/
def isTracking (w : World) : Bool :=
  w.frames.head?.any fun f ↦ f.owner.isSome

end World

end LiveGraph
