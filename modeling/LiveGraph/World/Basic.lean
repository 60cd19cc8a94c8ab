import LiveGraph.Graph.Adjacency
import LiveGraph.Schema
import LiveGraph.Script.Basic
import LiveGraph.Task.Lock

/-!
# The world

Everything a session can act on, as one value: signals and derived values with what is still to be
refreshed and to be told, stores, views, debug states, and the names a session keeps. Things refer
to each other by number; numbers are never used again.
-/

namespace LiveGraph

abbrev SignalId := Nat

abbrev DerivedId := Nat

abbrev StoreId := Nat

abbrev ViewId := Nat

abbrev StateId := Nat

/-- One incarnation of an entity: a store and the serial it was created under. -/
structure EntityRef where
  store : StoreId
  serial : Nat
  deriving DecidableEq, Inhabited, Repr

/-- What callbacks are told. -/
inductive Event
  | value (d : Datum)
  | entity (what : StoreEvent) (e : EntityRef)
  | property (e : EntityRef) (prop : String)
  | edge (what : StoreEvent) (edge : Edge)
  | window (what : WindowEvent) (e : Option EntityRef)
  | applied (refusal : Option Fault)
  deriving Inhabited, Repr

/-- Which of the events of a channel a script asked for; a kind of `*` stands for all. -/
inductive EventFilter
  | every
  | kind (kind : String)
  | window (what : WindowEvent)
  deriving DecidableEq, Repr

/-- What is called when something happens. -/
inductive Callback
  | script (subscription : String) (filter : EventFilter) (reaction : List Step)
  /-- Tells the store of a changed property. -/
  | property (e : EntityRef) (prop : String)
  /-- Clears the roles that a removed entity had. -/
  | forget (state : StateId)
  /-- Takes an added or updated entity into a view, or a removed one out of it. -/
  | view (view : ViewId) (what : StoreEvent)
  deriving Inhabited, Repr

/-- Callbacks in the order they were added, each under a number of its own. -/
structure Watchers where
  issued : Nat
  entries : List (Nat × Callback)
  deriving Inhabited

namespace Watchers

def empty : Watchers := ⟨0, []⟩

def add (ws : Watchers) (callback : Callback) : Watchers :=
  ⟨ws.issued + 1, ws.entries ++ [(ws.issued + 1, callback)]⟩

def remove (ws : Watchers) (id : Nat) : Watchers :=
  { ws with entries := ws.entries.filter fun e ↦ e.1 ≠ id }

def clear (ws : Watchers) : Watchers :=
  { ws with entries := [] }

def isEmpty (ws : Watchers) : Bool :=
  ws.entries.isEmpty

def contains (ws : Watchers) (id : Nat) : Bool :=
  ws.entries.any fun e ↦ e.1 = id

end Watchers

/-- Where callbacks are registered. -/
inductive Channel
  | signal (id : SignalId)
  | derived (id : DerivedId)
  | store (id : StoreId) (event : StoreEvent)
  | view (id : ViewId)
  deriving DecidableEq, Repr

/-- A registered callback; nothing for one that was never registered. -/
abbrev Subscription := Option (Channel × Nat)

/-- What keeps a signal in being. -/
inductive Owner
  | handles
  | entity (e : EntityRef)
  | state (id : StateId)
  | view (id : ViewId)
  | clock
  deriving DecidableEq, Repr

structure Signal where
  value : Value
  equality : Equality
  owner : Owner
  watchers : Watchers
  observers : List DerivedId
  notifying : Bool
  disposed : Bool

instance : Inhabited Signal :=
  ⟨⟨.nil, .same, .handles, .empty, [], false, false⟩⟩

/-- What a derived value was computed from. -/
inductive Source
  | signal (id : SignalId)
  | derived (id : DerivedId)
  deriving DecidableEq, Repr

/-- The function of a derived value. -/
inductive Compute
  | formula (name : String) (f : Formula)
  | rollup (store : StoreId) (which : Rollup) (uri : Uri)
  deriving Inhabited, Repr

structure Derived where
  compute : Compute
  equality : Equality
  value : Option Datum
  stale : Bool
  evaluating : Bool
  cyclic : Bool
  height : Nat
  sources : List Source
  observers : List DerivedId
  watchers : Watchers
  notifying : Bool
  disposed : Bool
  dropped : Bool

instance : Inhabited Derived :=
  ⟨⟨default, .same, none, true, false, false, 1, [], [], .empty, false, false, true⟩⟩

/-- The reads of one evaluation; reads in a frame without owner are not recorded. -/
structure Frame where
  owner : Option DerivedId
  sources : List Source
  cyclic : Bool
  deriving Inhabited

/-- A notification put off to the flush. -/
inductive Effect
  | signal (id : SignalId)
  | derived (id : DerivedId)
  | view (id : ViewId)
  deriving DecidableEq, Repr

/-- Something an act under way holds on to. -/
inductive Pin
  | signal (id : SignalId)
  | derived (id : DerivedId)
  | view (id : ViewId)
  | store (id : StoreId)
  | state (id : StateId)
  deriving DecidableEq, Repr

/-- The part of a store that a read depends on. -/
inductive ClockKey
  | presence (uri : Uri)
  | kind (kind : String)
  | targets (uri : Uri) (kind : String)
  | sources (uri : Uri) (kind : String)
  | index (name : String)
  deriving DecidableEq, Ord, Repr

/-- An incarnation of an entity: its properties are signals, and so is their number. -/
structure Entity where
  uri : Uri
  kind : String
  props : Std.TreeMap String SignalId
  shape : SignalId
  live : Bool
  deriving Inhabited

structure Listeners where
  added : Watchers
  removed : Watchers
  updated : Watchers
  edgeAdded : Watchers
  edgeRemoved : Watchers
  deriving Inhabited

/-- A store keeps every incarnation it ever had; the live ones are found by URI. -/
structure Store where
  incarnations : Array Entity
  live : Std.TreeMap Uri Nat
  byKind : Std.TreeMap String (Std.TreeMap Nat Uri)
  edges : Adjacency
  indices : Std.TreeMap String Index
  clocks : Std.TreeMap ClockKey SignalId
  sweepAt : Nat
  listeners : Listeners
  deriving Inhabited

/-- A matching entity and its sort key as last read. -/
structure Row where
  key : Value
  entity : EntityRef
  deriving DecidableEq, Inhabited

structure View where
  store : StoreId
  query : Query
  kind : String
  rows : List Row
  offset : Nat
  limit : Nat
  window : List EntityRef
  version : SignalId
  watchers : Watchers
  changing : Bool
  subscriptions : List Subscription
  disposed : Bool
  dropped : Bool

instance : Inhabited View :=
  ⟨⟨0, .index "" .nil, "", [], 0, 0, [], 0, .empty, false, [], false, true⟩⟩

/-- The focus of one scope, and from which depth on it is the scope's own. -/
structure Override where
  roles : Std.TreeMap String SignalId
  ownedFrom : SignalId
  deriving Inhabited

/-- A store with its focus and its breakpoint service. -/
structure State where
  store : StoreId
  schema : Schema
  roles : Std.TreeMap String SignalId
  overrides : Std.TreeMap String Override
  scopes : SignalId
  locks : KeyedMutex
  issued : Nat
  deriving Inhabited

/-- Names one incarnation of an entity for later. -/
structure Liveness where
  store : StoreId
  uri : Uri
  serial : Nat
  deriving DecidableEq, Inhabited, Repr

/-- What a started task is about. -/
inductive Work
  | toggle (state : StateId) (location : Location) (found : Option (Option EntityRef))
  | lock (key : String)
  | load (store : StoreId) (parent : Liveness) (edge : String) (fetched : Bool)
  deriving Inhabited

/-- A started task; its claim is its place in lock lines, once it has one. -/
structure Task where
  claim : Nat
  claimed : Bool
  work : Work
  deriving Inhabited

/-- A task that writes a property when it ends, if the entity is still the same. -/
structure Guarded where
  entity : Liveness
  prop : String
  reaction : List Step
  deriving Inhabited

/-- An entity as it is shown. -/
structure EntityPicture where
  uri : Uri
  kind : String
  serial : Nat
  live : Bool
  props : List (String × Value)
  deriving DecidableEq, Inhabited, Repr

structure ViewPicture where
  items : List Uri
  total : Nat
  offset : Nat
  limit : Nat
  disposed : Bool
  deriving DecidableEq, Inhabited, Repr

structure Counts where
  entities : Nat
  edges : Nat
  kinds : List (String × Nat)
  deriving DecidableEq, Inhabited, Repr

structure FocusPicture where
  scope : Option String
  globally : Option Uri
  here : Option Uri
  entity : Option Uri
  deriving DecidableEq, Inhabited, Repr

structure NamePicture where
  collection : String
  isRelation : Bool
  axis : Option Axis
  depth : Option Nat
  roleOf : Option String
  deriving DecidableEq, Inhabited, Repr

structure ResolvePicture where
  one : Option Uri
  all : List Uri
  isSingle : Bool
  expectsSingle : Bool
  scope : Option String
  deriving DecidableEq, Inhabited, Repr

structure BreakpointPicture where
  source : Option Uri
  onPath : List Uri
  found : Option Uri
  location : String
  deriving DecidableEq, Inhabited, Repr

/-- What a toggle did. -/
inductive Toggled
  | added (e : EntityPicture)
  | removed (uri : Uri)
  | rejected
  deriving DecidableEq, Inhabited, Repr

/-- What a task that ended came to. -/
inductive Outcome
  | toggled (r : Except Fault Toggled)
  /-- The lock is held from now on. -/
  | locked (key : String)
  | loaded (r : Except Fault (List Uri))
  deriving Repr

/-- What a step answers. -/
inductive Reply
  | nothing
  | bool (b : Bool)
  | number (n : Nat)
  | text (s : String)
  | uri? (uri : Option Uri)
  | uris (uris : List Uri)
  | names (names : List String)
  | datum (d : Datum)
  | fault (why : Fault)
  | entity (e : EntityPicture)
  | edges (edges : List Edge)
  | counts (c : Counts)
  | token (uri : Uri) (live : Bool) (serial : Option Nat)
  | derived (sources : Nat) (disposed : Bool)
  | focus (f : FocusPicture)
  | name (n : NamePicture)
  | resolved (r : ResolvePicture)
  | view (v : ViewPicture)
  | next (uri : Option Uri) (left : Nat)
  | breakpoint (b : BreakpointPicture)
  | pending
  | ready (o : Outcome)
  | captured (s : Snapshot)
  | restored
  | aborted (cancelled : Bool)
  | unknownStep (name : String)
  | crashed
  deriving Inhabited, Repr

/-- What a session writes down while steps are carried out. -/
inductive Note
  | entity (subscription : String) (event : StoreEvent) (uri : Uri)
  | property (subscription : String) (uri : Uri) (prop : String) (value : Value)
  | edge (subscription : String) (event : StoreEvent) (edge : Edge)
  | value (subscription : String) (d : Datum)
  | window (subscription : String) (event : WindowEvent) (uri : Option Uri)
  | computed (derived : String)
  | asked (task : String)
  | fetching (task : String)
  | applied (task : String) (refusal : Option Fault)
  | reply (r : Reply)
  deriving Inhabited, Repr

/-- The names of a session, and what it wrote down, latest first. -/
structure Session where
  current : StateId
  kept : Option StateId
  schema : Schema
  entities : Std.TreeMap String EntityRef
  signals : Std.TreeMap String SignalId
  deriveds : Std.TreeMap String DerivedId
  views : Std.TreeMap String ViewId
  iterators : Std.TreeMap String (List EntityRef)
  subscriptions : Std.TreeMap String Subscription
  tokens : Std.TreeMap String Liveness
  snapshots : Std.TreeMap String Snapshot
  tasks : Std.TreeMap String Task
  openings : Std.TreeMap String (Option Opening)
  guards : Std.TreeMap String (String × Nat)
  spawned : Std.TreeMap String Guarded
  locks : KeyedMutex
  claims : Nat
  notes : List Note
  deriving Inhabited

structure World where
  signals : Array Signal
  deriveds : Array Derived
  stores : Array Store
  views : Array View
  states : Array State
  /-- How many batches are open. -/
  depth : Nat
  flushing : Bool
  /-- Stale derived values to refresh, by height and number. -/
  queue : List (Nat × DerivedId)
  effects : List Effect
  /-- Evaluations under way, innermost first. -/
  frames : List Frame
  pins : List Pin
  session : Session
  deriving Inhabited

end LiveGraph
