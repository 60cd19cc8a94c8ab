import LiveGraph.Breakpoint.Location
import LiveGraph.Datum
import LiveGraph.Graph.Index
import LiveGraph.Query
import LiveGraph.Record

/-!
# Scripts

What a client does, as data: formulas, which derived values compute, and steps, which act on a
session and which watchers and listeners carry out when they are called. Both refer to entities,
signals and the rest by the names a session keeps for them.
-/

namespace LiveGraph

/-- The summaries of the debug tree: whether a session has no child session, how many of its
threads are stopped, how many frames a thread has. -/
inductive Rollup
  | leaf
  | stopped
  | frames
  deriving DecidableEq, Inhabited, Repr

/-- What a derived value computes. -/
inductive Formula
  | constant (d : Datum)
  | signal (name : String)
  | peek (name : String)
  | derived (name : String)
  | sum (terms : List Formula)
  | product (factors : List Formula)
  | modulo (a b : Formula)
  | choose (condition yes no : Formula)
  | equal (a b : Formula)
  | list (items : List Formula)
  | length (f : Formula)
  | untracked (f : Formula)
  | crash
  | property (uri : Uri) (prop : String)
  | handleProperty (entity prop : String)
  | contains (uri : Uri)
  | entitiesOf (kind : String)
  | targets (uri : Uri) (kind : String)
  | sources (uri : Uri) (kind : String)
  | firstFiled (index : String) (key : Value)
  | filed (index : String) (key : Value)
  | resolve (pattern : String) (scope : Option String)
  | focus (role : String) (scope : Option String)
  | items (view : String)
  | total (view : String)
  | breakpoints (path : String)
  deriving Inhabited, Repr

/-- An entity by the name of its handle, or by what is found at a URI. -/
inductive Target
  | handle (name : String)
  | uri (uri : Uri)
  deriving DecidableEq, Repr

inductive StoreEvent
  | added
  | removed
  | updated
  | edgeAdded
  | edgeRemoved
  deriving DecidableEq, Repr

inductive WindowEvent
  | enter
  | leave
  | change
  deriving DecidableEq, Repr

/-- What a task waits for: a verdict, or children to load. -/
inductive Opening
  | verdict (accepted : Bool)
  | children (specs : List EntitySpec)
  deriving DecidableEq, Repr

inductive SnapshotSource
  | bytes (content : List UInt8)
  | captured (name : String)
  | given (s : Snapshot)
  deriving DecidableEq, Repr

/-- What can be described in words. -/
inductive Subject
  | store
  | focus
  | breakpoints
  | locks
  | view (name : String)
  | token (name : String)
  | guard (task : String)
  | subscription (name : String)
  | entity (target : Target)
  deriving DecidableEq, Repr

/-- One act of a client. Steps named `reaction` are carried out by the callback that is registered,
each time it is called. -/
inductive Step
  | add (spec : EntitySpec) (handle : Option String)
  | remove (uri : Uri)
  | update (uri : Uri) (props : List (String × Value))
  | get (uri : Uri) (handle : Option String)
  | contains (uri : Uri)
  | entitiesOf (kind : String)
  | entities
  | counts
  | link (edge : Edge) (atFront : Bool)
  | unlink (edge : Edge)
  | hasEdge (edge : Edge)
  | targets (uri : Uri) (kind : String)
  | sources (uri : Uri) (kind : String)
  | edges
  | defineIndex (name kind : String) (rule : KeyRule)
  | firstFiled (index : String) (key : Value)
  | filed (index : String) (key : Value)
  | listen (event : StoreEvent) (kind handle : String) (reaction : List Step)
  | unsubscribe (subscription : String)
  | batch (steps : List Step)
  | crash
  | entity (target : Target)
  | getProperty (target : Target) (prop : String)
  | setProperty (target : Target) (prop : String) (value : Value)
  | defineProperty (target : Target) (prop : String) (value : Value) (handle : Option String)
  | propertyNames (target : Target)
  | propertySignal (target : Target) (prop handle : String)
  | sameEntity (a b : String)
  | token (target : Target) (handle : String)
  | tokenState (token : String)
  | signal (handle : String) (value : Value) (equality : Equality)
  | getSignal (signal : String)
  | setSignal (signal : String) (value : Value)
  | watchSignal (signal handle : String) (reaction : List Step)
  | disposeSignal (signal : String)
  | isSignalDisposed (signal : String)
  | dropSignal (signal : String)
  | derive (handle : String) (formula : Formula) (equality : Equality)
  | rollup (target : Target) (which : Rollup) (handle : String)
  | getDerived (derived : String)
  | watchDerived (derived handle : String) (reaction : List Step)
  | disposeDerived (derived : String)
  | derivedInfo (derived : String)
  | dropDerived (derived : String)
  | evaluate (formula : Formula)
  | focus (uri : Uri) (scope : Option String)
  | unfocus (role : String)
  | clearScope (scope : String)
  | focused
  | readFocus (role : String) (scope : Option String)
  | watchFocus (role handle : String) (reaction : List Step)
  | ancestors (target : Target)
  | follow (target : Target) (relation : String)
  | schema (name : String) (target : Option Target)
  | resolve (pattern : String) (scope : Option String)
  | view (handle : String) (query : Query) (window : Window)
  | getView (view : String)
  | scroll (view : String) (offset : Nat)
  | setLimit (view : String) (limit : Nat)
  | watchView (view : String) (event : WindowEvent) (handle : String) (reaction : List Step)
  | disposeView (view : String)
  | dropView (view : String)
  | iterate (view handle : String)
  | next (iterator : String)
  | breakpoint (location : Location)
  | toggle (location : Location)
  | startToggle (handle : String) (location : Location)
  | startLock (handle key : String)
  | startLoad (handle edge : String) (target : Target)
  | «open» (task : String) (opening : Opening)
  | poll (task : String)
  | cancel (task : String)
  | release (task : String)
  | activeKeys
  | spawn (handle : String) (target : Target) (prop : String) (reaction : List Step)
  | finish (task : String) (value : Value) (aborted : Bool)
  | capture (handle : Option String) (withFocus : Bool)
  | restore (source : SnapshotSource) (withFocus : Bool)
  | reset
  | describe (subject : Option Subject)
  | unknown (name : String)
  deriving Inhabited, Repr

end LiveGraph
