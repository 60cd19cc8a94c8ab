import LiveGraph.Packed.Reader
import LiveGraph.Session.Names
import LiveGraph.Snapshot.Capture

/-!
# Actions

What the single steps of a script do, by the kind of thing they are about. A step that names
something unknown answers that there is no such thing.
-/

namespace LiveGraph

namespace Reply

def ofExcept {α : Type} (f : α → Reply) : Except Fault α → Reply
  | .ok a => f a
  | .error why => .fault why

def ofUnit : Except Fault Unit → Reply :=
  ofExcept fun _ ↦ .bool true

end Reply

namespace Session

/-- Does something with a named thing, or answers that there is none. -/
def withThing {α : Type} (thing : Option α) (kind : HandleKind) (act : α → Act Reply) :
    Act Reply :=
  match thing with
  | some a => act a
  | none => return .fault (.noHandle kind)

def withEntity (target : Target) (act : EntityRef → Act Reply) : Act Reply := do
  withThing ((← get).target? target) .entity act

def withSignal (name : String) (act : SignalId → Act Reply) : Act Reply := do
  withThing ((← get).session.signals.get? name) .signal act

def withDerived (name : String) (act : DerivedId → Act Reply) : Act Reply := do
  withThing ((← get).session.deriveds.get? name) .derived fun id ↦
    Act.holding (.derived id) (act id)

def withView (name : String) (act : ViewId → Act Reply) : Act Reply := do
  withThing ((← get).session.views.get? name) .view fun id ↦ Act.holding (.view id) (act id)

def showEntity (e : EntityRef) : Act Reply :=
  Act.peek fun w ↦ .entity (w.picture e)

def showView (id : ViewId) : Act Reply :=
  Act.peek fun w ↦ .view (View.picture w id)

/-- Keeps a subscription under a name. -/
def keepSubscription (name : String) (sub : Subscription) : Act Reply := do
  modify (·.nameSubscription name sub)
  return .nothing

def uris (r : Reads (List EntityRef)) : Act Reply := do
  let es ← r.run
  Act.peek fun w ↦ .uris (es.map w.uriOf)

def add [Dispatch] (spec : EntitySpec) (handle : Option String) : Act Reply := do
  match ← Store.add (← get).currentStore spec with
  | .error why => return .fault why
  | .ok e =>
    handle.forM fun name ↦ modify (·.nameEntity name e)
    showEntity e

def lookup (uri : Uri) (handle : Option String) : Act Reply := do
  match (← get).find? (← get).currentStore uri with
  | none => return .nothing
  | some e =>
    handle.forM fun name ↦ modify (·.nameEntity name e)
    showEntity e

def define [Dispatch] (e : EntityRef) (prop : String) (value : Value) (handle : Option String) :
    Act Reply := do
  match ← Entity.define e prop value with
  | .error why => return .fault why
  | .ok id =>
    handle.forM fun name ↦ modify (·.nameSignal name id)
    Act.peek fun w ↦ .datum (.value (w.valueOf id))

def propertySignal (e : EntityRef) (prop handle : String) : Act Reply := do
  match ((← get).entity e).props.get? prop with
  | none => return .bool false
  | some id =>
    modify (·.nameSignal handle id)
    return .bool true

def sameEntity (a b : String) : Act Reply := do
  let w ← get
  withThing (w.session.entities.get? a) .entity fun a ↦
    withThing (w.session.entities.get? b) .entity fun b ↦ return .bool (w.sameEntity a b)

def token (target : Target) (handle : String) : Act Reply := do
  match (← get).target? target with
  | none => return .bool false
  | some e =>
    modify fun w ↦ w.nameToken handle (w.livenessOf e)
    return .bool true

def tokenState (token : String) : Act Reply := do
  let w ← get
  withThing (w.session.tokens.get? token) .token fun l ↦
    let e := w.alive? l
    return .token l.uri e.isSome (e.map (·.serial))

def addSignal (handle : String) (value : Value) (equality : Equality) : Act Reply := do
  let id ← modifyGet (·.addSignal value equality .handles)
  modify (·.nameSignal handle id)
  return .nothing

def dropSignal (name : String) : Act Reply := do
  let known := (← get).session.signals.contains name
  modify (·.dropSignalName name)
  return .bool known

def addDerived (handle : String) (compute : Compute) (equality : Equality) : Act Reply := do
  modify fun w ↦
    let (id, w) := w.addDerived compute equality
    w.nameDerived handle id
  return .nothing

def readDerived [Dispatch] (id : DerivedId) : Act Reply := do
  return .ofExcept .datum (← Derived.read id)

def dropDerived (name : String) : Act Reply := do
  let known := (← get).session.deriveds.contains name
  modify (·.dropDerivedName name)
  return .bool known

def showFocus (role : String) (scope : Option String) : Act Reply := do
  let w ← get
  let id := w.session.current
  return .focus
    ⟨scope, (Focus.read id none role).value w, (Focus.read id scope role).value w,
      ((Focus.readEntity id scope role).value w).map w.uriOf⟩

def watchFocus (role handle : String) (reaction : List Step) : Act Reply := do
  match (← get).current.roles.get? role with
  | none => return .bool false
  | some id =>
    let _ ← keepSubscription handle (← Signal.watch id (.script handle .every reaction))
    return .bool true

def follow (e : EntityRef) (relation : String) : Act Reply := do
  let w ← get
  withThing (w.current.schema.relations.get? relation) .relation fun r ↦
    uris (r.follow w.currentStore e)

def showName (name : String) (target : Option Target) : Act Reply := do
  let w ← get
  let schema := w.current.schema
  return .name
    ⟨schema.collectionKind name, schema.relations.contains name, schema.axes.get? name,
      schema.roleDepth name,
      (target.bind w.target?).bind fun e ↦ schema.roleOf (w.kindOf e)⟩

def showResolution (pattern : String) (scope : Option String) : Act Reply := do
  let w ← get
  match Pattern.parse pattern, (resolve w.session.current scope pattern).value w with
  | .ok p, .ok r =>
    return .resolved
      ⟨r.one?.map w.uriOf, r.toList.map w.uriOf, r.isSingle, p.isSingle, scope⟩
  | .error why, _ => return .fault (.parse why)
  | _, .error why => return .fault (.parse why)

def openView (handle : String) (query : Query) (window : Window) : Act Reply := do
  match ← View.open (← get).currentStore query window with
  | .error why => return .fault why
  | .ok id =>
    modify (·.nameView handle id)
    showView id

/-- Shows a view after something that may be refused. -/
def showViewAfter (id : ViewId) (r : Except Fault Unit) : Act Reply :=
  match r with
  | .ok () => showView id
  | .error why => return .fault why

def dropView (name : String) : Act Reply := do
  let known := (← get).session.views.contains name
  modify (·.dropViewName name)
  return .bool known

def iterate (id : ViewId) (handle : String) : Act Reply := do
  let window := ((← get).view id).window
  modify (·.nameIterator handle window)
  return .number window.length

def next (iterator : String) : Act Reply := do
  let w ← get
  withThing (w.session.iterators.get? iterator) .iterator fun
    | [] => return .next none 0
    | e :: rest => do
      modify (·.nameIterator iterator rest)
      return .next (some (w.uriOf e)) rest.length

def showBreakpoint (l : Location) : Act Reply := do
  let w ← get
  let s := w.currentStore
  return .breakpoint
    ⟨((Breakpoint.source s l.path).value w).map w.uriOf,
      ((Breakpoint.onPath s l.path).value w).map w.uriOf,
      ((Breakpoint.find s l).value w).map w.uriOf, l.display⟩

def toggle [Dispatch] (l : Location) : Act Reply := do
  let claim ← modifyGet (·.nextClaim)
  match ← Task.toggleNow claim (← get).session.current l with
  | none => return .pending
  | some r => return .ready (.toggled r)

/-- The store a task works on. -/
def storeOf (w : World) (t : Task) : Option StoreId :=
  match t.work with
  | .toggle id _ _ => some (w.state id).store
  | .load s _ _ _ => some s
  | .lock _ => none

/-- Goes on with the task of a name. One that ends is no longer there. -/
def poll [Dispatch] (name : String) : Act Reply := do
  let w ← get
  withThing (w.session.tasks.get? name) .task fun t ↦ do
    let act : Act Reply := do
      modify (·.dropTaskName name)
      match ← Task.advance name t with
      | .waiting t =>
        modify (·.nameTask name t)
        return .pending
      | .done o =>
        if let .locked key := o then modify (·.nameGuard name key t.claim)
        return .ready o
    match storeOf w t with
    | some s => Act.holding (.store s) act
    | none => act

/-- Starts a task, in place of one of the same name, and lets it go as far as it can. -/
def startTask [Dispatch] (name : String) (gated : Bool) (work : Work) : Act Reply := do
  let claim ← modifyGet (·.nextClaim)
  if gated then modify (·.closeGate name)
  modify fun w ↦ (w.cancelTask name).nameTask name ⟨claim, false, work⟩
  poll name

def cancel (name : String) : Act Reply := do
  let known := (← get).session.tasks.contains name
  modify (·.cancelTask name)
  return .bool known

def release (name : String) : Act Reply := do
  let known := (← get).session.guards.contains name
  modify (·.releaseGuard name)
  return .bool known

def spawn (handle : String) (e : EntityRef) (prop : String) (reaction : List Step) :
    Act Reply := do
  modify fun w ↦ (w.closeGate handle).modifySession fun s ↦
    { s with spawned := s.spawned.insert handle ⟨w.livenessOf e, prop, reaction⟩ }
  return .nothing

/-- Applies the result of a guarded task, if its entity is still the same; tells whether it was. -/
def conclude [Dispatch] (name : String) (g : Guarded) (value : Value) : Act Bool := do
  match (← get).alive? g.entity with
  | none => return false
  | some e =>
    let r ← Entity.set e g.prop value
    let refusal := match r with
      | .ok () => none
      | .error why => some why
    Dispatch.call (.script name .every g.reaction) (.applied refusal)
    return true

/-- Ends a guarded task: with a value, or by breaking it off, which a crash does too. -/
def finish [Dispatch] (name : String) (value : Value) (aborted : Bool) : Act Reply := do
  let w ← get
  withThing (w.session.spawned.get? name) .task fun g ↦ do
    modify (·.modifySession fun s ↦ { s with spawned := s.spawned.erase name })
    if aborted then return .aborted true
    match ← (conclude name g value).caught with
    | some applied => return .bool applied
    | none => return .aborted false

def unsubscribe (name : String) : Act Reply := do
  match (← get).session.subscriptions.get? name with
  | none => return .bool false
  | some sub =>
    modify fun w ↦ (w.unsubscribe sub).dropSubscriptionName name
    return .bool true

def capture (handle : Option String) (withFocus : Bool) : Act Reply := do
  let w ← get
  let snapshot := w.capture w.session.current withFocus
  handle.forM fun name ↦ modify (·.nameSnapshot name snapshot)
  return .captured snapshot

/-- The snapshot a step restores; one that was never captured is empty. -/
def sourceSnapshot (w : World) : SnapshotSource → Except Damage Snapshot
  | .given snapshot => .ok snapshot
  | .captured name => .ok (w.session.snapshots.getD name ⟨[], [], []⟩)
  | .bytes content => Packed.read (.ofList content)

def restore [Dispatch] (source : SnapshotSource) (withFocus : Bool) : Act Reply := do
  match sourceSnapshot (← get) source with
  | .error why => return .fault (.damaged why)
  | .ok snapshot =>
    return .ofExcept (fun _ ↦ .restored)
      (← snapshot.restore (← get).session.current withFocus)

/-- Puts a new debug state over the session's schema in place of the present one. -/
def reset : Act Reply := do
  modify fun w ↦
    let (id, w) := w.addState w.session.schema
    w.modifySession fun s ↦ { s with current := id }
  return .nothing

end Session

end LiveGraph
