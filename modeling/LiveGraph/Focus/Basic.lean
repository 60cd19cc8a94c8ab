import LiveGraph.Relation
import LiveGraph.Reactive.Signal

/-!
# Focus

One entity of interest per role, globally and for scopes that have their own. To focus an entity
moves the roles above it along its parents and clears those below that no longer lead to it. A scope
that has focused something owns that role and all below it; the rest it sees as all others do.
-/

namespace LiveGraph

/-- Roles with the signals that hold what is focused. -/
abbrev Roles := Std.TreeMap String SignalId

namespace World

/-- Unset signals for the roles of a schema. -/
def addRoles (w : World) (owner : Owner) : List String → Roles × World
  | [] => (∅, w)
  | role :: rest =>
    let (id, w) := w.addSignal .nil .same owner
    let (roles, w) := w.addRoles owner rest
    (roles.insertIfNew role id, w)

/-- What a role of a set of roles holds. -/
def focusedIn (w : World) (roles : Roles) (role : String) : Option Uri :=
  (roles.get? role).bind fun id ↦ (w.valueOf id).asStr?

/-- The globally focused entities, outermost role first. -/
def focused (w : World) (id : StateId) : List Uri :=
  (w.state id).schema.roles.filterMap (w.focusedIn (w.state id).roles)

/-- Gives a scope roles of its own, all unset. -/
def scopeRoles (w : World) (id : StateId) (scope : String) : Override × World :=
  let (roles, w) := w.addRoles (.state id) (w.state id).schema.roles
  let (ownedFrom, w) := w.addSignal .nil .same (.state id)
  let own : Override := ⟨roles, ownedFrom⟩
  (own, w.modifyState id fun s ↦ { s with overrides := s.overrides.insert scope own })

end World

namespace Focus

/-- Sets or clears a role; a role that is not there stays so. -/
def write [Dispatch] (roles : Roles) (role : String) (uri : Option Uri) : Act Unit := do
  match roles.get? role with
  | none => pure ()
  | some id =>
    let _ ← Signal.set id (.ofUri? uri)

/-- Moves the roles above a depth along a chain of parents; the outermost parent of a role is
written last. -/
def writeAbove [Dispatch] (schema : Schema) (roles : Roles) (depth : Nat) :
    List EntityRef → Act Unit
  | [] => pure ()
  | e :: rest => do
    let w ← get
    let kind := w.kindOf e
    if (schema.roleDepth kind).any (· < depth) then write roles kind (some (w.uriOf e))
    writeAbove schema roles depth rest

/-- Whether the parents of what is at a URI lead to an entity. -/
def leadsTo (schema : Schema) (e : EntityRef) (uri : Uri) : Reads Bool := do
  match ← Store.lookup e.store uri with
  | none => return false
  | some below => return (← schema.ancestors e.store below).contains e

/-- Clears the roles that hold something not below an entity. -/
def clearBelow [Dispatch] (schema : Schema) (roles : Roles) (e : EntityRef) :
    List String → Act Unit
  | [] => pure ()
  | role :: rest => do
    let w ← get
    match w.focusedIn roles role with
    | none => pure ()
    | some uri => if !(leadsTo schema e uri).value w then write roles role none
    clearBelow schema roles e rest

/-- Focuses what is at a URI in a set of roles; gives the depth of its role, or nothing if it is not
there or fills no role. -/
def apply [Dispatch] (id : StateId) (roles : Roles) (uri : Uri) : Act (Option Nat) := do
  let w ← get
  let { store, schema, .. } := w.state id
  match w.find? store uri with
  | none => return none
  | some e =>
    match schema.roleDepth (w.kindOf e) with
    | none => return none
    | some depth =>
      let ancestors := (schema.ancestors store e).value w
      batch do
        write roles (w.kindOf e) (some uri)
        writeAbove schema roles depth ancestors
        clearBelow schema roles e (schema.roles.drop (depth + 1))
      return some depth

/-- Focuses what is at a URI for all. -/
def focus [Dispatch] (id : StateId) (uri : Uri) : Act Bool := do
  return (← apply id ((← get).state id).roles uri).isSome

/-- The roles of a scope, which are made when they are first asked for. -/
def override [Dispatch] (id : StateId) (scope : String) : Act Override := do
  match ((← get).state id).overrides.get? scope with
  | some own => return own
  | none =>
    let own ← modifyGet (·.scopeRoles id scope)
    Signal.advance ((← get).state id).scopes
    return own

/-- Makes a scope own the roles from a depth on, unless it owns them already. -/
def claim [Dispatch] (own : Override) (depth : Nat) : Act Unit := do
  let owned := ((← get).valueOf own.ownedFrom).asInt?
  let owner := owned.elim depth fun i ↦ min i.toInt.toNat depth
  let _ ← Signal.set own.ownedFrom (.int (Int64.ofNat owner))

/-- Focuses what is at a URI for one scope. -/
def focusIn [Dispatch] (id : StateId) (scope : String) (uri : Uri) : Act Bool := do
  let own ← override id scope
  batch do
    match ← apply id own.roles uri with
    | none => return false
    | some depth =>
      claim own depth
      return true

/-- Clears a role for all. -/
def unfocus [Dispatch] (id : StateId) (role : String) : Act Unit := do
  write ((← get).state id).roles role none

def clearAll [Dispatch] (roles : Roles) : List String → Act Unit
  | [] => pure ()
  | role :: rest => do
    write roles role none
    clearAll roles rest

/-- Clears all roles of a scope, which owns nothing from then on. -/
def clearScope [Dispatch] (id : StateId) (scope : String) : Act Unit := do
  match ((← get).state id).overrides.get? scope with
  | none => pure ()
  | some own =>
    batch do
      clearAll own.roles own.roles.keys
      let _ ← Signal.set own.ownedFrom .nil

/-- Clears the roles that hold a URI. -/
def forgetIn [Dispatch] (uri : Uri) (roles : Roles) : List String → Act Unit
  | [] => pure ()
  | role :: rest => do
    if (← get).focusedIn roles role = some uri then write roles role none
    forgetIn uri roles rest

def forgetInAll [Dispatch] (uri : Uri) : List Roles → Act Unit
  | [] => pure ()
  | roles :: rest => do
    forgetIn uri roles roles.keys
    forgetInAll uri rest

/-- Clears every role, of all and of each scope, that holds a removed entity. -/
def forget [Dispatch] (id : StateId) (uri : Uri) : Act Unit := do
  let s := (← get).state id
  batch (forgetInAll uri (s.roles :: s.overrides.values.map (·.roles)))

/-- What a role holds for all; the read is recorded. -/
def readIn (roles : Roles) (role : String) : Reads (Option Uri) :=
  match roles.get? role with
  | none => pure none
  | some id => return (← Reads.signal id).asStr?

/-- Whether a scope owns what is at a depth. -/
def owns (own : Override) (depth : Option Nat) : Reads Bool := do
  let owned ← Reads.signal own.ownedFrom
  match owned.asInt?, depth with
  | some owner, some depth => return owner.toInt.toNat ≤ depth
  | _, _ => return false

/-- What a role holds for a scope, which is what it holds for all where the scope has nothing and
owns nothing. -/
def read (id : StateId) (scope : Option String) (role : String) : Reads (Option Uri) := do
  let s ← Reads.peek (·.state id)
  match scope with
  | none => readIn s.roles role
  | some scope =>
    let _ ← Reads.signal s.scopes
    match s.overrides.get? scope with
    | none => readIn s.roles role
    | some own =>
      match ← readIn own.roles role with
      | some uri => return some uri
      | none =>
        if ← owns own (s.schema.roleDepth role) then return none
        else readIn s.roles role

/-- The entity a role holds for a scope, if it is there. -/
def readEntity (id : StateId) (scope : Option String) (role : String) :
    Reads (Option EntityRef) := do
  match ← read id scope role with
  | none => return none
  | some uri => Store.lookup (← Reads.peek (·.state id)).store uri

end Focus

end LiveGraph
