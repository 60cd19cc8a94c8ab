import LiveGraph.Script.Formula
import LiveGraph.Text.Quoted

/-!
# Descriptions

How a session shows its things in words: the name of a form, then its parts, each under its name.
-/

namespace LiveGraph

namespace Description

def record (name : String) (parts : List (String × String)) : String :=
  name ++ " \x7b " ++ ", ".intercalate (parts.map fun (part, text) ↦ part ++ ": " ++ text)
    ++ " \x7d"

def list (texts : List String) : String :=
  "[" ++ ", ".intercalate texts ++ "]"

def wrapped (name text : String) : String :=
  name ++ "(" ++ text ++ ")"

def bool (b : Bool) : String :=
  if b then "true" else "false"

def uri (uri : Uri) : String :=
  wrapped "Uri" (Text.quoted uri)

def value : Value → String
  | .nil => "Nil"
  | .bool b => wrapped "Bool" (bool b)
  | .int i => wrapped "Int" (toString i.toInt)
  | .str s => wrapped "Str" (Text.quoted s)

def compareOp : CompareOp → String
  | .eq => "Eq"
  | .ne => "Ne"
  | .lt => "Lt"
  | .le => "Le"
  | .gt => "Gt"
  | .ge => "Ge"

def predicate (p : Predicate) : String :=
  record "Predicate"
    [("field", Text.quoted p.field), ("op", compareOp p.op), ("value", value p.value)]

def sortKey (k : SortKey) : String :=
  record "SortKey" [("field", Text.quoted k.field), ("descending", bool k.descending)]

def query : Query → String
  | .index name key => record "Index" [("index", Text.quoted name), ("key", value key)]
  | .filter kind predicates sort =>
    record "Filter"
      [("kind", Text.quoted kind), ("predicates", list (predicates.map predicate)),
        ("sort", sort.elim "None" fun k ↦ wrapped "Some" (sortKey k))]

def view (v : View) : String :=
  record "View"
    [("query", query v.query), ("offset", toString v.offset), ("limit", toString v.limit),
      ("total", toString v.rows.length), ("disposed", bool v.disposed)]

def store (s : Store) : String :=
  record "Store"
    [("entities", toString s.live.size), ("edges", toString s.edges.count),
      ("indices", list (s.indices.keys.map Text.quoted))]

def focus (w : World) (id : StateId) : String :=
  record "Focus"
    [("focused", list ((w.focused id).map uri)),
      ("scopes", list ((w.state id).overrides.keys.map Text.quoted))]

def locks (m : KeyedMutex) : String :=
  record "KeyedMutex" [("active_keys", toString m.activeKeys)]

def breakpoints (s : State) : String :=
  record "Breakpoints" [("locks", locks s.locks), ("issued", toString s.issued)]

def liveness (l : Liveness) : String :=
  record "Liveness" [("uri", uri l.uri), ("seq", toString l.serial)]

def guard (key : String) : String :=
  record "KeyGuard" [("key", Text.quoted key)]

def subscription (s : Subscription) : String :=
  record "Subscription" [("registered", bool s.isSome)]

def entity (e : Entity) : String :=
  record "Entity"
    [("uri", uri e.uri), ("kind", Text.quoted e.kind), ("live", bool e.live)] ++ " " ++ e.uri

end Description

namespace World

/-- The entity a step is about. -/
def target? (w : World) : Target → Option EntityRef
  | .handle name => w.session.entities.get? name
  | .uri uri => w.find? w.currentStore uri

/-- The description of a thing; nothing is said of what is not there. -/
def describe (w : World) : Subject → String
  | .store => Description.store (w.store w.currentStore)
  | .focus => Description.focus w w.session.current
  | .breakpoints => Description.breakpoints w.current
  | .locks => Description.locks w.session.locks
  | .view name => (w.session.views.get? name).elim "" fun id ↦ Description.view (w.view id)
  | .token name => (w.session.tokens.get? name).elim "" Description.liveness
  | .guard task => (w.session.guards.get? task).elim "" fun (key, _) ↦ Description.guard key
  | .subscription name => (w.session.subscriptions.get? name).elim "" Description.subscription
  | .entity target => (w.target? target).elim "" fun e ↦ Description.entity (w.entity e)

end World

end LiveGraph
