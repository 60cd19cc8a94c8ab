import Std.Data.TreeMap

/-!
# Schemas

The names patterns and the focus understand on top of the bare graph: collections, relations, the
roles of the focus, outermost first, and the axes along which anchors move.
-/

namespace LiveGraph

/-- From the source of an edge to its target, or back. -/
inductive Direction
  | outgoing
  | incoming
  deriving DecidableEq, Repr

/-- A named step along the edges of one type. A transitive one goes on until it meets an entity of
the wanted type, or through everything if no type is given. -/
structure Relation where
  edge : String
  direction : Direction
  kind : Option String
  transitive : Bool
  deriving DecidableEq, Repr

/-- The relation to a common container and the one from it to its members, in order. -/
structure Axis where
  container : String
  members : String
  deriving DecidableEq, Repr

structure Schema where
  parentEdge : String
  roles : List String
  collections : Std.TreeMap String String
  relations : Std.TreeMap String Relation
  axes : Std.TreeMap String Axis
  deriving Inhabited

namespace Schema

def parentKind : String := "parent"

def sourceKind : String := "source"

/-- The number of steps after which a walk along a relation or to the ancestors ends. -/
def maxSteps : Nat := 64

def children (kind : String) : Relation :=
  ⟨parentKind, .incoming, some kind, false⟩

def nearest (kind : String) : Relation :=
  ⟨parentKind, .outgoing, some kind, true⟩

/-- The debugger's own schema: sessions hold threads, threads frames, frames scopes, scopes
variables, all by edges from child to parent; breakpoints point at sources. -/
def debugger : Schema where
  parentEdge := parentKind
  roles := ["session", "thread", "frame", "scope", "variable"]
  collections := .ofList [("sessions", "session"), ("threads", "thread"), ("frames", "frame"),
    ("scopes", "scope"), ("variables", "variable"), ("sources", "source"),
    ("breakpoints", "breakpoint"), ("outputs", "output")]
  relations := .ofList [("threads", children "thread"), ("frames", children "frame"),
    ("stack", children "frame"), ("scopes", children "scope"), ("variables", children "variable"),
    ("sessions", children "session"), ("outputs", children "output"),
    ("children", ⟨parentKind, .incoming, none, false⟩),
    ("parent", ⟨parentKind, .outgoing, none, false⟩),
    ("ancestors", ⟨parentKind, .outgoing, none, true⟩),
    ("session", nearest "session"), ("thread", nearest "thread"), ("frame", nearest "frame"),
    ("scope", nearest "scope"), ("source", ⟨sourceKind, .outgoing, none, false⟩),
    ("breakpoints", ⟨sourceKind, .incoming, some "breakpoint", false⟩)]
  axes := .ofList [("frame", Axis.mk "thread" "frames"),
    ("thread", Axis.mk "session" "threads")]

/-- The entity type a collection name stands for; an unknown name is a type itself. -/
def collectionKind (schema : Schema) (name : String) : String :=
  schema.collections.getD name name

/-- The place of a role in the hierarchy, 0 being outermost. -/
def roleDepth (schema : Schema) (role : String) : Option Nat :=
  schema.roles.findIdx? (· = role)

/-- The role entities of a type fill, if any. -/
def roleOf (schema : Schema) (kind : String) : Option String :=
  (schema.roleDepth kind).map fun _ ↦ kind

end Schema

end LiveGraph
