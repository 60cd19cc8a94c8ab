import Std.Data.TreeMap
import LiveGraph.Record

/-!
# Adjacency

The edges of a graph as two tables of ordered lists, one from sources to targets and one back. An
edge stands in both, at the same end where it was put, and no list is kept that holds nothing.
-/

namespace LiveGraph

/-- Neighbours by entity and edge type. -/
abbrev Neighbours := Std.TreeMap Uri (Std.TreeMap String (List Uri))

namespace Neighbours

def list (m : Neighbours) (uri : Uri) (kind : String) : List Uri :=
  (m.getD uri ∅).getD kind []

def put (m : Neighbours) (uri : Uri) (kind : String) (neighbours : List Uri) : Neighbours :=
  let kinds := m.getD uri ∅
  let kinds := if neighbours.isEmpty then kinds.erase kind else kinds.insert kind neighbours
  if kinds.isEmpty then m.erase uri else m.insert uri kinds

def drop (m : Neighbours) (uri : Uri) (kind : String) (neighbour : Uri) : Neighbours :=
  m.put uri kind ((m.list uri kind).erase neighbour)

/-- The neighbours of one entity with their edge types, by type and position. -/
def around (m : Neighbours) (uri : Uri) : List (String × Uri) :=
  (m.getD uri ∅).toList.flatMap fun (kind, neighbours) ↦ neighbours.map (kind, ·)

end Neighbours

structure Adjacency where
  outgoing : Neighbours
  incoming : Neighbours
  count : Nat
  deriving Inhabited

namespace Adjacency

def empty : Adjacency := ⟨∅, ∅, 0⟩

def targets (a : Adjacency) (uri : Uri) (kind : String) : List Uri :=
  a.outgoing.list uri kind

def sources (a : Adjacency) (uri : Uri) (kind : String) : List Uri :=
  a.incoming.list uri kind

def contains (a : Adjacency) (e : Edge) : Bool :=
  (a.targets e.source e.kind).contains e.target

/-- One more neighbour, at the front or at the end. -/
def extend (atFront : Bool) (uri : Uri) (neighbours : List Uri) : List Uri :=
  if atFront then uri :: neighbours else neighbours ++ [uri]

/-- The adjacency with an edge that was not there; nothing if it was. -/
def insert? (a : Adjacency) (e : Edge) (atFront : Bool) : Option Adjacency :=
  if a.contains e then none
  else some
    { outgoing := a.outgoing.put e.source e.kind
        (extend atFront e.target (a.targets e.source e.kind))
      incoming := a.incoming.put e.target e.kind
        (extend atFront e.source (a.sources e.target e.kind))
      count := a.count + 1 }

/-- The adjacency without an edge that was there; nothing if it was not. -/
def remove? (a : Adjacency) (e : Edge) : Option Adjacency :=
  if a.contains e then
    some
      { outgoing := a.outgoing.drop e.source e.kind e.target
        incoming := a.incoming.drop e.target e.kind e.source
        count := a.count - 1 }
  else none

/-- All edges, by target and type, each incoming list in its order. -/
def edges (a : Adjacency) : List Edge :=
  a.incoming.toList.flatMap fun (target, kinds) ↦
    kinds.toList.flatMap fun (kind, sources) ↦ sources.map fun source ↦ ⟨kind, source, target⟩

/-- Takes away all edges of an entity: the outgoing ones by type and position, then the incoming
ones; one from the entity to itself goes with the outgoing. -/
def detach (a : Adjacency) (uri : Uri) : List Edge × Adjacency :=
  let out := a.outgoing.around uri
  let incoming := out.foldl (fun m (kind, target) ↦ Neighbours.drop m target kind uri) a.incoming
  let back := Neighbours.around incoming uri
  let outgoing := back.foldl (fun m (kind, source) ↦ Neighbours.drop m source kind uri)
    (a.outgoing.erase uri)
  let removed := out.map (fun (kind, target) ↦ ⟨kind, uri, target⟩)
    ++ back.map fun (kind, source) ↦ ⟨kind, source, uri⟩
  (removed, ⟨outgoing, incoming.erase uri, a.count - removed.length⟩)

end Adjacency

end LiveGraph
