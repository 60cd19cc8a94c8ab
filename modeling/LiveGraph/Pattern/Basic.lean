import LiveGraph.Value

/-!
# Query patterns

A pattern is a root and suffixes applied to it from left to right. Whether it names at most one
entity is decided by its form alone.
-/

namespace LiveGraph

inductive MatchOp
  | eq
  | ne
  deriving DecidableEq, Repr

/-- A field compared with the text of a literal. -/
structure Condition where
  field : String
  op : MatchOp
  value : String
  deriving DecidableEq, Repr

/-- Where evaluation starts: all entities of a type, a focused entity moved along its axis, or one
named entity. -/
inductive Root
  | collection (name : String)
  | anchor (role : String) (offset : Int64)
  | uri (uri : Uri)
  deriving DecidableEq, Repr

inductive Suffix
  | relation (name : String)
  | filter (conditions : List Condition)
  | index (n : Nat)
  deriving DecidableEq, Repr

structure Pattern where
  root : Root
  suffixes : List Suffix
  deriving DecidableEq, Repr

def Root.isSingle : Root → Bool
  | .collection _ => false
  | .anchor _ _ => true
  | .uri _ => true

def Suffix.isSingle (before : Bool) : Suffix → Bool
  | .relation _ => false
  | .filter _ => before
  | .index _ => true

/-- An index makes a pattern single, a relation step undoes it, a filter keeps what was. -/
def Pattern.isSingle (p : Pattern) : Bool :=
  p.suffixes.foldl Suffix.isSingle p.root.isSingle

end LiveGraph
