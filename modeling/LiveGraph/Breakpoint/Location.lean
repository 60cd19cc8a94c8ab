import LiveGraph.Value

/-!
# Breakpoint locations

A place in a source file, 1-based, with or without a column.
-/

namespace LiveGraph

structure Location where
  path : String
  line : Nat
  column : Option Nat
  deriving DecidableEq, Inhabited, Repr

namespace Location

def display (l : Location) : String :=
  l.path ++ ":" ++ toString l.line ++ l.column.elim "" fun column ↦ ":" ++ toString column

end Location

end LiveGraph
