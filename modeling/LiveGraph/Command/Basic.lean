import LiveGraph.Breakpoint.Location

/-!
# Commands

What can be asked of a snapshot file from a command line, with the settings that go with any
command.
-/

namespace LiveGraph

inductive Command
  /-- Shows what a pattern resolves to: the one entity, or all. -/
  | resolve (pattern : String) (all : Bool)
  /-- Shows the canonical form of a pattern. -/
  | parse (pattern : String)
  /-- Shows a window over the entities of a type that satisfy every clause. -/
  | view (kind : String) (clauses : List String) (sort : Option String) (descending : Bool)
      (offset : Nat) (limit : Option Nat)
  /-- Shows how many entities and edges there are. -/
  | stats
  /-- Focuses an entity and saves. -/
  | focus (uri : String)
  /-- Toggles a breakpoint and saves. -/
  | toggle (location : Location)
  /-- Saves under another name, in the encoding of that name. -/
  | convert (output : String)
  deriving DecidableEq, Inhabited, Repr

/-- A command with its settings. -/
structure Invocation where
  snapshot : String
  config : Option String
  scope : Option String
  asJson : Bool
  command : Command
  deriving DecidableEq, Inhabited, Repr

/-- Why arguments are not taken for an invocation; help and version are asked for, not wrong. -/
inductive UsageFault
  | unknownCommand
  | unknownArgument
  | missingArgument
  | missingValue
  | badValue
  | unneededValue
  | repeated
  | help
  | version
  deriving DecidableEq, Repr

end LiveGraph
