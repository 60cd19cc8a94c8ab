import LiveGraph.Text.Decimal

/-!
# Property values

A property is unset, a truth value, a 64-bit integer or a text. Values are ordered by their form
first and their content second.
-/

namespace LiveGraph

/-- The stable identity of an entity. -/
abbrev Uri := String

inductive Value
  | nil
  | bool (b : Bool)
  | int (i : Int64)
  | str (s : String)
  deriving DecidableEq, Ord, Inhabited, Repr

namespace Value

def isNil : Value → Bool
  | nil => true
  | _ => false

def asBool? : Value → Option Bool
  | bool b => some b
  | _ => none

def asInt? : Value → Option Int64
  | int i => some i
  | _ => none

def asStr? : Value → Option String
  | str s => some s
  | _ => none

/-- The text shown for a value. -/
def display : Value → String
  | nil => "nil"
  | bool true => "true"
  | bool false => "false"
  | int i => toString i.toInt
  | str s => s

def ofUri? : Option Uri → Value
  | none => nil
  | some uri => str uri

/-- Whether a value is meant by the literal of a filter: texts verbatim, the rest by reading. -/
def matchesText (text : String) : Value → Bool
  | nil => text = "nil"
  | bool true => text = "true"
  | bool false => text = "false"
  | int i => Text.int64? text = some i
  | str s => s = text

end Value

end LiveGraph
