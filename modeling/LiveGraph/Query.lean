import LiveGraph.Fault
import LiveGraph.Text.Blank

/-!
# View queries

What a view selects: the entities under one key of an index, or those of a type that satisfy every
predicate, in the order of a sort key. Predicates can also be read from clauses such as `line>=3`.
-/

namespace LiveGraph

inductive CompareOp
  | eq
  | ne
  | lt
  | le
  | gt
  | ge
  deriving DecidableEq, Repr

namespace CompareOp

def symbol : CompareOp → String
  | eq => "="
  | ne => "!="
  | lt => "<"
  | le => "<="
  | gt => ">"
  | ge => ">="

def holds (op : CompareOp) (actual wanted : Value) : Bool :=
  match op, compare actual wanted with
  | eq, o => o == .eq
  | ne, o => o != .eq
  | lt, o => o == .lt
  | le, o => o != .gt
  | gt, o => o == .gt
  | ge, o => o != .lt

end CompareOp

structure Predicate where
  field : String
  op : CompareOp
  value : Value
  deriving DecidableEq, Repr

structure SortKey where
  field : String
  descending : Bool
  deriving DecidableEq, Repr

inductive Query
  | index (name : String) (key : Value)
  | filter (kind : String) (predicates : List Predicate) (sort : Option SortKey)
  deriving DecidableEq, Repr

/-- Where a view's window starts and how long it may be. -/
structure Window where
  offset : Nat
  limit : Nat
  deriving DecidableEq, Repr

namespace Predicate

/-- The field before the earliest operator, the operator, the longer one where two start together,
and the text after it. -/
def splitClause? : List Char → Option (List Char × CompareOp × List Char)
  | [] => none
  | '!' :: '=' :: rest => some ([], .ne, rest)
  | '<' :: '=' :: rest => some ([], .le, rest)
  | '>' :: '=' :: rest => some ([], .ge, rest)
  | '=' :: rest => some ([], .eq, rest)
  | '<' :: rest => some ([], .lt, rest)
  | '>' :: rest => some ([], .gt, rest)
  | c :: rest => (splitClause? rest).map fun (field, op, text) ↦ (c :: field, op, text)

/-- Truth values and integers keep their type; anything else is a text. -/
def literal (text : String) : Value :=
  if text = "true" then .bool true
  else if text = "false" then .bool false
  else ((Text.int64? text).map Value.int).getD (.str text)

def ofClause? (clause : String) : Except ParseFault Predicate :=
  match splitClause? clause.toList with
  | some (field, op, text) =>
    if (Text.trim field).isEmpty then .error (.unexpectedToken 0 clause .clause)
    else .ok ⟨String.ofList (Text.trim field), op, literal (String.ofList (Text.trim text))⟩
  | none => .error (.unexpectedToken 0 clause .clause)

end Predicate

end LiveGraph
