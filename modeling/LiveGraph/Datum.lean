import LiveGraph.Fault

/-!
# Data of derived values

What a derived value can hold: a property value, a list, or the fault met while computing it. An
equality decides which changes count as changes.
-/

namespace LiveGraph

inductive Datum
  | value (v : Value)
  | list (items : List Datum)
  | fault (why : Fault)
  deriving Inhabited, Repr

namespace Datum

mutual

def decEq : (a b : Datum) → Decidable (a = b)
  | .value v, .value w => if h : v = w then .isTrue (h ▸ rfl) else .isFalse (by simp [h])
  | .fault f, .fault g => if h : f = g then .isTrue (h ▸ rfl) else .isFalse (by simp [h])
  | .list xs, .list ys =>
    match decEqList xs ys with
    | .isTrue h => .isTrue (h ▸ rfl)
    | .isFalse h => .isFalse (by simp [h])
  | .value _, .list _ => .isFalse (by simp)
  | .value _, .fault _ => .isFalse (by simp)
  | .list _, .value _ => .isFalse (by simp)
  | .list _, .fault _ => .isFalse (by simp)
  | .fault _, .value _ => .isFalse (by simp)
  | .fault _, .list _ => .isFalse (by simp)

def decEqList : (xs ys : List Datum) → Decidable (xs = ys)
  | [], [] => .isTrue rfl
  | [], _ :: _ => .isFalse (by simp)
  | _ :: _, [] => .isFalse (by simp)
  | x :: xs, y :: ys =>
    match decEq x y, decEqList xs ys with
    | .isTrue h, .isTrue t => .isTrue (by rw [h, t])
    | .isFalse h, _ => .isFalse (by simp [h])
    | _, .isFalse t => .isFalse (by simp [t])

end

instance : DecidableEq Datum := decEq

def nil : Datum := .value .nil

def bool (b : Bool) : Datum := .value (.bool b)

def ofNat (n : Nat) : Datum := .value (.int (Int64.ofNat n))

def ofUri? (uri : Option Uri) : Datum := .value (.ofUri? uri)

def ofUris (uris : List Uri) : Datum := .list (uris.map fun uri ↦ .value (.str uri))

/-- The integer a datum stands for in sums and products; anything else counts as zero. -/
def toInt : Datum → Int64
  | .value (.int i) => i
  | _ => 0

/-- False are the unset value, false, zero, the empty text and the empty list. -/
def isTrue : Datum → Bool
  | .value .nil => false
  | .value (.bool b) => b
  | .value (.int i) => i ≠ 0
  | .value (.str s) => s ≠ ""
  | .list items => !items.isEmpty
  | .fault _ => true

def length : Datum → Nat
  | .list items => items.length
  | _ => 0

end Datum

/-- Which values count as unchanged: equal ones, none, all, or integers within the same ten. -/
inductive Equality
  | same
  | never
  | always
  | tens
  deriving DecidableEq, Inhabited, Repr

namespace Equality

def holds (equality : Equality) (a b : Datum) : Bool :=
  match equality, a, b with
  | .same, a, b => a = b
  | .never, _, _ => false
  | .always, _, _ => true
  | .tens, .value (.int i), .value (.int j) => i.toInt.fdiv 10 = j.toInt.fdiv 10
  | .tens, a, b => a = b

end Equality

end LiveGraph
