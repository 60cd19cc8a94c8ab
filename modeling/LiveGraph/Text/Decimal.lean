/-!
# Decimal numbers in text

Reading: an optional sign and at least one ASCII digit, nothing else. `int64?` and `boundedNat?`
keep to the bounds of a fixed width.
-/

namespace LiveGraph.Text

def isDigit (c : Char) : Bool :=
  '0' ≤ c && c ≤ '9'

def digitValue (c : Char) : Nat :=
  c.toNat - '0'.toNat

def natOfDigits (digits : List Char) : Nat :=
  digits.foldl (fun n c ↦ 10 * n + digitValue c) 0

/-- A nonempty run of digits. -/
def digits? (text : List Char) : Option Nat :=
  if !text.isEmpty && text.all isDigit then some (natOfDigits text) else none

/-- Digits after an optional sign. -/
def signed? : List Char → Option Int
  | '+' :: rest => (digits? rest).map Int.ofNat
  | '-' :: rest => (digits? rest).map fun n ↦ -(n : Int)
  | text => (digits? text).map Int.ofNat

/-- Digits after an optional plus sign, not above `limit`. -/
def boundedNat? (limit : Nat) (text : String) : Option Nat :=
  let number := match text.toList with
    | '+' :: rest => digits? rest
    | plain => digits? plain
  number.filter (· ≤ limit)

def inInt64 (n : Int) : Bool :=
  -0x8000000000000000 ≤ n && n < 0x8000000000000000

def int64? (text : String) : Option Int64 :=
  ((signed? text.toList).filter inInt64).map Int64.ofInt

end LiveGraph.Text
