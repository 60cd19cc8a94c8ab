import LiveGraph.Json.Basic
import LiveGraph.Text.Decimal

/-!
# Reading JSON

The strict grammar: no blanks but space, tab and line ends, no bare control characters in texts, no
leading zeros, nothing after the value. Every reader uses up at least one character a level, so the
length of the text bounds the depth of the recursion.
-/

namespace LiveGraph.Json

def isSpace (c : Char) : Bool :=
  c = ' ' || c = '\n' || c = '\t' || c = '\r'

def skip (text : List Char) : List Char :=
  text.dropWhile isSpace

def hexValue? (c : Char) : Option Nat :=
  if '0' ≤ c ∧ c ≤ '9' then some (c.toNat - '0'.toNat)
  else if 'a' ≤ c ∧ c ≤ 'f' then some (c.toNat - 'a'.toNat + 10)
  else if 'A' ≤ c ∧ c ≤ 'F' then some (c.toNat - 'A'.toNat + 10)
  else none

/-- Four hexadecimal digits and what follows them. -/
def unit? : List Char → Option (Nat × List Char)
  | a :: b :: c :: d :: rest => do
    let n := 4096 * (← hexValue? a) + 256 * (← hexValue? b) + 16 * (← hexValue? c)
      + (← hexValue? d)
    return (n, rest)
  | _ => none

def isHighHalf (n : Nat) : Bool :=
  0xd800 ≤ n && n < 0xdc00

def isLowHalf (n : Nat) : Bool :=
  0xdc00 ≤ n && n < 0xe000

/-- The character of two halves. -/
def joinHalves (high low : Nat) : Char :=
  Char.ofNat (0x10000 + 1024 * (high - 0xd800) + (low - 0xdc00))

/-- A numbered character after its letter `u`; nothing for a half without its partner. -/
def numberedChar? (text : List Char) : Option (Option Char × List Char) := do
  let (n, rest) ← unit? text
  if isHighHalf n then
    match rest with
    | '\\' :: 'u' :: more =>
      let (low, after) ← unit? more
      if isLowHalf low then return (some (joinHalves n low), after) else return (none, rest)
    | _ => return (none, rest)
  else if isLowHalf n then return (none, rest)
  else return (some (Char.ofNat n), rest)

def plainEscape? : Char → Option Char
  | '"' => some '"'
  | '\\' => some '\\'
  | '/' => some '/'
  | 'b' => some '\x08'
  | 'f' => some '\x0c'
  | 'n' => some '\n'
  | 'r' => some '\r'
  | 't' => some '\t'
  | _ => none

/-- One character in front of what was already read; a broken text stays broken. -/
def consChar (c : Option Char) : Option (List Char) → Option (List Char)
  | some body => c.map (· :: body)
  | none => none

/-- The rest of a text after its opening quote, as its content, if that is unbroken, and what
follows the closing quote. -/
def textBody? : Nat → List Char → Option (Option (List Char) × List Char)
  | 0, _ => none
  | _ + 1, [] => none
  | _ + 1, '"' :: rest => some (some [], rest)
  | fuel + 1, '\\' :: 'u' :: rest => do
    let (c, after) ← numberedChar? rest
    let (body, last) ← textBody? fuel after
    return (consChar c body, last)
  | fuel + 1, '\\' :: e :: rest => do
    let c ← plainEscape? e
    let (body, last) ← textBody? fuel rest
    return (consChar (some c) body, last)
  | fuel + 1, c :: rest =>
    if c = '\\' ∨ c.toNat < 0x20 then none
    else (textBody? fuel rest).map fun (body, last) ↦ (consChar (some c) body, last)

def ofBody (body : Option (List Char)) : Json :=
  body.elim .brokenStr fun chars ↦ .str (String.ofList chars)

/-- Digits with no zero in front of others, and what follows them. -/
def digits? (text : List Char) : Option (List Char × List Char) :=
  match text with
  | '0' :: rest => if rest.head?.any Text.isDigit then none else some (['0'], rest)
  | _ =>
    let digits := text.takeWhile Text.isDigit
    if digits.isEmpty then none else some (digits, text.dropWhile Text.isDigit)

/-- At least one digit, skipped. -/
def skipDigits? (text : List Char) : Option (List Char) :=
  if text.head?.any Text.isDigit then some (text.dropWhile Text.isDigit) else none

/-- A fraction, if one follows, skipped; with whether one did. -/
def skipFraction? : List Char → Option (Bool × List Char)
  | '.' :: rest => (skipDigits? rest).map (true, ·)
  | text => some (false, text)

/-- An exponent, if one follows, skipped; with whether one did. -/
def skipExponent? : List Char → Option (Bool × List Char)
  | e :: rest =>
    if e = 'e' ∨ e = 'E' then
      match rest with
      | '+' :: more => (skipDigits? more).map (true, ·)
      | '-' :: more => (skipDigits? more).map (true, ·)
      | _ => (skipDigits? rest).map (true, ·)
    else some (false, e :: rest)
  | [] => some (false, [])

/-- Whole numbers of 64 bits, signed or not, are integers; minus zero is not. -/
def ofDigits (negative whole : Bool) (digits : List Char) : Json :=
  let n := Text.natOfDigits digits
  if !whole then .otherNumber
  else if negative then
    if 0 < n ∧ n ≤ 0x8000000000000000 then .int (-(n : Int)) else .otherNumber
  else if n ≤ 0xffffffffffffffff then .int n else .otherNumber

def number? (negative : Bool) (text : List Char) : Option (Json × List Char) := do
  let (digits, afterDigits) ← digits? text
  let (hasFraction, afterFraction) ← skipFraction? afterDigits
  let (hasExponent, after) ← skipExponent? afterFraction
  return (ofDigits negative (!hasFraction && !hasExponent) digits, after)

mutual

/-- The value at the front of a text, blanks before it skipped. -/
def value? : Nat → List Char → Option (Json × List Char)
  | 0, _ => none
  | fuel + 1, text =>
    match skip text with
    | 'n' :: 'u' :: 'l' :: 'l' :: rest => some (.null, rest)
    | 't' :: 'r' :: 'u' :: 'e' :: rest => some (.bool true, rest)
    | 'f' :: 'a' :: 'l' :: 's' :: 'e' :: rest => some (.bool false, rest)
    | '"' :: rest => (textBody? (rest.length + 1) rest).map fun (body, after) ↦ (ofBody body, after)
    | '[' :: rest =>
      match skip rest with
      | ']' :: after => some (.arr [], after)
      | _ => (items? fuel rest).map fun (items, after) ↦ (.arr items, after)
    | '\x7b' :: rest =>
      match skip rest with
      | '\x7d' :: after => some (.obj [], after)
      | _ => (members? fuel rest).map fun (members, after) ↦ (.obj members, after)
    | '-' :: rest => number? true rest
    | other => number? false other

/-- Elements up to the bracket that closes them. -/
def items? : Nat → List Char → Option (List Json × List Char)
  | 0, _ => none
  | fuel + 1, text => do
    let (item, afterItem) ← value? fuel text
    match skip afterItem with
    | ',' :: more =>
      let (items, after) ← items? fuel more
      return (item :: items, after)
    | ']' :: after => return ([item], after)
    | _ => none

/-- Members up to the brace that closes them. -/
def members? : Nat → List Char → Option (List (Option String × Json) × List Char)
  | 0, _ => none
  | fuel + 1, text => do
    let '"' :: rest := skip text | none
    let (name, afterName) ← textBody? (rest.length + 1) rest
    let ':' :: afterColon := skip afterName | none
    let (value, afterValue) ← value? fuel afterColon
    let first := (name.map String.ofList, value)
    match skip afterValue with
    | ',' :: more =>
      let (members, after) ← members? fuel more
      return (first :: members, after)
    | '\x7d' :: after => return ([first], after)
    | _ => none

end

/-- The value a whole text spells. -/
def parse? (text : String) : Option Json :=
  let chars := text.toList
  match value? (chars.length + 1) chars with
  | some (json, rest) => if (skip rest).isEmpty then some json else none
  | none => none

end LiveGraph.Json
