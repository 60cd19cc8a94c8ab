import LiveGraph.Text.Decimal
import LiveGraph.Toml.Basic

/-!
# Reading TOML

Comments, basic and literal texts on one line or several, integers, truth values, arrays, tables in
braces, dotted and quoted keys and table headers. Fractional numbers are recognised only so that
they can be told from errors.
-/

namespace LiveGraph.Toml

def isGap (c : Char) : Bool :=
  c = ' ' || c = '\t'

def skipGap (text : List Char) : List Char :=
  text.dropWhile isGap

/-- Control characters, tab apart, stand nowhere in a document. -/
def isControl (c : Char) : Bool :=
  (c.toNat < 0x20 && c != '\t') || c.toNat = 0x7f

def newLine? : List Char → Option (List Char)
  | '\n' :: rest => some rest
  | '\r' :: '\n' :: rest => some rest
  | _ => none

/-- A comment up to the end of its line. -/
def skipComment : List Char → List Char
  | '#' :: rest => rest.dropWhile fun c ↦ !isControl c
  | text => text

/-- Blanks, comments and line ends. -/
def skipLines : Nat → List Char → List Char
  | 0, text => text
  | fuel + 1, text =>
    let rest := skipComment (skipGap text)
    match newLine? rest with
    | some more => skipLines fuel more
    | none => rest

def hexValue? (c : Char) : Option Nat :=
  if '0' ≤ c ∧ c ≤ '9' then some (c.toNat - '0'.toNat)
  else if 'a' ≤ c ∧ c ≤ 'f' then some (c.toNat - 'a'.toNat + 10)
  else if 'A' ≤ c ∧ c ≤ 'F' then some (c.toNat - 'A'.toNat + 10)
  else none

/-- The character with the given number, written in exactly `width` hexadecimal digits. -/
def numberedChar? (width : Nat) (text : List Char) : Option (Char × List Char) := do
  let digits ← (text.take width).mapM hexValue?
  if digits.length < width then none
  let n := digits.foldl (fun n d ↦ 16 * n + d) 0
  if n.isValidChar then return (Char.ofNat n, text.drop width) else none

def escape? : List Char → Option (Char × List Char)
  | 'b' :: rest => some ('\x08', rest)
  | 't' :: rest => some ('\t', rest)
  | 'n' :: rest => some ('\n', rest)
  | 'f' :: rest => some ('\x0c', rest)
  | 'r' :: rest => some ('\r', rest)
  | 'e' :: rest => some ('\x1b', rest)
  | '"' :: rest => some ('"', rest)
  | '\\' :: rest => some ('\\', rest)
  | 'x' :: rest => numberedChar? 2 rest
  | 'u' :: rest => numberedChar? 4 rest
  | 'U' :: rest => numberedChar? 8 rest
  | _ => none

/-- A basic text on one line, after its opening quote. -/
def basic? : Nat → List Char → Option (List Char × List Char)
  | 0, _ => none
  | _ + 1, [] => none
  | _ + 1, '"' :: rest => some ([], rest)
  | fuel + 1, '\\' :: rest => do
    let (c, after) ← escape? rest
    let (body, last) ← basic? fuel after
    return (c :: body, last)
  | fuel + 1, c :: rest =>
    if isControl c then none
    else (basic? fuel rest).map fun (body, last) ↦ (c :: body, last)

def literal? : List Char → Option (List Char × List Char)
  | [] => none
  | '\'' :: rest => some ([], rest)
  | c :: rest =>
    if isControl c then none
    else (literal? rest).map fun (body, last) ↦ (c :: body, last)

/-- The quotes that may stand before the three that close a text of several lines. -/
def closing? (quote : Char) (text : List Char) : Option (List Char × List Char) :=
  let run := text.takeWhile (· = quote)
  if 3 ≤ run.length ∧ run.length ≤ 5 then
    some (run.drop 3, text.drop run.length)
  else none

/-- A literal text of several lines, after its opening quotes. -/
def literalLines? : Nat → List Char → Option (List Char × List Char)
  | 0, _ => none
  | _ + 1, [] => none
  | fuel + 1, c :: rest =>
    match closing? '\'' (c :: rest), newLine? (c :: rest) with
    | some closed, _ => some closed
    | none, some after => (literalLines? fuel after).map fun (body, last) ↦ ('\n' :: body, last)
    | none, none =>
      if isControl c then none
      else (literalLines? fuel rest).map fun (body, last) ↦ (c :: body, last)

/-- A backslash at the end of a line joins it with the next text. -/
def joined? (text : List Char) : Option (List Char) :=
  (newLine? (skipGap text)).map
    fun more ↦ more.dropWhile fun c ↦ isGap c || c = '\n' || c = '\r'

/-- A basic text of several lines, after its opening quotes. -/
def basicLines? : Nat → List Char → Option (List Char × List Char)
  | 0, _ => none
  | _ + 1, [] => none
  | fuel + 1, '\\' :: rest =>
    match joined? rest with
    | some after => basicLines? fuel after
    | none => do
      let (c, after) ← escape? rest
      let (body, last) ← basicLines? fuel after
      return (c :: body, last)
  | fuel + 1, c :: rest =>
    match closing? '"' (c :: rest), newLine? (c :: rest) with
    | some closed, _ => some closed
    | none, some after => (basicLines? fuel after).map fun (body, last) ↦ ('\n' :: body, last)
    | none, none =>
      if isControl c then none
      else (basicLines? fuel rest).map fun (body, last) ↦ (c :: body, last)

/-- The line end right after the opening quotes is no part of the text. -/
def dropFirstLine (text : List Char) : List Char :=
  (newLine? text).getD text

def quotedText? : List Char → Option (List Char × List Char)
  | '"' :: '"' :: '"' :: rest => basicLines? (rest.length + 1) (dropFirstLine rest)
  | '\'' :: '\'' :: '\'' :: rest => literalLines? (rest.length + 1) (dropFirstLine rest)
  | '"' :: rest => basic? (rest.length + 1) rest
  | '\'' :: rest => literal? rest
  | _ => none

def isBareKeyChar (c : Char) : Bool :=
  ('a' ≤ c && c ≤ 'z') || ('A' ≤ c && c ≤ 'Z') || Text.isDigit c || c = '_' || c = '-'

def keyPart? : List Char → Option (String × List Char)
  | '"' :: rest => (basic? (rest.length + 1) rest).map fun (body, last) ↦ (String.ofList body, last)
  | '\'' :: rest => (literal? rest).map fun (body, last) ↦ (String.ofList body, last)
  | text =>
    let name := text.takeWhile isBareKeyChar
    if name.isEmpty then none else some (String.ofList name, text.dropWhile isBareKeyChar)

/-- Parts separated by dots, blanks around them skipped. -/
def key? : Nat → List Char → Option (List String × List Char)
  | 0, _ => none
  | fuel + 1, text => do
    let (part, rest) ← keyPart? (skipGap text)
    match skipGap rest with
    | '.' :: more =>
      let (parts, after) ← key? fuel more
      return (part :: parts, after)
    | after => return ([part], after)

/-- What a number or truth value written without quotes may be made of. -/
def isScalarChar (c : Char) : Bool :=
  isBareKeyChar c || c = '+' || c = '.' || c = ':'

/-- Digits of a base with single underscores between them. -/
def digitsOf? (base : Nat) : (previous : Bool) → Nat → List Char → Option Nat
  | previous, n, [] => if previous then some n else none
  | previous, n, '_' :: rest =>
    if previous ∧ !rest.isEmpty then digitsOf? base false n rest else none
  | _, n, c :: rest => do
    let d ← hexValue? c
    if d < base then digitsOf? base true (base * n + d) rest else none

def decimal? : List Char → Option Nat
  | '0' :: c :: rest => if (c :: rest).isEmpty then some 0 else none
  | text => digitsOf? 10 false 0 text

def integer? : List Char → Option Int
  | '0' :: 'x' :: rest => (digitsOf? 16 false 0 rest).map Int.ofNat
  | '0' :: 'o' :: rest => (digitsOf? 8 false 0 rest).map Int.ofNat
  | '0' :: 'b' :: rest => (digitsOf? 2 false 0 rest).map Int.ofNat
  | '+' :: rest => (decimal? rest).map Int.ofNat
  | '-' :: rest => (decimal? rest).map fun n ↦ -(n : Int)
  | text => (decimal? text).map Int.ofNat

def unsigned (text : List Char) : List Char :=
  match text with
  | '+' :: rest => rest
  | '-' :: rest => rest
  | _ => text

/-- A number with a fraction, an exponent or both, or one of the two names. -/
def isFraction (text : List Char) : Bool :=
  let body := unsigned text
  if body = "inf".toList || body = "nan".toList then true
  else
    let isExponent := fun c ↦ c = 'e' || c = 'E'
    let mantissa := body.takeWhile fun c ↦ !isExponent c
    let exponent := body.dropWhile fun c ↦ !isExponent c
    let whole := mantissa.takeWhile (· ≠ '.')
    let fraction := mantissa.dropWhile (· ≠ '.')
    (decimal? whole).isSome
      && (fraction.isEmpty || (digitsOf? 10 false 0 (fraction.drop 1)).isSome)
      && (exponent.isEmpty || (digitsOf? 10 false 0 (unsigned (exponent.drop 1))).isSome)
      && !(fraction.isEmpty && exponent.isEmpty)

def scalar? (text : List Char) : Option Toml :=
  if text = "true".toList then some (.bool true)
  else if text = "false".toList then some (.bool false)
  else
    match integer? text with
    | some i => some (.int i)
    | none => if isFraction text then some .other else none

mutual

def value? : Nat → List Char → Option (Toml × List Char)
  | 0, _ => none
  | fuel + 1, text =>
    match text with
    | '[' :: rest => (items? fuel rest).map fun (items, after) ↦ (.arr items, after)
    | '\x7b' :: rest =>
      match skipLines rest.length rest with
      | '\x7d' :: after => some (.table .braces [], after)
      | more => (members? fuel [] more).map fun (entries, after) ↦ (.table .braces entries, after)
    | '"' :: _ => (quotedText? text).map fun (body, after) ↦ (.str (String.ofList body), after)
    | '\'' :: _ => (quotedText? text).map fun (body, after) ↦ (.str (String.ofList body), after)
    | _ => (scalar? (text.takeWhile isScalarChar)).map fun v ↦ (v, text.dropWhile isScalarChar)

def items? : Nat → List Char → Option (List Toml × List Char)
  | 0, _ => none
  | fuel + 1, text =>
    match skipLines text.length text with
    | ']' :: after => some ([], after)
    | start => do
      let (item, afterItem) ← value? fuel start
      match skipLines afterItem.length afterItem with
      | ',' :: more =>
        let (items, after) ← items? fuel more
        return (item :: items, after)
      | ']' :: after => return ([item], after)
      | _ => none

/-- Members between braces; a comma may stand before the closing one. -/
def members? : Nat → Entries → List Char → Option (Entries × List Char)
  | 0, _, _ => none
  | fuel + 1, entries, text => do
    let (key, afterKey) ← key? (text.length + 1) text
    let '=' :: rest := afterKey | none
    let (value, afterValue) ← value? fuel (skipGap rest)
    let entries ← assign value key entries
    match skipLines afterValue.length afterValue with
    | ',' :: more =>
      match skipLines more.length more with
      | '\x7d' :: after => return (entries, after)
      | next => members? fuel entries next
    | '\x7d' :: after => return (entries, after)
    | _ => none

end

/-- What follows a header or a value: blanks, a comment, and the end of the line or document. -/
def lineEnd? (text : List Char) : Option (List Char) :=
  match skipComment (skipGap text) with
  | [] => some []
  | rest => newLine? rest

/-- The statements of a document, the last header's table being open. -/
def statements? : Nat → List String → Entries → List Char → Option Entries
  | 0, _, _, _ => none
  | fuel + 1, here, entries, text =>
    match skipLines text.length text with
    | [] => some entries
    | '[' :: rest => do
      let (path, afterKey) ← key? (rest.length + 1) rest
      let ']' :: after := afterKey | none
      let entries ← openTable path entries
      statements? fuel path entries (← lineEnd? after)
    | start => do
      let (key, afterKey) ← key? (start.length + 1) start
      let '=' :: rest := afterKey | none
      let (value, after) ← value? (rest.length + 1) (skipGap rest)
      let entries ← assignIn value key here entries
      statements? fuel here entries (← lineEnd? after)

/-- The top level of a document. -/
def parse? (source : String) : Option Entries :=
  let text := source.toList
  statements? (text.length + 1) [] [] text

end LiveGraph.Toml
