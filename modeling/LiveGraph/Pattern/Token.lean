import LiveGraph.Text.Quoted
import LiveGraph.Value

/-!
# Tokens of the pattern language

The token forms, the text each is shown as, and the character classes they are made of.
-/

namespace LiveGraph.Pattern

inductive Mark
  | slash
  | openFilter
  | closeFilter
  | openIndex
  | closeIndex
  | comma
  | eq
  | ne
  | at
  | plus
  | minus
  deriving DecidableEq, Repr

namespace Mark

def display : Mark → String
  | slash => "/"
  | openFilter => "("
  | closeFilter => ")"
  | openIndex => "["
  | closeIndex => "]"
  | comma => ","
  | eq => "="
  | ne => "!="
  | «at» => "@"
  | plus => "+"
  | minus => "-"

end Mark

inductive Token
  | mark (m : Mark)
  | int (n : Nat)
  | word (name : String)
  | quoted (text : String)
  | bracketUri (uri : Uri)
  | bareUri (uri : Uri)
  deriving DecidableEq, Repr

namespace Token

def display : Token → String
  | mark m => m.display
  | int n => toString n
  | word name => name
  | quoted text => Text.quoted text
  | bracketUri uri => "<" ++ uri ++ ">"
  | bareUri uri => uri

end Token

/-- A token and the byte offset it starts at. -/
structure Lexeme where
  token : Token
  offset : Nat
  deriving DecidableEq, Repr

def isLetter (c : Char) : Bool :=
  ('a' ≤ c && c ≤ 'z') || ('A' ≤ c && c ≤ 'Z')

def isSchemeChar (c : Char) : Bool :=
  isLetter c || Text.isDigit c

def isWordStart (c : Char) : Bool :=
  isLetter c || c = '_'

def isWordChar (c : Char) : Bool :=
  isSchemeChar c || c = '_'

/-- What may stand after the colon of a URI written without brackets. -/
def isBareChar (c : Char) : Bool :=
  !Text.isBlank c && !"/()[],=!@<>".toList.contains c

/-- What may stand between the angle brackets of a URI. -/
def isBracketChar (c : Char) : Bool :=
  !Text.isBlank c && c != '<' && c != '>'

/-- The blanks that separate tokens. -/
def isSkipped (c : Char) : Bool :=
  c = ' ' || c = '\t' || c = '\r' || c = '\n'

def mark? : Char → Option Mark
  | '/' => some .slash
  | '(' => some .openFilter
  | ')' => some .closeFilter
  | '[' => some .openIndex
  | ']' => some .closeIndex
  | ',' => some .comma
  | '=' => some .eq
  | '@' => some .at
  | '+' => some .plus
  | '-' => some .minus
  | _ => none

/-- The greatest integer a token can hold. -/
def maxInt : Nat := 0xffffffffffffffff

end LiveGraph.Pattern
