import LiveGraph.Pattern.Basic
import LiveGraph.Pattern.Token

/-!
# Canonical form of patterns

A pattern written without blanks; values and URIs stand bare where their characters allow it.
-/

namespace LiveGraph.Pattern

def isPlainWord : List Char → Bool
  | [] => false
  | c :: rest => isWordStart c && rest.all isWordChar

def isPlainDigits (text : List Char) : Bool :=
  !text.isEmpty && text.all Text.isDigit

def isPlainInt : List Char → Bool
  | '-' :: rest => isPlainDigits rest
  | text => isPlainDigits text

/-- Whether a URI can be written without brackets: a scheme, a colon and more. -/
def isBareUri (text : List Char) : Bool :=
  match text.dropWhile (· ≠ ':') with
  | ':' :: rest =>
    let scheme := text.takeWhile (· ≠ ':')
    scheme.head?.any isLetter && scheme.all isSchemeChar && !rest.isEmpty && rest.all isBareChar
  | _ => false

/-- A value between double quotes; the quote and the backslash are escaped. -/
def writeQuoted (text : List Char) : List Char :=
  '"' :: text.flatMap (fun c ↦ if c = '"' ∨ c = '\\' then ['\\', c] else [c]) ++ ['"']

def writeValue (value : String) : String :=
  let text := value.toList
  if isPlainWord text || isPlainInt text then value else String.ofList (writeQuoted text)

def writeUri (uri : Uri) : String :=
  if isBareUri uri.toList then uri else "<" ++ uri ++ ">"

def writeOffset (offset : Int64) : String :=
  if 0 < offset then "+" ++ toString offset.toInt
  else if offset < 0 then toString offset.toInt
  else ""

def Root.write : Root → String
  | .collection name => name
  | .anchor role offset => "@" ++ role ++ writeOffset offset
  | .uri uri => writeUri uri

def MatchOp.write : MatchOp → String
  | .eq => "="
  | .ne => "!="

def Condition.write (c : Condition) : String :=
  c.field ++ MatchOp.write c.op ++ writeValue c.value

def Suffix.write : Suffix → String
  | .relation name => "/" ++ name
  | .filter conditions => "(" ++ ",".intercalate (conditions.map Condition.write) ++ ")"
  | .index n => "[" ++ toString n ++ "]"

def write (p : Pattern) : String :=
  Root.write p.root ++ String.join (p.suffixes.map Suffix.write)

end LiveGraph.Pattern
