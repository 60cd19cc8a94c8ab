import LiveGraph.Json.Basic

/-!
# Writing JSON

The spread-out form: every element and member on a line of its own, two blanks a level, and `[]`
and `\x7b\x7d` for what is empty. Characters are written as they are where JSON allows it.
-/

namespace LiveGraph.Json

def hexDigit (n : Nat) : Char :=
  if n < 10 then Char.ofNat ('0'.toNat + n) else Char.ofNat ('a'.toNat + n - 10)

def writeChar (c : Char) : List Char :=
  if c = '"' then ['\\', '"']
  else if c = '\\' then ['\\', '\\']
  else if c = '\x08' then ['\\', 'b']
  else if c = '\x0c' then ['\\', 'f']
  else if c = '\n' then ['\\', 'n']
  else if c = '\r' then ['\\', 'r']
  else if c = '\t' then ['\\', 't']
  else if c.toNat < 0x20 then
    ['\\', 'u', '0', '0', hexDigit (c.toNat / 16), hexDigit (c.toNat % 16)]
  else [c]

def writeText (text : String) : List Char :=
  '"' :: text.toList.flatMap writeChar ++ ['"']

/-- A line break and the blanks in front of the next line. -/
def newLine (depth : Nat) : List Char :=
  '\n' :: List.replicate (2 * depth) ' '

/-- Pieces between brackets, one a line. -/
def writeBlock (depth : Nat) (opening closing : Char) : List (List Char) → List Char
  | [] => [opening, closing]
  | first :: rest =>
    opening :: newLine (depth + 1) ++ first
      ++ rest.flatMap (fun piece ↦ ',' :: newLine (depth + 1) ++ piece)
      ++ newLine depth ++ [closing]

mutual

def writeAt (depth : Nat) : Json → List Char
  | .null => "null".toList
  | .bool true => "true".toList
  | .bool false => "false".toList
  | .int i => (toString i).toList
  | .otherNumber => "null".toList
  | .str s => writeText s
  | .brokenStr => "null".toList
  | .arr items => writeBlock depth '[' ']' (writeItems (depth + 1) items)
  | .obj members => writeBlock depth '\x7b' '\x7d' (writeMembers (depth + 1) members)

def writeItems (depth : Nat) : List Json → List (List Char)
  | [] => []
  | item :: rest => writeAt depth item :: writeItems depth rest

def writeMembers (depth : Nat) : List (Option String × Json) → List (List Char)
  | [] => []
  | (name, value) :: rest =>
    (writeText (name.getD "") ++ [':', ' '] ++ writeAt depth value) :: writeMembers depth rest

end

def write (json : Json) : String :=
  String.ofList (writeAt 0 json)

end LiveGraph.Json
