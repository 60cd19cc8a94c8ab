import LiveGraph.Text.Quoted
import LiveGraph.Value

/-!
# Faults

The causes for which an operation is refused, and the one place where each is put into words.
A missing entity is no fault: lookups answer with nothing.
-/

namespace LiveGraph

/-- What a reader of patterns or clauses was waiting for. -/
inductive Expected
  | root
  | role
  | anchorOffset
  | anchorOffsetInRange
  | suffix
  | relation
  | field
  | comparison
  | value
  | valueDigits
  | filterEnd
  | index
  | indexEnd
  | clause
  deriving DecidableEq, Repr

namespace Expected

def words : Expected → String
  | root => "type name, '@role' or URI"
  | role => "role name after '@'"
  | anchorOffset => "offset after sign"
  | anchorOffsetInRange => "offset in range"
  | suffix => "'/', '(' or '['"
  | relation => "relation name after '/'"
  | field => "field name"
  | comparison => "'=' or '!='"
  | value => "value"
  | valueDigits => "digits after '-'"
  | filterEnd => "',' or ')'"
  | index => "index"
  | indexEnd => "']'"
  | clause => "field<op>value"

end Expected

/-- The greatest length of a pattern, in bytes. -/
def maxPatternLength : Nat := 4096

/-- Why a pattern or clause cannot be read. Offsets count bytes. -/
inductive ParseFault
  | invalidCharacter (offset : Nat) (found : String)
  | unexpectedToken (offset : Nat) (found : String) (expected : Expected)
  | unexpectedEnd (offset : Nat) (expected : Expected)
  | tooLong (length : Nat)
  deriving DecidableEq, Repr

namespace ParseFault

def offset : ParseFault → Nat
  | invalidCharacter at_ _ => at_
  | unexpectedToken at_ _ _ => at_
  | unexpectedEnd at_ _ => at_
  | tooLong _ => maxPatternLength

def found? : ParseFault → Option String
  | invalidCharacter _ found => some found
  | unexpectedToken _ found _ => some found
  | unexpectedEnd _ _ => none
  | tooLong _ => none

def complaint : ParseFault → String
  | invalidCharacter _ found => "invalid character " ++ Text.quoted found
  | unexpectedToken _ found expected =>
    "expected " ++ expected.words ++ ", found " ++ Text.quoted found
  | unexpectedEnd _ expected => "expected " ++ expected.words ++ ", found end of pattern"
  | tooLong length =>
    "pattern is " ++ toString length ++ " bytes, limit is " ++ toString maxPatternLength

def message (fault : ParseFault) : String :=
  fault.complaint ++ " at offset " ++ toString fault.offset

end ParseFault

/-- What can be wrong inside a packed payload. -/
inductive PayloadFault
  | endOfData
  | endlessNumber
  | badBool
  | badText
  | badVariant
  deriving DecidableEq, Repr

namespace PayloadFault

def message : PayloadFault → String
  | endOfData => "Hit the end of buffer, expected more data"
  | endlessNumber =>
    "Found a varint that didn't terminate. Is the usize too big for this platform?"
  | badBool => "Found a bool that wasn't 0 or 1"
  | badText => "Tried to parse invalid utf-8"
  | badVariant => "Serde Deserialization Error"

end PayloadFault

/-- The greatest size of a snapshot, in bytes. -/
def maxSnapshotSize : Nat := 64 * 1024 * 1024

/-- The size of a packed snapshot's header. -/
def headerSize : Nat := 5

/-- The version of the packed form that is written and read. -/
def packedVersion : UInt8 := 1

/-- Why stored data cannot be taken in. -/
inductive Damage
  | tooShort
  | tooLarge (size : Nat)
  | fileTooLarge (size : Nat)
  | shortHeader
  | badMagic
  | badVersion (version : UInt8)
  | badPayload (why : PayloadFault)
  | badJson
  | badToml
  | badTomlFile (path : String)
  deriving DecidableEq, Repr

namespace Damage

def message : Damage → String
  | tooShort => "Data too short: minimum " ++ toString headerSize ++ " bytes required"
  | tooLarge size => "Data size " ++ toString size ++ " bytes exceeds maximum allowed "
      ++ toString maxSnapshotSize ++ " bytes"
  | fileTooLarge size => "File size " ++ toString size ++ " bytes exceeds maximum allowed "
      ++ toString maxSnapshotSize ++ " bytes"
  | shortHeader => "Header too short"
  | badMagic => "Invalid magic bytes"
  | badVersion version => "Unsupported version: " ++ toString version.toNat ++ " (expected "
      ++ toString packedVersion.toNat ++ ")"
  | badPayload why => "Failed to decode snapshot: " ++ why.message
  | badJson => "Invalid JSON snapshot"
  | badToml => "TOML parse error"
  | badTomlFile path => path ++ ": TOML parse error"

end Damage

/-- Why the file system refuses a path. -/
inductive PathFault
  | notFound
  | isDirectory
  | notDirectory
  | notText
  deriving DecidableEq, Repr

namespace PathFault

def message : PathFault → String
  | notFound => "No such file or directory (os error 2)"
  | isDirectory => "Is a directory (os error 21)"
  | notDirectory => "Not a directory (os error 20)"
  | notText => "stream did not contain valid UTF-8"

end PathFault

/-- Which access to a file failed. -/
inductive FileFault
  | metadata (why : PathFault)
  | read (path : String) (why : PathFault)
  | write (path : String) (why : PathFault)
  | settings (path : String) (why : PathFault)
  deriving DecidableEq, Repr

namespace FileFault

def message : FileFault → String
  | metadata why => "Cannot read file metadata: " ++ why.message
  | read path why => "Read " ++ path ++ ": " ++ why.message
  | write path why => "Write " ++ path ++ ": " ++ why.message
  | settings path why => "failed to read " ++ path ++ ": " ++ why.message

end FileFault

/-- The tables of names a script refers to. -/
inductive HandleKind
  | entity
  | signal
  | derived
  | view
  | iterator
  | token
  | task
  | relation
  deriving DecidableEq, Repr

namespace HandleKind

def name : HandleKind → String
  | entity => "entity"
  | signal => "signal"
  | derived => "derived"
  | view => "view"
  | iterator => "iterator"
  | token => "token"
  | task => "task"
  | relation => "relation"

end HandleKind

/-- Why an operation is refused. -/
inductive Fault
  | taken (uri : Uri)
  | cycle
  | parse (why : ParseFault)
  | unknownIndex (name : String)
  | disposed
  | damaged (why : Damage)
  | file (why : FileFault)
  | noHandle (kind : HandleKind)
  deriving DecidableEq, Repr

namespace Fault

def message : Fault → String
  | taken uri => "URI already present in store: " ++ uri
  | cycle => "Derived signal depends on itself"
  | parse why => why.message
  | unknownIndex name => "Unknown index: " ++ name
  | disposed => "Operation on a disposed handle"
  | damaged why => "Deserialization error: " ++ why.message
  | file why => "I/O error: " ++ why.message
  | noHandle kind => kind.name

end Fault

end LiveGraph
