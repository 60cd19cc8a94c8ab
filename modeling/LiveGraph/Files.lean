import LiveGraph.Fault
import LiveGraph.Packed.Bytes

/-!
# Files

A directory as a list of named contents, and what the file system says about a path into it.
Blank steps and single dots in a path lead nowhere, a slash at its end asks for a directory.
-/

namespace LiveGraph

/-- The contents of a directory, by path from it. -/
abbrev Files := List (String × Bytes)

namespace Path

/-- The steps of a path. -/
def steps (path : String) : List String :=
  ((path.toList.splitOn '/').map String.ofList).filter fun step ↦ step ≠ "" ∧ step ≠ "."

/-- Whether a path ends in a slash, or in a slash and a dot. -/
def isClosed (path : String) : Bool :=
  match path.toList.reverse with
  | '/' :: _ => true
  | '.' :: '/' :: _ => true
  | _ => false

/-- The name at the end of a path, unless it leads upward or nowhere. -/
def fileName? (path : String) : Option String :=
  ((steps path).getLast?).filter (· ≠ "..")

/-- What follows the last dot of a name, if anything stands before that dot. -/
def extensionOf? (name : List Char) : Option (List Char) :=
  let last := name.reverse.takeWhile (· ≠ '.')
  match name.reverse.dropWhile (· ≠ '.') with
  | _ :: _ :: _ => some last.reverse
  | _ => none

def extension? (path : String) : Option String :=
  ((fileName? path).bind fun name ↦ extensionOf? name.toList).map String.ofList

end Path

namespace Files

/-- The name under which a path's file is kept. -/
def nameOf (path : String) : String :=
  "/".intercalate (Path.steps path)

def get? (files : Files) (name : String) : Option Bytes :=
  (files.find? (·.1 = name)).map (·.2)

def put (files : Files) (name : String) (content : Bytes) : Files :=
  if files.any (·.1 = name) then
    files.map fun f ↦ if f.1 = name then (name, content) else f
  else files ++ [(name, content)]

/-- Whether the steps lead to a directory: the one at hand, or one that holds some file. -/
def isDirectory (files : Files) (steps : List String) : Bool :=
  steps.isEmpty || files.any fun f ↦
    steps.isPrefixOf (Path.steps f.1) && steps != Path.steps f.1

/-- Whether some file stands on the way to the end of the steps. -/
def isBlocked (files : Files) (steps : List String) : Bool :=
  files.any fun f ↦ (Path.steps f.1).isPrefixOf steps && steps != Path.steps f.1

inductive Entry
  | file (content : Bytes)
  | directory

/-- What stands at a path. -/
def find (files : Files) (path : String) : Except PathFault Entry :=
  let steps := Path.steps path
  if path = "" then .error .notFound
  else if isBlocked files steps then .error .notDirectory
  else if isDirectory files steps then .ok .directory
  else
    match files.get? (nameOf path) with
    | some content => if Path.isClosed path then .error .notDirectory else .ok (.file content)
    | none => .error .notFound

def existsAt (files : Files) (path : String) : Bool :=
  (files.find path).isOk

/-- The files after writing at a path; the directory it names must exist. -/
def write (files : Files) (path : String) (content : Bytes) : Except PathFault Files :=
  let steps := Path.steps path
  if path = "" then .error .notFound
  else if isBlocked files steps then .error .notDirectory
  else if isDirectory files steps then .error .isDirectory
  else if !isDirectory files steps.dropLast then .error .notFound
  else if Path.isClosed path then .error .isDirectory
  else .ok (files.put (nameOf path) content)

end Files

end LiveGraph
