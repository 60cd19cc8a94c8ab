import LiveGraph.Files
import LiveGraph.Json.Parser
import LiveGraph.Json.Printer
import LiveGraph.Packed.Reader
import LiveGraph.Snapshot.Json

/-!
# Snapshot files

A snapshot is kept as JSON where the file's name ends in `.json`, in whatever case, and packed
otherwise. A file above the size limit is refused before it is read.
-/

namespace LiveGraph

inductive Encoding
  | packed
  | json
  deriving DecidableEq, Repr

namespace Encoding

def ofPath (path : String) : Encoding :=
  if (Path.extension? path).any (·.map Char.toLower = "json") then json else packed

def write : Encoding → Snapshot → Bytes
  | packed, s => .ofList (Packed.write s)
  | json, s => .ofList (Packed.bytesOf s.toJson.write)

end Encoding

/-- The text of a file; a run of zero bytes stands in no text that is read here. -/
def Bytes.text? (b : Bytes) : Option String :=
  if b.zeros = 0 then String.fromUTF8? ⟨b.written.toArray⟩ else none

namespace Snapshot

def readJson (b : Bytes) : Except Damage Snapshot :=
  match (b.text?.bind Json.parse?).bind ofJson? with
  | some s => .ok s
  | none => .error .badJson

def decode (encoding : Encoding) (b : Bytes) : Except Damage Snapshot :=
  match encoding with
  | .packed => Packed.read b
  | .json => readJson b

def load (files : Files) (path : String) : Except Fault Snapshot :=
  match files.find path with
  | .error why => .error (.file (.metadata why))
  | .ok .directory => .error (.file (.read path .isDirectory))
  | .ok (.file content) =>
    if content.size > maxSnapshotSize then .error (.damaged (.fileTooLarge content.size))
    else (decode (.ofPath path) content).mapError .damaged

def save (s : Snapshot) (files : Files) (path : String) : Except Fault Files :=
  (files.write path ((Encoding.ofPath path).write s)).mapError fun why ↦ .file (.write path why)

end Snapshot

end LiveGraph
