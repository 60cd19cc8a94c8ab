/-!
# JSON values

Objects keep the order and the repetitions of their members. Numbers that are no 64-bit integer are
told apart only from integers, and texts with an unpaired half of a surrogate only from texts.
-/

namespace LiveGraph

inductive Json
  | null
  | bool (b : Bool)
  | int (i : Int)
  | otherNumber
  | str (s : String)
  | brokenStr
  | arr (items : List Json)
  | obj (members : List (Option String × Json))
  deriving Inhabited, Repr

namespace Json

/-- An object with the given members. -/
def record (members : List (String × Json)) : Json :=
  .obj (members.map fun (name, value) ↦ (some name, value))

def ofOption (s : Option String) : Json :=
  s.elim .null .str

def ofStrings (texts : List String) : Json :=
  .arr (texts.map .str)

end Json

end LiveGraph
