import LiveGraph.Json.Basic
import LiveGraph.Record

/-!
# Snapshots as JSON

A record is written as an object with all its members. It is read from an object, whose unknown
members are passed over and whose known ones must not repeat, or from an array of its fields in
order. Properties, edges and focus may be left out.
-/

namespace LiveGraph

namespace Json

def text? : Json → Option String
  | .str s => some s
  | _ => none

def list? {α : Type} (item : Json → Option α) : Json → Option (List α)
  | .arr items => items.mapM item
  | _ => none

/-- The one member of that name, if there is one; a name that repeats is refused. -/
def member? (name : String) (members : List (Option String × Json)) : Option (Option Json) :=
  match members.filter (fun m ↦ m.1 = some name) with
  | [] => some none
  | [m] => some (some m.2)
  | _ => none

/-- The values of the named fields, from an object or from an array in the same order. -/
def fields? (names : List String) : Json → Option (List (Option Json))
  | .obj members =>
    if members.all (fun m ↦ m.1.isSome) then names.mapM fun name ↦ member? name members else none
  | .arr items =>
    if items.length ≤ names.length then
      some (items.map some ++ List.replicate (names.length - items.length) none)
    else none
  | _ => none

end Json

def Value.toJson : Value → Json
  | .nil => .str "Nil"
  | .bool b => .record [("Bool", .bool b)]
  | .int i => .record [("Int", .int i.toInt)]
  | .str s => .record [("Str", .str s)]

def Value.ofJson? : Json → Option Value
  | .str name => if name = "Nil" then some .nil else none
  | .obj [(some "Nil", .null)] => some .nil
  | .obj [(some "Bool", .bool b)] => some (.bool b)
  | .obj [(some "Int", .int i)] => if Text.inInt64 i then some (.int (Int64.ofInt i)) else none
  | .obj [(some "Str", .str s)] => some (.str s)
  | _ => none

def propertyToJson (p : String × Value) : Json :=
  .arr [.str p.1, p.2.toJson]

def propertyOfJson? : Json → Option (String × Value)
  | .arr [.str name, value] => (Value.ofJson? value).map (name, ·)
  | _ => none

def EntitySpec.toJson (s : EntitySpec) : Json :=
  .record [("uri", .str s.uri), ("kind", .str s.kind),
    ("props", .arr (s.props.map propertyToJson))]

def EntitySpec.ofJson? (json : Json) : Option EntitySpec := do
  match ← json.fields? ["uri", "kind", "props"] with
  | [some uri, some kind, props] =>
    return ⟨← uri.text?, ← kind.text?, ← props.elim (some []) (Json.list? propertyOfJson?)⟩
  | _ => none

def Edge.toJson (e : Edge) : Json :=
  .record [("kind", .str e.kind), ("from", .str e.source), ("to", .str e.target)]

def Edge.ofJson? (json : Json) : Option Edge := do
  match ← json.fields? ["kind", "from", "to"] with
  | [some kind, some source, some target] =>
    return ⟨← kind.text?, ← source.text?, ← target.text?⟩
  | _ => none

def Snapshot.toJson (s : Snapshot) : Json :=
  .record [("entities", .arr (s.entities.map EntitySpec.toJson)),
    ("edges", .arr (s.edges.map Edge.toJson)), ("focus", Json.ofStrings s.focus)]

def Snapshot.ofJson? (json : Json) : Option Snapshot := do
  match ← json.fields? ["entities", "edges", "focus"] with
  | [some entities, edges, focus] =>
    return ⟨← Json.list? EntitySpec.ofJson? entities,
      ← edges.elim (some []) (Json.list? Edge.ofJson?),
      ← focus.elim (some []) (Json.list? Json.text?)⟩
  | _ => none

end LiveGraph
