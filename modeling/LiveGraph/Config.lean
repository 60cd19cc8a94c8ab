import LiveGraph.Schema
import LiveGraph.Toml.Parser

/-!
# Configuration

A document laid over the debugger's schema: more or other collections and relations, other roles,
and the size of windows. Unknown keys are refused at the top and in a relation.
-/

namespace LiveGraph

/-- The size of a window where none is given. -/
def defaultWindow : Nat := 50

structure Config where
  windowLimit : Nat
  collections : Std.TreeMap String String
  relations : Std.TreeMap String Relation
  roles : Option (List String)
  deriving Inhabited

namespace Toml

def text? : Toml → Option String
  | .str s => some s
  | _ => none

def bool? : Toml → Option Bool
  | .bool b => some b
  | _ => none

/-- An integer that an unsigned 64-bit number can hold. -/
def size? : Toml → Option Nat
  | .int i => if 0 ≤ i ∧ i ≤ 0xffffffffffffffff then some i.toNat else none
  | _ => none

def list? {α : Type} (item : Toml → Option α) : Toml → Option (List α)
  | .arr items => items.mapM item
  | _ => none

def entries? : Toml → Option Entries
  | .table _ entries => some entries
  | _ => none

/-- A table whose keys are free and whose values are of one form. -/
def dictionary? {α : Type} (item : Toml → Option α) (toml : Toml) :
    Option (Std.TreeMap String α) := do
  let entries ← toml.entries?
  let pairs ← entries.mapM fun (key, value) ↦ (item value).map (key, ·)
  return .ofList pairs

/-- The values of the named fields, from a table or from an array in the same order. -/
def fields? (names : List String) (closed : Bool) : Toml → Option (List (Option Toml))
  | .table _ entries =>
    if closed && !entries.all (fun e ↦ names.contains e.1) then none
    else some (names.map fun name ↦ lookup name entries)
  | .arr items => some ((items.map some ++ List.replicate names.length none).take names.length)
  | _ => none

/-- A value that may be missing, in which case there is a default. -/
def optional {α : Type} (default : α) (read : Toml → Option α) (toml : Option Toml) : Option α :=
  toml.elim (some default) read

end Toml

def Direction.ofToml? : Toml → Option Direction
  | .str "out" => some .outgoing
  | .str "in" => some .incoming
  | _ => none

def Relation.ofToml? (toml : Toml) : Option Relation := do
  match ← toml.fields? ["edge", "direction", "kind", "transitive"] true with
  | [some edge, some direction, kind, transitive] =>
    return ⟨← edge.text?, ← Direction.ofToml? direction,
      ← Toml.optional none (fun t ↦ t.text?.map some) kind,
      ← Toml.optional false Toml.bool? transitive⟩
  | _ => none

namespace Config

def windowOfToml? (toml : Toml) : Option Nat := do
  match ← toml.fields? ["default_limit"] false with
  | [limit] => Toml.optional defaultWindow Toml.size? limit
  | _ => none

def ofToml? (toml : Toml) : Option Config := do
  match ← toml.fields? ["view", "collections", "relations", "roles"] true with
  | [view, collections, relations, roles] =>
    return ⟨← Toml.optional defaultWindow windowOfToml? view,
      ← Toml.optional ∅ (Toml.dictionary? Toml.text?) collections,
      ← Toml.optional ∅ (Toml.dictionary? Relation.ofToml?) relations,
      ← Toml.optional none (fun t ↦ (t.list? Toml.text?).map some) roles⟩
  | _ => none

/-- The configuration a text spells. -/
def parse? (source : String) : Option Config := do
  ofToml? (.table .header (← Toml.parse? source))

/-- The configuration of an absent or empty document. -/
def empty : Config := ⟨defaultWindow, ∅, ∅, none⟩

/-- The debugger's schema with what the configuration adds or replaces. -/
def schema (c : Config) : Schema :=
  { Schema.debugger with
    collections := c.collections.foldl (fun m k v ↦ m.insert k v) Schema.debugger.collections
    relations := c.relations.foldl (fun m k v ↦ m.insert k v) Schema.debugger.relations
    roles := c.roles.getD Schema.debugger.roles }

end Config

end LiveGraph
