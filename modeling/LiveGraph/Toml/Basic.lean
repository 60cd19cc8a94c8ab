/-!
# TOML documents

The values of a document, and how keys and table headers build it up. Each table remembers how it
came about, which decides who may still add to it.
-/

namespace LiveGraph

/-- How a table came about: by a header below it, its own header, a dotted key, or braces. -/
inductive TableOrigin
  | implied
  | header
  | dotted
  | braces
  deriving DecidableEq, Repr

inductive Toml
  | str (s : String)
  | int (i : Int)
  | bool (b : Bool)
  | other
  | arr (items : List Toml)
  | table (origin : TableOrigin) (entries : List (String × Toml))
  deriving Inhabited, Repr

namespace Toml

abbrev Entries := List (String × Toml)

def lookup (key : String) (entries : Entries) : Option Toml :=
  (entries.find? (·.1 = key)).map (·.2)

def replace (key : String) (value : Toml) (entries : Entries) : Entries :=
  entries.map fun e ↦ if e.1 = key then (key, value) else e

/-- Adds a value under a dotted key. The tables on the way must be open to it: new ones, or ones
that came about by a dotted key or by a header below them. -/
def assign (value : Toml) : List String → Entries → Option Entries
  | [], _ => none
  | [key], entries =>
    match lookup key entries with
    | none => some (entries ++ [(key, value)])
    | some _ => none
  | key :: path, entries =>
    match lookup key entries with
    | none => (assign value path []).map fun inner ↦ entries ++ [(key, .table .dotted inner)]
    | some (.table .dotted inner) =>
      (assign value path inner).map fun inner ↦ replace key (.table .dotted inner) entries
    | some (.table .implied inner) =>
      (assign value path inner).map fun inner ↦ replace key (.table .implied inner) entries
    | some _ => none

/-- Opens the table a header names. It must be new, or implied by headers below it so far. -/
def openTable : List String → Entries → Option Entries
  | [], _ => none
  | [key], entries =>
    match lookup key entries with
    | none => some (entries ++ [(key, .table .header [])])
    | some (.table .implied inner) => some (replace key (.table .header inner) entries)
    | some _ => none
  | key :: path, entries =>
    match lookup key entries with
    | none => (openTable path []).map fun inner ↦ entries ++ [(key, .table .implied inner)]
    | some (.table .braces _) => none
    | some (.table origin inner) =>
      (openTable path inner).map fun inner ↦ replace key (.table origin inner) entries
    | some _ => none

/-- Adds a value under a dotted key inside the table that a header opened. -/
def assignIn (value : Toml) (key : List String) : List String → Entries → Option Entries
  | [], entries => assign value key entries
  | name :: path, entries =>
    match lookup name entries with
    | some (.table origin inner) =>
      (assignIn value key path inner).map fun inner ↦ replace name (.table origin inner) entries
    | _ => none

end Toml

end LiveGraph
