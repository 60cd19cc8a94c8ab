import Std.Data.TreeMap
import LiveGraph.Value

/-!
# Secondary indices

The entities of one type filed under a key, in creation order. What each entity is filed under is
kept as well, so that it can be moved or taken out without knowing its key.
-/

namespace LiveGraph

/-- The key of an entity by the properties it has; an entity without a key is left out. -/
abbrev Extractor := (String → Option Value) → Option Value

/-- How a script describes a key: the value of its one property, or the texts of several, joined. An
entity whose key is unset may be left out. -/
structure KeyRule where
  props : List String
  skipsNil : Bool
  deriving DecidableEq, Inhabited, Repr

namespace KeyRule

def keyOf (props : List String) (value : String → Value) : Value :=
  match props with
  | [prop] => value prop
  | _ => .str ("|".intercalate (props.map fun prop ↦ (value prop).display))

def key? (x : KeyRule) (value : String → Value) : Option Value :=
  let key := keyOf x.props value
  if x.skipsNil && key.isNil then none else some key

/-- The extractor that is described; absent properties are unset. -/
def extractor (x : KeyRule) : Extractor := fun value? ↦
  x.key? fun prop ↦ (value? prop).getD .nil

end KeyRule

structure Index where
  kind : String
  extractor : Extractor
  /-- Under each key, the entities by serial. -/
  buckets : Std.TreeMap Value (Std.TreeMap Nat Uri)
  /-- The key and serial of each entity that is filed. -/
  filed : Std.TreeMap Uri (Value × Nat)
  deriving Inhabited

namespace Index

def new (kind : String) (extractor : Extractor) : Index := ⟨kind, extractor, ∅, ∅⟩

def keyOf? (x : Index) (uri : Uri) : Option Value :=
  (x.filed.get? uri).map (·.1)

def bucket (x : Index) (key : Value) : Std.TreeMap Nat Uri :=
  x.buckets.getD key ∅

/-- The entities under a key, oldest first. -/
def all (x : Index) (key : Value) : List Uri :=
  (x.bucket key).values

def first? (x : Index) (key : Value) : Option Uri :=
  (x.all key).head?

def setBucket (x : Index) (key : Value) (bucket : Std.TreeMap Nat Uri) :
    Std.TreeMap Value (Std.TreeMap Nat Uri) :=
  if bucket.isEmpty then x.buckets.erase key else x.buckets.insert key bucket

/-- The index without an entity that was filed; nothing if it was not. -/
def evict? (x : Index) (uri : Uri) : Option Index :=
  (x.filed.get? uri).map fun (key, serial) ↦
    { x with
      buckets := x.setBucket key ((x.bucket key).erase serial)
      filed := x.filed.erase uri }

def file (x : Index) (uri : Uri) (serial : Nat) (key : Value) : Index :=
  { x with
    buckets := x.setBucket key ((x.bucket key).insert serial uri)
    filed := x.filed.insert uri (key, serial) }

/-- The index with an entity moved to its new key; nothing if it has that key already. -/
def place? (x : Index) (uri : Uri) (serial : Nat) (key : Option Value) : Option Index :=
  if x.keyOf? uri = key then none
  else
    let without := (x.evict? uri).getD x
    some (key.elim without (without.file uri serial))

end Index

end LiveGraph
