import LiveGraph.Focus.Basic
import LiveGraph.Pattern.Parser

/-!
# Resolving patterns

The root of a pattern gives the first entities, and every suffix works on those before it. What is
found for a pattern that names one entity is one or none; for any other it is a list, and a list of
several is never taken for one of them.
-/

namespace LiveGraph

inductive Resolution
  | single (e : Option EntityRef)
  | list (es : List EntityRef)
  deriving DecidableEq

namespace Resolution

def toList : Resolution → List EntityRef
  | single e => e.toList
  | list es => es

/-- The one entity that was found, if it was the only one. -/
def one? : Resolution → Option EntityRef
  | single e => e
  | list [e] => some e
  | list _ => none

def isSingle : Resolution → Bool
  | single _ => true
  | list _ => false

/-- Those of the entities that are kept, one or none where there was one or none before. -/
def keep (r : Resolution) (kept : List EntityRef) : Resolution :=
  match r with
  | single _ => single kept.head?
  | list _ => list kept

end Resolution

namespace Condition

def holds (c : Condition) (v : Value) : Bool :=
  match c.op with
  | .eq => v.matchesText c.value
  | .ne => !v.matchesText c.value

/-- Whether an entity satisfies all conditions; after the first that fails nothing is read. -/
def allHold (e : EntityRef) : List Condition → Reads Bool
  | [] => pure true
  | c :: rest => do
    if c.holds (← Entity.read e c.field) then allHold e rest else return false

def select (cs : List Condition) : List EntityRef → Reads (List EntityRef)
  | [] => pure []
  | e :: rest => do
    let keeps ← allHold e cs
    let kept ← select cs rest
    return if keeps then e :: kept else kept

end Condition

namespace Schema

/-- What a named relation leads to; nothing if the relation is not known. -/
def related (schema : Schema) (s : StoreId) (e : EntityRef) (relation : String) :
    Reads (Option (List EntityRef)) :=
  match schema.relations.get? relation with
  | none => pure none
  | some r => return some (← r.follow s e)

/-- What a relation leads to from any of several entities, each found once, in the order met. -/
def traverse (schema : Schema) (s : StoreId) (relation : String) :
    List EntityRef → List EntityRef → Reads (List EntityRef)
  | [], found => pure found
  | e :: rest, found => do
    match ← schema.related s e relation with
    | none => return []
    | some es =>
      schema.traverse s relation rest
        (es.foldl (fun found e ↦ if found.contains e then found else found ++ [e]) found)

/-- The member that stands an offset after a given one, counted in the order of the members. -/
def neighbour (members : List EntityRef) (e : EntityRef) (offset : Int) : Option EntityRef := do
  let position ← members.findIdx? (· = e)
  if position + offset < 0 then none else members[(position + offset).toNat]?

/-- The entity an offset away from a given one along its role's axis. -/
def shift (schema : Schema) (s : StoreId) (role : String) (e : EntityRef) (offset : Int) :
    Reads (Option EntityRef) := do
  match schema.axes.get? role with
  | none => return none
  | some axis =>
    match ← schema.related s e axis.container with
    | some (container :: _) =>
      match ← schema.related s container axis.members with
      | some members => return neighbour members e offset
      | none => return none
    | _ => return none

end Schema

/-- What an anchor stands for: the focused entity, or one along its axis. -/
def Focus.anchored (id : StateId) (scope : Option String) (role : String) (offset : Int64) :
    Reads (Option EntityRef) := do
  match ← readEntity id scope role with
  | none => return none
  | some e =>
    if offset = 0 then return some e
    else
      let s ← Reads.peek (·.state id)
      s.schema.shift s.store role e offset.toInt

def Root.evaluate (id : StateId) (scope : Option String) : Root → Reads Resolution
  | .collection name => do
    let s ← Reads.peek (·.state id)
    return .list (← Store.entitiesOf s.store (s.schema.collectionKind name))
  | .anchor role offset => return .single (← Focus.anchored id scope role offset)
  | .uri place => do
    let s ← Reads.peek (·.state id)
    return .single (← Store.lookup s.store place)

/-- What a suffix makes of what was found before it: a relation leads to a list, an index to one
entity or none, and a filter leaves one where one was. -/
def Suffix.evaluate (schema : Schema) (s : StoreId) (r : Resolution) : Suffix → Reads Resolution
  | .relation name => return .list (← schema.traverse s name r.toList [])
  | .filter conditions => return r.keep (← Condition.select conditions r.toList)
  | .index n => return .single r.toList[n]?

def Suffix.evaluateAll (schema : Schema) (s : StoreId) :
    List Suffix → Resolution → Reads Resolution
  | [], r => pure r
  | suffix :: rest, r => do Suffix.evaluateAll schema s rest (← suffix.evaluate schema s r)

def Pattern.evaluate (p : Pattern) (id : StateId) (scope : Option String) : Reads Resolution := do
  let r ← p.root.evaluate id scope
  let s ← Reads.peek (·.state id)
  Suffix.evaluateAll s.schema s.store p.suffixes r

/-- Resolves the text of a pattern as seen from a scope. -/
def resolve (id : StateId) (scope : Option String) (text : String) :
    Reads (Except ParseFault Resolution) :=
  match Pattern.parse text with
  | .error why => pure (.error why)
  | .ok p => return .ok (← p.evaluate id scope)

end LiveGraph
