import LiveGraph.World.Reads

/-!
# Walking along relations

One step along an edge type, the nearest entities of a type along several steps, and the chain of
parents. Every walk ends after a fixed number of steps, and what was met once is not met again.
-/

namespace LiveGraph

namespace Relation

def admits (r : Relation) (w : World) (e : EntityRef) : Bool :=
  r.kind.all fun kind ↦ w.kindOf e = kind

/-- The neighbours of an entity along the edges of the relation. -/
def step (r : Relation) (s : StoreId) (e : EntityRef) : Reads (List EntityRef) := do
  let uri ← Reads.peek (·.uriOf e)
  let uris ← match r.direction with
    | .outgoing => Store.targets s uri r.edge
    | .incoming => Store.sources s uri r.edge
  Store.lookupAll s uris

/-- Where a walk has come: what it has met and found, and where it goes on from. -/
structure Walk where
  seen : List Uri
  found : List EntityRef
  next : List EntityRef

/-- Takes an entity up that is met for the first time. -/
def meet (r : Relation) (w : World) (walk : Walk) (e : EntityRef) : Walk :=
  if walk.seen.contains (w.uriOf e) then walk
  else
    let isMatch := r.admits w e
    { seen := walk.seen ++ [w.uriOf e]
      found := if isMatch then walk.found ++ [e] else walk.found
      next := if r.kind.isSome && isMatch then walk.next else walk.next ++ [e] }

def stepAll (r : Relation) (s : StoreId) : List EntityRef → Walk → Reads Walk
  | [], walk => pure walk
  | e :: rest, walk => do
    let met ← r.step s e
    let walk ← Reads.peek fun w ↦ met.foldl (r.meet w) walk
    stepAll r s rest walk

/-- Goes on from all places at once, until there is nowhere to go or no steps are left. -/
def walk (r : Relation) (s : StoreId) : Nat → Walk → Reads Walk
  | 0, walked => pure walked
  | n + 1, walked => do
    let walked ← r.stepAll s walked.next { walked with next := [] }
    if walked.next.isEmpty then return walked else walk r s n walked

/-- The entities related to an entity: its neighbours of the wanted type, or, along a transitive
relation, the first ones of that type on every way. -/
def follow (r : Relation) (s : StoreId) (e : EntityRef) : Reads (List EntityRef) := do
  if r.transitive then
    let uri ← Reads.peek (·.uriOf e)
    return (← r.walk s Schema.maxSteps ⟨[uri], [], [e]⟩).found
  else
    let met ← r.step s e
    Reads.peek fun w ↦ met.filter (r.admits w)

end Relation

namespace Schema

/-- The first entity a parent edge leads to, if the first edge leads to a live one. -/
def parent (schema : Schema) (s : StoreId) (e : EntityRef) : Reads (Option EntityRef) := do
  let uri ← Reads.peek (·.uriOf e)
  match ← Store.targets s uri schema.parentEdge with
  | [] => return none
  | uri :: _ => Store.lookup s uri

/-- The parents from an entity on, nearest first, up to a loop or until no steps are left. -/
def chain (schema : Schema) (s : StoreId) (start : EntityRef) :
    Nat → EntityRef → List EntityRef → Reads (List EntityRef)
  | 0, _, met => pure met
  | n + 1, e, met => do
    match ← schema.parent s e with
    | none => return met
    | some parent =>
      if (← Reads.peek (·.sameEntity parent start)) || met.contains parent then return met
      else chain schema s start n parent (met ++ [parent])

def ancestors (schema : Schema) (s : StoreId) (e : EntityRef) : Reads (List EntityRef) :=
  schema.chain s e maxSteps e []

end Schema

end LiveGraph
