import LiveGraph.World.Reads

/-!
# Rollups

Summaries of the debug tree: the children of an entity are the sources of its parent edges.
-/

namespace LiveGraph

/-- The children of what is at a URI that have a type. -/
def children (s : StoreId) (uri : Uri) (kind : String) : Reads (List EntityRef) := do
  let uris ← Store.sources s uri Schema.parentKind
  let es ← Store.lookupAll s uris
  Reads.peek fun w ↦ es.filter fun e ↦ w.kindOf e = kind

/-- The number of entities whose state is stopped. -/
def countStopped : List EntityRef → Reads Nat
  | [] => pure 0
  | e :: rest => do
    let state ← Entity.read e "state"
    let n ← countStopped rest
    return if state.matchesText "stopped" then n + 1 else n

namespace Rollup

def read (which : Rollup) (s : StoreId) (uri : Uri) : Reads Datum :=
  match which with
  | .leaf => return .bool (← children s uri "session").isEmpty
  | .stopped => do
    let threads ← children s uri "thread"
    return .ofNat (← countStopped threads)
  | .frames => return .ofNat (← children s uri "frame").length

end Rollup

end LiveGraph
