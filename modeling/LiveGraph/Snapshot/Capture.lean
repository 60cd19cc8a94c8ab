import LiveGraph.Focus.Basic
import LiveGraph.Store.Edit

/-!
# Capturing and restoring

A snapshot holds what a store holds, entities by age, and what is focused. Restoring adds it all to
a store, whatever is there already; what cannot be linked or focused is passed over.
-/

namespace LiveGraph

namespace World

def specOf (w : World) (e : EntityRef) : EntitySpec :=
  ⟨w.uriOf e, w.kindOf e, w.properties e⟩

/-- The live entities, oldest first. -/
def byAge (w : World) (s : StoreId) : List EntityRef :=
  ((List.range' 1 (w.store s).incarnations.size).map (EntityRef.mk s)).filter w.isCurrent

/-- What a store holds, with or without what is focused. -/
def capture (w : World) (id : StateId) (withFocus : Bool) : Snapshot :=
  let s := (w.state id).store
  ⟨(w.byAge s).map w.specOf, (w.store s).edges.edges, if withFocus then w.focused id else []⟩

end World

namespace Snapshot

def addAll [Dispatch] (s : StoreId) : List EntitySpec → Act (Except Fault Unit)
  | [] => return .ok ()
  | spec :: rest => do
    match ← Store.add s spec with
    | .ok _ => addAll s rest
    | .error why => return .error why

def linkAll [Dispatch] (s : StoreId) : List Edge → Act Unit
  | [] => pure ()
  | edge :: rest => do
    let _ ← Store.link s edge false
    linkAll s rest

def focusAll [Dispatch] (id : StateId) : List Uri → Act Unit
  | [] => pure ()
  | uri :: rest => do
    let _ ← Focus.focus id uri
    focusAll id rest

/-- Adds a snapshot to a store as one change, up to the first entity that is refused, and then
focuses what was focused. -/
def restore [Dispatch] (snapshot : Snapshot) (id : StateId) (withFocus : Bool) :
    Act (Except Fault Unit) := do
  let s := ((← get).state id).store
  let added : Except Fault Unit ← batch do
    let added ← addAll s snapshot.entities
    if added.isOk then linkAll s snapshot.edges
    return added
  match added with
  | .error why => return .error why
  | .ok () =>
    if withFocus then focusAll id snapshot.focus
    return .ok ()

end Snapshot

end LiveGraph
