import LiveGraph.Breakpoint.Basic
import LiveGraph.Focus.Basic

/-!
# Debug states

A store with the focus over it, which lets go of what is removed, and with the index of sources that
breakpoints need.
-/

namespace LiveGraph.World

/-- A new debug state over a schema, with an empty store. -/
def addState (w : World) (schema : Schema) : StateId × World :=
  let id := w.states.size
  let s : StoreId := w.stores.size
  let w := { w with stores := w.stores.push .empty }
  let (roles, w) := w.addRoles (.state id) schema.roles
  let (scopes, w) := w.addSignal (.int 0) .same (.state id)
  let w := (w.subscribe (.store s .removed) (.forget id)).2
  let w := w.putIndex s Breakpoint.sourceIndex Breakpoint.sourceKind Breakpoint.sourceExtractor
  (id, { w with states := w.states.push ⟨s, schema, roles, ∅, scopes, ∅, 0⟩ })

end LiveGraph.World
