import LiveGraph.Value

/-!
# Records

What is said about entities and edges outside a store: the parts needed to create an entity, an
edge, and a snapshot, which is a list of each with the focused entities.
-/

namespace LiveGraph

/-- A typed edge between two entities. -/
structure Edge where
  kind : String
  source : Uri
  target : Uri
  deriving DecidableEq, Inhabited, Repr

/-- Identity, type and initial properties; of a repeated property name the first counts. -/
structure EntitySpec where
  uri : Uri
  kind : String
  props : List (String × Value)
  deriving DecidableEq, Inhabited, Repr

/-- Entities in creation order, edges in the order of the incoming lists, focus outermost first. -/
structure Snapshot where
  entities : List EntitySpec
  edges : List Edge
  focus : List Uri
  deriving DecidableEq, Inhabited, Repr

end LiveGraph
