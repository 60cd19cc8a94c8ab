import LiveGraph.Store.Entity

/-!
# Editing a store

Adding and removing entities, edges and indices. Each edit is one batch; listeners are told within
it, of removed edges before the entity they were removed with.
-/

namespace LiveGraph

namespace World

/-- A new incarnation under the next serial, without properties and not yet to be found. -/
def addIncarnation (w : World) (s : StoreId) (uri : Uri) (kind : String) : EntityRef × World :=
  let e : EntityRef := ⟨s, (w.store s).incarnations.size + 1⟩
  let (shape, w) := w.addSignal (.int 0) .same (.entity e)
  (e, w.modifyStore s fun s ↦
    { s with incarnations := s.incarnations.push ⟨uri, kind, ∅, shape, true⟩ })

/-- Makes a new incarnation the entity at its URI. -/
def enlist (w : World) (e : EntityRef) : World :=
  let x := w.entity e
  w.modifyStore e.store fun s ↦
    { s.setBucket x.kind ((s.bucket x.kind).insert e.serial x.uri) with
      live := s.live.insert x.uri e.serial }

/-- Takes an entity out of its store: off its type, with all its edges, out of all indices. Gives
the edges and the indices it was in. -/
def strike (w : World) (e : EntityRef) : (List Edge × List String) × World :=
  let x := w.entity e
  let s := w.store e.store
  let (cut, edges) := s.edges.detach x.uri
  let without := s.indices.toList.filterMap fun (name, index) ↦
    (index.evict? x.uri).map (name, ·)
  ((cut, without.map (·.1)), w.modifyStore e.store fun s ↦
    { s.setBucket x.kind ((s.bucket x.kind).erase e.serial) with
      live := s.live.erase x.uri
      edges := edges
      indices := without.foldl (fun m (name, index) ↦ m.insert name index) s.indices })

/-- Whether a derived value or a watcher depends on a signal. -/
def isObserved (w : World) (id : SignalId) : Bool :=
  !(w.signal id).observers.isEmpty || !(w.signal id).watchers.isEmpty

/-- Whether a clock is about one entity. -/
def isClockOf (uri : Uri) : ClockKey → Bool
  | .presence u => u = uri
  | .targets u _ => u = uri
  | .sources u _ => u = uri
  | .kind _ => false
  | .index _ => false

/-- Drops the clocks about a removed entity. When there are many clocks, those that nobody reads
are dropped too, and it takes twice as many as are left for the next time. -/
def retireClocks (w : World) (s : StoreId) (uri : Uri) : World :=
  let clocks := (w.store s).clocks.filter fun key _ ↦ !isClockOf uri key
  if w.isTracking || clocks.size < (w.store s).sweepAt then
    w.modifyStore s fun s ↦ { s with clocks := clocks }
  else
    let read := clocks.filter fun _ id ↦ w.isObserved id
    w.modifyStore s fun s ↦
      { s with clocks := read, sweepAt := max (read.size * 2) Store.sweepThreshold }

end World

namespace Store

/-- Adds an entity, with the first value of each property. -/
def add [Dispatch] (s : StoreId) (spec : EntitySpec) : Act (Except Fault EntityRef) :=
  batch do
    if (← get).contains s spec.uri then return .error (.taken spec.uri)
    let e ← modifyGet (·.addIncarnation s spec.uri spec.kind)
    match ← defineAll e spec.props with
    | .error why => return .error why
    | .ok () =>
      modify (·.enlist e)
      let touched ← modifyGet (·.reindex e)
      bumpAll s (.presence spec.uri :: .kind spec.kind :: touched.map .index)
      notify (.store s .added) (.entity .added e)
      return .ok e
where
  /-- Adds properties one after the other. -/
  defineAll (e : EntityRef) : List (String × Value) → Act (Except Fault Unit)
    | [] => return .ok ()
    | (prop, value) :: rest => do
      match ← Entity.define e prop value with
      | .ok _ => defineAll e rest
      | .error why => return .error why

/-- The two parts of a store that an edge belongs to. -/
def edgeClocks (e : Edge) : List ClockKey :=
  [.targets e.source e.kind, .sources e.target e.kind]

def tellCut [Dispatch] (s : StoreId) : List Edge → Act Unit
  | [] => pure ()
  | edge :: rest => do
    bumpAll s (edgeClocks edge)
    notify (.store s .edgeRemoved) (.edge .edgeRemoved edge)
    tellCut s rest

/-- Removes the entity at a URI and every edge that touches it. -/
def remove [Dispatch] (s : StoreId) (uri : Uri) : Act Bool :=
  batch do
    match (← get).find? s uri with
    | none => return false
    | some e =>
      let kind := (← get).kindOf e
      let (cut, touched) ← modifyGet (·.strike e)
      modify (·.retire e)
      tellCut s cut
      bumpAll s (.presence uri :: .kind kind :: touched.map .index)
      notify (.store s .removed) (.entity .removed e)
      modify (·.retireClocks s uri)
      return true

/-- Writes several properties as one change; false if there is no such entity. -/
def update [Dispatch] (s : StoreId) (uri : Uri) (props : List (String × Value)) :
    Act (Except Fault Bool) := do
  match (← get).find? s uri with
  | none => return .ok false
  | some e => batch do return (← Entity.setAll e props).map fun _ ↦ true

/-- Adds an edge between two live entities; false if it is there already. -/
def link [Dispatch] (s : StoreId) (edge : Edge) (atFront : Bool) : Act Bool :=
  batch do
    let w ← get
    if !w.contains s edge.source || !w.contains s edge.target then return false
    match (w.store s).edges.insert? edge atFront with
    | none => return false
    | some edges =>
      modify (·.modifyStore s fun s ↦ { s with edges := edges })
      bumpAll s (edgeClocks edge)
      notify (.store s .edgeAdded) (.edge .edgeAdded edge)
      return true

/-- Removes an edge; false if it is not there. -/
def unlink [Dispatch] (s : StoreId) (edge : Edge) : Act Bool :=
  batch do
    match ((← get).store s).edges.remove? edge with
    | none => return false
    | some edges =>
      modify (·.modifyStore s fun s ↦ { s with edges := edges })
      tellCut s [edge]
      return true

end Store

namespace World

/-- An index over the live entities of a type. -/
def buildIndex (w : World) (s : StoreId) (kind : String) (x : Extractor) : Index :=
  (w.entitiesOf s kind).foldl
    (fun index e ↦ (index.place? (w.uriOf e) e.serial (w.keyOf? x e)).getD index) (.new kind x)

/-- Defines an index, or replaces it. -/
def putIndex (w : World) (s : StoreId) (name kind : String) (x : Extractor) : World :=
  let index := w.buildIndex s kind x
  w.modifyStore s fun s ↦ { s with indices := s.indices.insert name index }

end World

/-- Defines an index, or replaces it, and tells those who read it. -/
def Store.defineIndex [Dispatch] (s : StoreId) (name kind : String) (x : Extractor) :
    Act Unit := do
  modify (·.putIndex s name kind x)
  bump s (.index name)

end LiveGraph
