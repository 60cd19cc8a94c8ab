import LiveGraph.Store.Edit

/-!
# Breakpoints

There is one source per path, found by an index, and each breakpoint is linked to its source.
Toggling removes the breakpoint that a location means, or adds one there.
-/

namespace LiveGraph.Breakpoint

def kind : String := "breakpoint"

def sourceKind : String := "source"

/-- The index of sources by path. -/
def sourceIndex : String := "source_by_path"

/-- Sources are filed by path; one without a path is not filed. -/
def sourceExtractor : Extractor := KeyRule.extractor ⟨["path"], true⟩

/-- The source of a path. -/
def source (s : StoreId) (path : String) : Reads (Option EntityRef) :=
  Store.firstFiled s sourceIndex (.str path)

/-- The breakpoints on a path, in the order they were linked to its source. -/
def onPath (s : StoreId) (path : String) : Reads (List EntityRef) := do
  match ← source s path with
  | none => return []
  | some e =>
    let uri ← Reads.peek (·.uriOf e)
    let uris ← Store.sources s uri Schema.sourceKind
    let es ← Store.lookupAll s uris
    Reads.peek fun w ↦ es.filter fun e ↦ w.kindOf e = kind

/-- Which of the breakpoints on one line a column means: the one at that column, else the first
without a column, else the one with the lowest column. -/
def choose {α : Type} (wanted : Option Int64) (onLine : List (α × Option Int64)) : Option α :=
  let exact := wanted.bind fun column ↦ onLine.find? fun e ↦ e.2 = some column
  let bare := onLine.find? fun e ↦ e.2.isNone
  let lowest := onLine.foldl (fun best e ↦ match best with
    | none => some e
    | some b => if (compare e.2 b.2).isLT then some e else some b) none
  (exact <|> bare <|> lowest).map (·.1)

/-- The breakpoint a location means. -/
def find (s : StoreId) (l : Location) : Reads (Option EntityRef) := do
  let es ← onPath s l.path
  Reads.peek fun w ↦
    let onLine := es.filter fun e ↦ (w.property e "line").asInt? = some (Int64.ofNat l.line)
    choose (l.column.map Int64.ofNat) (onLine.map fun e ↦ (e, (w.property e "column").asInt?))

/-- Where the source of a path is put: nobody is at the URI, or a source without a path is. -/
inductive Place
  | vacant (uri : Uri)
  | untagged (e : EntityRef)

/-- The numbered URI for the source of a path. -/
def sourceUri (path : String) : Nat → Uri
  | 0 => "source:" ++ path
  | n => "source:" ++ path ++ "#" ++ toString n

/-- The first place for the source of a path, from a number on. -/
def placeFrom (w : World) (s : StoreId) (path : String) : Nat → Nat → Option Place
  | 0, _ => none
  | tries + 1, n =>
    match w.find? s (sourceUri path n) with
    | none => some (.vacant (sourceUri path n))
    | some e =>
      if w.kindOf e = sourceKind && (w.property e "path").isNil then some (.untagged e)
      else placeFrom w s path tries (n + 1)

/-- One more try than there are entities finds a place. -/
def place (w : World) (s : StoreId) (path : String) : Option Place :=
  placeFrom w s path ((w.store s).live.size + 1) 0

/-- The source of a path, which is made if need be. -/
def ensureSource [Dispatch] (s : StoreId) (path : String) : Act (Except Fault EntityRef) := do
  let w ← get
  match (source s path).value w with
  | some e => return .ok e
  | none =>
    match place w s path with
    | some (.vacant uri) => Store.add s ⟨uri, sourceKind, [("path", .str path)]⟩
    | some (.untagged e) => return (← Entity.set e "path" (.str path)).map fun _ ↦ e
    | none => throw .rounds

def numbered (n : Nat) : Uri :=
  "breakpoint:" ++ toString n

/-- The first number after the last one issued whose URI nobody has. -/
def nextNumber (w : World) (s : StoreId) : Nat → Nat → Nat
  | 0, n => n + 1
  | tries + 1, n =>
    if w.contains s (numbered (n + 1)) then nextNumber w s tries (n + 1) else n + 1

/-- Issues the URI of a new breakpoint. -/
def issue (id : StateId) : Act Uri := do
  let w ← get
  let { store, issued, .. } := w.state id
  let n := nextNumber w store (w.store store).live.size issued
  modify (·.modifyState id fun s ↦ { s with issued := n })
  return numbered n

/-- What a new breakpoint is told at its creation. -/
def spec (uri : Uri) (l : Location) : EntitySpec :=
  ⟨uri, kind, [("path", .str l.path), ("line", .int (Int64.ofNat l.line))]
    ++ l.column.toList.map fun column ↦ ("column", .int (Int64.ofNat column))⟩

/-- Adds a breakpoint and links it to its source, as one change. -/
def insert [Dispatch] (id : StateId) (l : Location) : Act (Except Fault EntityRef) :=
  batch do
    let s := ((← get).state id).store
    match ← ensureSource s l.path with
    | .error why => return .error why
    | .ok source =>
      let uri ← issue id
      match ← Store.add s (spec uri l) with
      | .error why => return .error why
      | .ok e =>
        let _ ← Store.link s ⟨Schema.sourceKind, uri, (← get).uriOf source⟩ false
        return .ok e

/-- What a toggle does once it is accepted: the breakpoint found before is removed if it is still
there, else one is added. -/
def carryOut [Dispatch] (id : StateId) (l : Location) (found : Option EntityRef) :
    Act (Except Fault Toggled) := do
  let w ← get
  let live := found.filter fun e ↦ (w.entity e).live
  match live with
  | some e =>
    let _ ← Store.remove (w.state id).store (w.uriOf e)
    return .ok (.removed (w.uriOf e))
  | none =>
    match ← insert id l with
    | .error why => return .error why
    | .ok e => return .ok (.added ((← get).picture e))

end LiveGraph.Breakpoint
