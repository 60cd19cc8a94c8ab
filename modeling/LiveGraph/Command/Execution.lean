import LiveGraph.Command.Basic
import LiveGraph.Config
import LiveGraph.Json.Printer
import LiveGraph.Pattern.Printer
import LiveGraph.Resolution
import LiveGraph.Session.Basic
import LiveGraph.Snapshot.Capture
import LiveGraph.Snapshot.File
import LiveGraph.Text.Quoted

/-!
# Carrying out commands

A command works on a debug state of its own, into which the snapshot was restored. It comes to a
text, for people or as JSON, and to what is to be saved; when something is refused there is neither.
-/

namespace LiveGraph

/-- What a command comes to. -/
structure Report where
  text : String
  save : Option (String × Snapshot)
  deriving DecidableEq, Inhabited

namespace Report

def lines (texts : List String) : String :=
  String.join (texts.map (· ++ "\n"))

/-- A report that shows lines to people and a record to programs. -/
def of (asJson : Bool) (texts : List String) (members : List (String × Json)) : Report :=
  ⟨if asJson then lines [(Json.record members).write] else lines texts, none⟩

end Report

namespace Json

def ofValue : Value → Json
  | .nil => .null
  | .bool b => .bool b
  | .int i => .int i.toInt
  | .str s => .str s

def ofNat (n : Nat) : Json := .int n

end Json

namespace Command

def entityLine (w : World) (e : EntityRef) : String :=
  let props := (w.properties e).map fun (prop, value) ↦ prop ++ "=" ++ value.display
  " ".intercalate ([w.uriOf e, "[" ++ w.kindOf e ++ "]"] ++ props)

def entityRecord (w : World) (e : EntityRef) : Json :=
  .record
    [("uri", .str (w.uriOf e)), ("kind", .str (w.kindOf e)),
      ("props", .record ((w.properties e).map fun (prop, value) ↦ (prop, .ofValue value)))]

def entityRecords (w : World) (es : List EntityRef) : Json :=
  .arr (es.map (entityRecord w))

/-- A text with blanks after it, up to a width. -/
def padded (width : Nat) (text : String) : String :=
  text ++ String.ofList (List.replicate (width - text.length) ' ')

def showResolution (i : Invocation) (w : World) (id : StateId) (pattern : String) (all : Bool) :
    Except Fault Report :=
  match (LiveGraph.resolve id i.scope pattern).value w with
  | .error why => .error (.parse why)
  | .ok r =>
    let es := if all then r.toList else r.one?.toList
    .ok (Report.of i.asJson
      ((if es.isEmpty then ["No match for " ++ pattern] else []) ++ es.map (entityLine w))
      [("pattern", .str pattern), ("scope", .ofOption i.scope), ("count", .ofNat es.length),
        ("entities", entityRecords w es)])

def showPattern (i : Invocation) (pattern : String) : Except Fault Report :=
  match Pattern.parse pattern with
  | .error why => .error (.parse why)
  | .ok p =>
    let shape := if p.isSingle then "single" else "list"
    .ok (Report.of i.asJson ["Canonical: " ++ p.write, "Result:    " ++ shape]
      [("canonical", .str p.write), ("result", .str shape),
        ("steps", .ofNat p.suffixes.length)])

/-- The predicates that clauses spell, up to the first that spells none. -/
def predicates (clauses : List String) : Except Fault (List Predicate) :=
  (clauses.mapM Predicate.ofClause?).mapError .parse

def showView (i : Invocation) (w : World) (s : StoreId) (query : Query) (kind : String)
    (offset limit : Nat) : Report :=
  let rows := query.rows w s
  let es := View.slice rows offset limit
  let total := rows.length
  Report.of i.asJson
    ((kind ++ " " ++ toString (min offset total)
      ++ ".." ++ toString (min (offset + es.length) total)
      ++ " of " ++ toString total) :: es.map fun e ↦ "  " ++ entityLine w e)
    [("kind", .str kind), ("offset", .ofNat offset), ("limit", .ofNat limit),
      ("total", .ofNat total), ("items", entityRecords w es)]

def showStats (i : Invocation) (w : World) (id : StateId) : Report :=
  let counts := w.counts (w.state id).store
  let focused := w.focused id
  Report.of i.asJson
    (["dapgraph Snapshot Status", "========================",
        "Snapshot: " ++ Text.quoted i.snapshot, "",
        "Entities: " ++ toString counts.entities, "Edges:    " ++ toString counts.edges]
      ++ counts.kinds.map (fun (kind, n) ↦ "  " ++ padded 12 kind ++ " " ++ toString n)
      ++ if focused.isEmpty then [] else ["", "Focus:    " ++ " > ".intercalate focused])
    [("snapshot", .str i.snapshot), ("entity_count", .ofNat counts.entities),
      ("edge_count", .ofNat counts.edges),
      ("kinds", .record (counts.kinds.map fun (kind, n) ↦ (kind, .ofNat n))),
      ("focus", .ofStrings focused)]

/-- Focuses an entity. Only what is focused for all is saved. -/
def focusEntity [Dispatch] (i : Invocation) (id : StateId) (uri : Uri) : Act Report := do
  let isFocused ← match i.scope with
    | some scope => Focus.focusIn id scope uri
    | none => Focus.focus id uri
  let w ← get
  let report := Report.of i.asJson
    [if isFocused then "Focused " ++ uri else uri ++ " is missing or not a focusable type"]
    [("uri", .str uri), ("focused", .bool isFocused), ("focus", .ofStrings (w.focused id))]
  return { report with
    save := if isFocused && i.scope.isNone then some (i.snapshot, w.capture id true) else none }

def showToggled (i : Invocation) (l : Location) (action : String) (uri : Option Uri) : Report :=
  Report.of i.asJson
    ["Breakpoint " ++ action ++ " at " ++ l.display ++ uri.elim "" fun uri ↦ " (" ++ uri ++ ")"]
    [("location", .str l.display), ("action", .str action), ("uri", .ofOption uri)]

def toggleBreakpoint [Dispatch] (i : Invocation) (id : StateId) (l : Location) :
    Act (Except Fault Report) := do
  match ← Task.toggleNow 0 id l with
  | some (.error why) => return .error why
  | some (.ok toggled) =>
    let w ← get
    let saved := some (i.snapshot, w.capture id true)
    return .ok (match toggled with
      | .added e => { showToggled i l "added" (some e.uri) with save := saved }
      | .removed uri => { showToggled i l "removed" (some uri) with save := saved }
      | .rejected => showToggled i l "rejected" none)
  | none => return .ok (showToggled i l "rejected" none)

def convertTo (i : Invocation) (w : World) (id : StateId) (output : String) : Report :=
  let snapshot := w.capture id true
  let entities := snapshot.entities.length
  let edges := snapshot.edges.length
  let report := Report.of i.asJson
    ["Wrote " ++ toString entities ++ " entities and " ++ toString edges ++ " edges to "
      ++ Text.quoted output]
    [("input", .str i.snapshot), ("output", .str output), ("entities", .ofNat entities),
      ("edges", .ofNat edges)]
  { report with save := some (output, snapshot) }

/-- Carries out a command on a debug state. -/
def run [Dispatch] (i : Invocation) (c : Config) (id : StateId) : Act (Except Fault Report) := do
  let w ← get
  match i.command with
  | .resolve pattern all => return showResolution i w id pattern all
  | .parse pattern => return showPattern i pattern
  | .view kind clauses sort descending offset limit =>
    return (predicates clauses).map fun ps ↦
      showView i w (w.state id).store
        (.filter kind ps (sort.map fun field ↦ ⟨field, descending⟩)) kind offset
        (limit.getD c.windowLimit)
  | .stats => return .ok (showStats i w id)
  | .focus uri => return .ok (← focusEntity i id uri)
  | .toggle location => toggleBreakpoint i id location
  | .convert output => return .ok (convertTo i w id output)

/-- How deep calls lie here: a callback is called within a flush, and itself only tells the
store. -/
def depth : Nat := 8

end Command

namespace Invocation

/-- Carries out an invocation on what was loaded. Nothing comes of it only if calls lie deeper than
they can. -/
def perform (i : Invocation) (c : Config) (loaded : Option Snapshot) :
    Option (Except Fault Report) :=
  letI := dispatch Command.depth
  let (id, w) := World.empty.addState c.schema
  let act : Act (Except Fault Report) := do
    let restored ← match loaded with
      | some snapshot => snapshot.restore id true
      | none => pure (.ok ())
    match restored with
    | .error why => return .error why
    | .ok () => Command.run i c id
  match act w with
  | .ok r _ => some r
  | .error _ _ => none

/-- The configuration that the contents of a file spell. -/
def configOf (path : String) (content : Bytes) : Except Fault Config :=
  match content.text? with
  | none => .error (.file (.settings path .notText))
  | some text =>
    match Config.parse? text with
    | none => .error (.damaged (.badTomlFile path))
    | some c => .ok c

/-- The configuration of an invocation: the one it names, else the usual one, else none. -/
def loadConfig (i : Invocation) (usual : Option String) (files : Files) : Except Fault Config :=
  match i.config.or usual with
  | none => .ok .empty
  | some path =>
    match files.find path with
    | .error why => .error (.file (.settings path why))
    | .ok .directory => .error (.file (.settings path .isDirectory))
    | .ok (.file content) => configOf path content

/-- The snapshot an invocation starts from; a file that is not there is an empty one. -/
def loadSnapshot (i : Invocation) (files : Files) : Except Fault (Option Snapshot) :=
  if files.existsAt i.snapshot then (Snapshot.load files i.snapshot).map some else .ok none

/-- The text of a report and the files after what it saves. -/
def saveReport (files : Files) (r : Report) : Except Fault (String × Files) :=
  match r.save with
  | none => .ok (r.text, files)
  | some (path, snapshot) => (snapshot.save files path).map (r.text, ·)

/-- Carries out an invocation on files. -/
def execute (i : Invocation) (usual : Option String) (files : Files) :
    Option (Except Fault (String × Files)) :=
  match i.loadConfig usual files with
  | .error why => some (.error why)
  | .ok c =>
    match i.loadSnapshot files with
    | .error why => some (.error why)
    | .ok loaded => (i.perform c loaded).map (·.bind (saveReport files))

end Invocation

end LiveGraph
