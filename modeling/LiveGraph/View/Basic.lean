import LiveGraph.Store.Entity

/-!
# Views

A view keeps every match of its query in order, taken up from the events of the store one entity at
a time; its window is a slice of them. When the window changes, listeners are told who left and who
entered, and at the end of the batch that something changed.
-/

namespace LiveGraph

namespace Query

/-- Whether an entity belongs to what a query selects. -/
def admits (q : Query) (w : World) (e : EntityRef) : Bool :=
  match q with
  | .index name key =>
    (((w.store e.store).indices.get? name).bind (·.keyOf? (w.uriOf e))) = some key
  | .filter _ predicates _ => predicates.all fun p ↦ p.op.holds (w.property e p.field) p.value

/-- What an entity is sorted by; without a sort key all are alike. -/
def sortKey (q : Query) (w : World) (e : EntityRef) : Value :=
  match q with
  | .filter _ _ (some sort) => w.property e sort.field
  | _ => .nil

def isDescending : Query → Bool
  | .filter _ _ (some sort) => sort.descending
  | _ => false

/-- Whether a row stands before another; rows with the same key stand by age. -/
def precedes (q : Query) (a b : Row) : Bool :=
  match if q.isDescending then compare b.key a.key else compare a.key b.key with
  | .lt => true
  | .gt => false
  | .eq => a.entity.serial < b.entity.serial

/-- What a query may select from at all, oldest first. -/
def candidates (q : Query) (s : StoreId) : Reads (List EntityRef) :=
  match q with
  | .index name key => Store.filed s name key
  | .filter kind _ _ => Store.entitiesOf s kind

/-- Puts a row where it belongs among sorted rows. -/
def place (q : Query) (row : Row) (rows : List Row) : List Row :=
  rows.takeWhile (q.precedes · row) ++ row :: rows.dropWhile (q.precedes · row)

def rowOf (q : Query) (w : World) (e : EntityRef) : Row :=
  ⟨q.sortKey w e, e⟩

/-- All matches in order. -/
def rows (q : Query) (w : World) (s : StoreId) : List Row :=
  (((q.candidates s).value w).filter (q.admits w)).foldl
    (fun rows e ↦ q.place (q.rowOf w e) rows) []

end Query

namespace View

/-- The rows from an offset on, as many as the limit allows. -/
def slice (rows : List Row) (offset limit : Nat) : List EntityRef :=
  ((rows.drop offset).take limit).map (·.entity)

def nextWindow (v : View) : List EntityRef :=
  slice v.rows v.offset v.limit

/-- The entities of a view's window; the read is recorded. -/
def items (id : ViewId) : Reads (List EntityRef) := fun w ↦
  Reads.of (.signal (w.view id).version) (fun w ↦ (w.view id).window) w

/-- The number of matches, inside the window and outside. -/
def total (id : ViewId) : Reads Nat := fun w ↦
  Reads.of (.signal (w.view id).version) (fun w ↦ (w.view id).rows.length) w

def picture (w : World) (id : ViewId) : ViewPicture :=
  let v := w.view id
  ⟨v.window.map w.uriOf, v.rows.length, v.offset, v.limit, v.disposed⟩

end View

namespace World

/-- A view over what its query selects now, taking up every later event of its type. -/
def addView (w : World) (s : StoreId) (query : Query) (kind : String) (window : Window) :
    ViewId × World :=
  let id := w.views.size
  let (version, w) := w.addSignal (.int 0) .same (.view id)
  let rows := query.rows w s
  let (added, w) := w.subscribe (.store s .added) (.view id .added)
  let (removed, w) := w.subscribe (.store s .removed) (.view id .removed)
  let (updated, w) := w.subscribe (.store s .updated) (.view id .updated)
  (id, { w with
    views := w.views.push
      ⟨s, query, kind, rows, window.offset, window.limit,
        View.slice rows window.offset window.limit, version, .empty, false,
        [added, removed, updated], false, false⟩ })

end World

namespace View

/-- Opens a view; an index it is over has to be there already. -/
def «open» (s : StoreId) (query : Query) (window : Window) : Act (Except Fault ViewId) := do
  match query with
  | .filter kind _ _ => return .ok (← modifyGet (·.addView s query kind window))
  | .index name _ =>
    match ((← get).store s).indices.get? name with
    | none => return .error (.unknownIndex name)
    | some index => return .ok (← modifyGet (·.addView s query index.kind window))

def tell [Dispatch] (id : ViewId) (what : WindowEvent) : List EntityRef → Act Unit
  | [] => pure ()
  | e :: rest => do
    notify (.view id) (.window what (some e))
    tell id what rest

/-- Takes the window anew and tells the listeners the difference: who left, in the old order, then
who entered, in the new order. -/
def settle [Dispatch] (id : ViewId) : Act Unit := do
  let v := (← get).view id
  let next := v.nextWindow
  modify (·.modifyView id fun v ↦ { v with window := next })
  Signal.advance v.version
  if v.window ≠ next then
    tell id .leave (v.window.filter fun e ↦ !next.contains e)
    tell id .enter (next.filter fun e ↦ !v.window.contains e)
    modify (·.deferView id)

def withoutRow (v : View) (e : EntityRef) : List Row :=
  v.rows.filter fun row ↦ row.entity ≠ e

/-- The matches of a view with one entity taken up anew. -/
def rowsWith (w : World) (id : ViewId) (e : EntityRef) : List Row :=
  let v := w.view id
  if v.query.admits w e then v.query.place (v.query.rowOf w e) (v.withoutRow e)
  else v.withoutRow e

/-- Takes up an entity that was added or changed. -/
def takeUp [Dispatch] (id : ViewId) (e : EntityRef) : Act Unit := do
  modify fun w ↦ w.modifyView id fun v ↦ { v with rows := rowsWith w id e }
  settle id

/-- Leaves out an entity that was removed. -/
def leaveOut [Dispatch] (id : ViewId) (e : EntityRef) : Act Unit := do
  let v := (← get).view id
  if v.rows.any fun row ↦ row.entity = e then
    modify (·.modifyView id fun v ↦ { v with rows := v.withoutRow e })
    settle id

/-- What a view does about an event of its store. -/
def react [Dispatch] (id : ViewId) (what : StoreEvent) (e : EntityRef) : Act Unit := do
  let v := (← get).view id
  if !v.disposed && (v.kind = "*" || v.kind = (← get).kindOf e) then
    Act.holding (.view id) do
      if what = .removed then leaveOut id e else takeUp id e

/-- Moves the window. -/
def scroll [Dispatch] (id : ViewId) (offset : Nat) : Act (Except Fault Unit) := do
  if ((← get).view id).disposed then return .error .disposed
  modify (·.modifyView id fun v ↦ { v with offset := offset })
  batch (settle id)
  return .ok ()

/-- Makes the window longer or shorter. -/
def setLimit [Dispatch] (id : ViewId) (limit : Nat) : Act (Except Fault Unit) := do
  if ((← get).view id).disposed then return .error .disposed
  modify (·.modifyView id fun v ↦ { v with limit := limit })
  batch (settle id)
  return .ok ()

def watch (id : ViewId) (callback : Callback) : Act Subscription := do
  if ((← get).view id).disposed then return none
  modifyGet (·.subscribe (.view id) callback)

end View

end LiveGraph
