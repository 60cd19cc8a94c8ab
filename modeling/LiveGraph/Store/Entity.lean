import LiveGraph.Reactive.Signal
import LiveGraph.World.Reads

/-!
# Writing entities

A property is a signal with a first watcher that tells the store of each change, which then files
the entity anew and tells its listeners. An entity that was removed takes no more writes.
-/

namespace LiveGraph

namespace Store

/-- Counts a change of a part of a store, for those who read it. -/
def bump [Dispatch] (s : StoreId) (key : ClockKey) : Act Unit := do
  match ((← get).store s).clocks.get? key with
  | some id => Signal.advance id
  | none => pure ()

def bumpAll [Dispatch] (s : StoreId) : List ClockKey → Act Unit
  | [] => pure ()
  | key :: rest => do
    bump s key
    bumpAll s rest

end Store

namespace World

/-- The key an entity has by an extractor. -/
def keyOf? (w : World) (x : Extractor) (e : EntityRef) : Option Value :=
  x (w.property? e)

/-- One index with the entity where it belongs now; nothing if it is there already, or if the index
is over another type. -/
def replaced? (w : World) (e : EntityRef) (x : Index) : Option Index :=
  if x.kind = w.kindOf e then x.place? (w.uriOf e) e.serial (w.keyOf? x.extractor e) else none

/-- Files an entity anew in all indices; tells which of them have changed. -/
def reindex (w : World) (e : EntityRef) : List String × World :=
  let moved := (w.store e.store).indices.toList.filterMap fun (name, x) ↦
    (w.replaced? e x).map (name, ·)
  (moved.map (·.1), w.modifyStore e.store fun s ↦
    { s with indices := moved.foldl (fun m (name, x) ↦ m.insert name x) s.indices })

/-- Whether an entity is the one its store has at its URI. -/
def isCurrent (w : World) (e : EntityRef) : Bool :=
  (w.store e.store).live.get? (w.uriOf e) = some e.serial

/-- Adds a property signal, with the watcher that tells the store. -/
def addProperty (w : World) (e : EntityRef) (prop : String) (value : Value) :
    SignalId × World :=
  let (id, w) := w.addSignal value .same (.entity e)
  let w := (w.subscribe (.signal id) (.property e prop)).2
  (id, w.modifyEntity e fun x ↦ { x with props := x.props.insert prop id })

/-- Ends an entity and its property signals; they stay readable. -/
def retire (w : World) (e : EntityRef) : World :=
  let x := w.entity e
  let w := w.modifyEntity e fun x ↦ { x with live := false }
  (x.props.values.foldl disposeSignal w).disposeSignal x.shape

end World

namespace Entity

/-- What follows from a changed property: the indices, then the listeners of the store. -/
def propertyChanged [Dispatch] (e : EntityRef) (prop : String) : Act Unit := do
  if (← get).isCurrent e then
    batch do
      let touched ← modifyGet (·.reindex e)
      Store.bumpAll e.store (touched.map .index)
      notify (.store e.store .updated) (.property e prop)

/-- Adds a property and gives its signal; one that is there already is left as it is. -/
def define [Dispatch] (e : EntityRef) (prop : String) (value : Value) :
    Act (Except Fault SignalId) := do
  let x := (← get).entity e
  if !x.live then return .error .disposed
  match x.props.get? prop with
  | some id => return .ok id
  | none =>
    let id ← modifyGet (·.addProperty e prop value)
    Signal.advance x.shape
    if (← get).isStoreHeld e.store then propertyChanged e prop
    return .ok id

/-- Writes a property, adding it if need be. -/
def set [Dispatch] (e : EntityRef) (prop : String) (value : Value) : Act (Except Fault Unit) := do
  let x := (← get).entity e
  if !x.live then return .error .disposed
  match x.props.get? prop with
  | some id => Signal.set id value
  | none => return (← define e prop value).map fun _ ↦ ()

/-- Writes several properties one after the other, up to the first that is refused. -/
def setAll [Dispatch] (e : EntityRef) : List (String × Value) → Act (Except Fault Unit)
  | [] => return .ok ()
  | (prop, value) :: rest => do
    match ← set e prop value with
    | .ok () => setAll e rest
    | .error why => return .error why

end Entity

end LiveGraph
