import LiveGraph.Breakpoint.Basic
import LiveGraph.Reactive.Derived
import LiveGraph.Resolution
import LiveGraph.Rollup
import LiveGraph.View.Basic

/-!
# Formulas

What a formula comes to in a session. Its operands are computed from left to right, and of a choice
only the branch that is taken; a name that means nothing gives a fault or the unset value.
-/

namespace LiveGraph

namespace World

/-- The session's present debug state. -/
def current (w : World) : State :=
  w.state w.session.current

def currentStore (w : World) : StoreId :=
  w.current.store

def urisOf (w : World) (es : List EntityRef) : Datum :=
  .ofUris (es.map w.uriOf)

end World

namespace Datum

/-- The remainder that is not negative; nothing is left of a division by zero. -/
def remainder (a b : Datum) : Datum :=
  .value (.int (if b.toInt = 0 then 0 else Int64.ofInt (a.toInt.toInt % b.toInt.toInt)))

def ofExcept : Except Fault Datum → Datum
  | .ok d => d
  | .error why => .fault why

end Datum

namespace Formula

/-- The parts of formulas that read stores, the focus or views. -/
def read (f : Formula) : Reads Datum := do
  let w ← Reads.peek id
  let s := w.currentStore
  let names := w.session
  match f with
  | .property uri prop =>
    match ← Store.lookup s uri with
    | some e => return .value (← Entity.read e prop)
    | none => return .nil
  | .handleProperty entity prop =>
    match names.entities.get? entity with
    | some e => return .value (← Entity.read e prop)
    | none => return .nil
  | .contains uri => return .bool (← Store.lookup s uri).isSome
  | .entitiesOf kind => return w.urisOf (← Store.entitiesOf s kind)
  | .targets uri kind => return .ofUris (← Store.targets s uri kind)
  | .sources uri kind => return .ofUris (← Store.sources s uri kind)
  | .firstFiled index key => return .ofUri? ((← Store.firstFiled s index key).map w.uriOf)
  | .filed index key => return w.urisOf (← Store.filed s index key)
  | .resolve pattern scope =>
    match ← LiveGraph.resolve names.current scope pattern with
    | .ok r => return w.urisOf r.toList
    | .error why => return .fault (.parse why)
  | .focus role scope => return .ofUri? (← Focus.read names.current scope role)
  | .items view =>
    match names.views.get? view with
    | some id => return w.urisOf (← View.items id)
    | none => return .nil
  | .total view =>
    match names.views.get? view with
    | some id => return .ofNat (← View.total id)
    | none => return .nil
  | .breakpoints path => return w.urisOf (← Breakpoint.onPath s path)
  | _ => return .nil

def readSignal (name : String) (f : SignalId → Act Value) : Act Datum := do
  match (← get).session.signals.get? name with
  | some id => return .value (← f id)
  | none => return .fault (.noHandle .signal)

mutual

def eval [Dispatch] : Formula → Act Datum
  | .constant d => return d
  | .signal name => readSignal name Signal.read
  | .peek name => readSignal name fun id ↦ Act.peek (·.valueOf id)
  | .derived name => do
    match (← get).session.deriveds.get? name with
    | some id => return .ofExcept (← Act.holding (.derived id) (Derived.read id))
    | none => return .fault (.noHandle .derived)
  | .sum terms => return .value (.int ((← evalAll terms).foldl (fun i d ↦ i + d.toInt) 0))
  | .product factors => return .value (.int ((← evalAll factors).foldl (fun i d ↦ i * d.toInt) 1))
  | .modulo a b => do
    let a ← eval a
    return a.remainder (← eval b)
  | .choose condition yes no => do
    if (← eval condition).isTrue then eval yes else eval no
  | .equal a b => do
    let a ← eval a
    return .bool (a = (← eval b))
  | .list parts => return .list (← evalAll parts)
  | .length f => return .ofNat (← eval f).length
  | .untracked f => (eval f).untracked
  | .crash => throw .crash
  | f => f.read.run

def evalAll [Dispatch] : List Formula → Act (List Datum)
  | [] => return []
  | f :: rest => do
    let d ← eval f
    return d :: (← evalAll rest)

end

end Formula

namespace Compute

/-- Runs the function of a derived value. -/
def run [Dispatch] : Compute → Act Datum
  | .formula name f => do
    modify (·.note (.computed name))
    f.eval
  | .rollup s which uri => (which.read s uri).run

end Compute

end LiveGraph
