import LiveGraph.Proofs.Network.Telling

/-!
# Sheets of signals and derived values

Signals, and derived values whose functions are pure, as in a network. But an evaluation may read other
sources than the one before, and derived values may read each other in a circle. Code writes and reads,
watches, ends subscriptions and ends sources. Each subscription has a name of its own, and it is written down
under that name when it is told a value, and also when its source gets another value that it has to be told.
-/

namespace LiveGraph

/-- What signals there are at first, and what derived values. -/
structure Sheet where
  initial : List (Value × Equality)
  count : Nat
  reading : DerivedId → Reading
  equality : DerivedId → Equality

namespace Source

/-- Reads a source, whatever the answer. -/
def read [Dispatch] : Source → Act Unit
  | signal id => do let _ ← Signal.read id
  | derived id => do let _ ← Derived.read id

def watch [Dispatch] (callback : Callback) : Source → Act Subscription
  | signal id => Signal.watch id callback
  | derived id => Derived.watch id callback

def dispose : Source → Act Unit
  | signal id => modify (·.disposeSignal id)
  | derived id => Derived.dispose id

theorem channel_injective : Function.Injective channel := by
  intro s s' h
  cases s <;> cases s' <;> simp_all [channel]

end Source

namespace World

/-- Whether a source gets another value by what is written or was computed. A first value replaces none, and
what was computed in a circle is not kept. -/
def alters (w : World) (d : Datum) : Source → Bool
  | .signal id => !(w.signal id).disposed && !(w.signal id).equality.holds (.value (w.valueOf id)) d
  | .derived id => !(w.frames.headD default).cyclic &&
      (w.derived id).value.any fun previous ↦ !(w.derived id).equality.holds previous d

/-- Writes down who has to be told that a source changes. -/
def owe (w : World) (s : Source) : World :=
  w.modifySession fun x ↦ { x with
    notes := ((w.watchers s.channel).entries.map fun e ↦ Note.asked e.2.title) ++ x.notes }

def announce (w : World) (s : Source) (d : Datum) : World :=
  if w.alters d s then w.owe s else w

/-- What a name stands for from now on. -/
def entitle (w : World) (name : String) (subscription : Subscription) : World :=
  w.modifySession fun x ↦ { x with subscriptions := x.subscriptions.insert name subscription }

end World

/-- What code can do with the sources of a sheet. -/
inductive Deed
  | write (id : SignalId) (v : Value)
  | read (s : Source)
  | watch (s : Source) (name : String)
  | unwatch (s : Source) (id : Nat)
  | dispose (s : Source)

namespace Deed

def target : Deed → Source
  | write id _ => .signal id
  | read s => s
  | watch s _ => s
  | unwatch s _ => s
  | dispose s => s

/-- Carries out a deed. A name that stands for a subscription, or is about to, is not given to another one. -/
def carryOut [Dispatch] : Deed → Act Unit
  | write id v => do
    modify (·.announce (.signal id) (.value v))
    let _ ← Signal.set id v
  | read s => s.read
  | watch s name => do
    if !(← get).session.subscriptions.contains name then
      modify (·.entitle name none)
      let subscription ← s.watch (.script name .every [])
      modify (·.entitle name subscription)
  | unwatch s id => modify (·.unsubscribe (some (s.channel, id)))
  | dispose s => s.dispose

/-- Code can only mean what there is. -/
def perform [Dispatch] (deed : Deed) : Act Unit := do
  if (← get).has deed.target then deed.carryOut

end Deed

namespace Sheet

/-- Everything is kept by who uses the sheet. -/
def handles (sheet : Sheet) : List Pin :=
  (List.range sheet.initial.length).map .signal ++ (List.range sheet.count).map .derived

/-- The sheet before anything is computed. -/
def start (sheet : Sheet) : World where
  signals := (sheet.initial.map fun (v, equality) ↦
    ⟨v, equality, .handles, .empty, [], false, false⟩).toArray
  deriveds := ((List.range sheet.count).map fun id ↦ ⟨default, sheet.equality id, none, true, false, false, 1,
    [], [], .empty, false, false, false⟩).toArray
  stores := #[]
  views := #[]
  states := #[]
  depth := 0
  flushing := false
  queue := []
  effects := []
  frames := []
  pins := sheet.handles
  session := default

/-- Calls and computations to a given depth. Callbacks carry out the code of their name. -/
@[reducible]
def dispatch (sheet : Sheet) (react : String → Event → Client Deed) : Nat → Dispatch
  | 0 => ⟨0, fun _ _ ↦ throw .rounds, fun _ ↦ throw .rounds⟩
  | n + 1 =>
    { rounds := n
      call := fun callback event ↦
        letI := dispatch sheet react n
        match callback with
        | .script name _ _ => do
          modify fun w ↦ w.note (event.note w name)
          (react name event).run Deed.perform
        | callback => callback.run event
      compute := fun id ↦
        letI := dispatch sheet react n
        do
          let d ← (sheet.reading id).run acceptAll
          modify (·.announce (.derived id) d)
          return d }

/-- What a subscription was told last, if anything; the notes are in order from the latest on. -/
def lastTold (name : String) (notes : List Note) : Option Datum :=
  notes.findSome? fun
    | .value name' d => if name' = name then some d else none
    | _ => none

end Sheet

end LiveGraph
