import Mathlib
import LiveGraph.Proofs.Client.Basic

/-!
# Networks of signals and derived values

Signals, and derived values whose functions are pure. A function is a tree: what it reads next and what it
comes to depend on the answers so far and on nothing else. All its evaluations read the same sources, and no
derived value is a source of itself, be it through others. Code writes and reads signals, reads derived
values, and watches both.
-/

namespace LiveGraph

/-- A pure function: what it comes to, or what it reads and how it goes on from the answer. -/
inductive Reading
  | done (d : Datum)
  | signal (id : SignalId) (next : Value → Reading)
  | derived (id : DerivedId) (next : Except Fault Datum → Reading)

/-- Which answers an evaluation goes on from. -/
abbrev Acceptance : Type :=
  Source → Except Fault Datum → Bool

namespace Reading

/-- Some evaluation reads these sources one after the other. Each answer may be any value. -/
inductive Asks : Reading → List Source → Prop
  | done (d : Datum) : Asks (.done d) []
  | signal {id : SignalId} {next : Value → Reading} {ss : List Source} (v : Value)
      (rest : Asks (next v) ss) : Asks (.signal id next) (.signal id :: ss)
  | derived {id : DerivedId} {next : Except Fault Datum → Reading} {ss : List Source} (d : Datum)
      (rest : Asks (next (.ok d)) ss) : Asks (.derived id next) (.derived id :: ss)

/-- Some evaluation comes to an end. -/
theorem exists_asks (r : Reading) : ∃ ss, r.Asks ss := by
  induction r with
  | done d => exact ⟨[], .done d⟩
  | signal id next ih =>
    obtain ⟨ss, hss⟩ := ih .nil
    exact ⟨.signal id :: ss, .signal .nil hss⟩
  | derived id next ih =>
    obtain ⟨ss, hss⟩ := ih (.ok default)
    exact ⟨.derived id :: ss, .derived default hss⟩

/-- Evaluates a function. If it gets an answer that is not accepted, then it never comes back. -/
def run [Dispatch] (accept : Acceptance) : Reading → Act Datum
  | done d => return d
  | signal id next => do
    let v ← Signal.read id
    if accept (.signal id) (.ok (.value v)) then run accept (next v) else throw .rounds
  | derived id next => do
    let answer ← Derived.read id
    if accept (.derived id) answer then run accept (next answer) else throw .rounds

end Reading

/-- Accepts whatever is answered. -/
def acceptAll : Acceptance := fun _ _ ↦ true

/-- What signals there are at first, and what derived values. The sources of a function are those that each
of its evaluations reads. -/
structure Network where
  initial : List (Value × Equality)
  count : Nat
  reading : DerivedId → Reading
  equality : DerivedId → Equality
  name : DerivedId → String
  name_injective : Function.Injective name
  sources : DerivedId → List Source
  asks_iff : ∀ id ss, (reading id).Asks ss → ∀ s, s ∈ ss ↔ s ∈ sources id
  signal_lt : ∀ d < count, ∀ id, .signal id ∈ sources d → id < initial.length
  derived_lt : ∀ d < count, ∀ id, .derived id ∈ sources d → id < count
  acyclic : WellFounded fun e d ↦ Source.derived e ∈ sources d

/-- Where the callbacks of a source are registered. -/
def Source.channel : Source → Channel
  | .signal id => .signal id
  | .derived id => .derived id

namespace World

/-- Whether there is the source that is meant. -/
def has (w : World) : Source → Bool
  | .signal id => id < w.signals.size
  | .derived id => id < w.deriveds.size

/-- What a source holds; a derived value that was never computed holds nothing. -/
def content (w : World) : Source → Option Datum
  | .signal id => some (.value (w.valueOf id))
  | .derived id => (w.derived id).value

/-- Whether a derived value was computed before. -/
def Evaluated (w : World) (id : DerivedId) : Prop :=
  (w.derived id).value.isSome

/-- Nothing but what the world holds is sure to be accepted. -/
def Accepted (w : World) (accept : Acceptance) : Prop :=
  ∀ s d, w.content s = some d → accept s (.ok d) = true

end World

/-- What code can do without writing. -/
inductive Glance
  | read (s : Source)
  | watch (s : Source) (name : String)
  | unwatch (s : Source) (id : Nat)

namespace Glance

def target : Glance → Source
  | read s => s
  | watch s _ => s
  | unwatch s _ => s

/-- Reads a source, or watches it, or ends a subscription. -/
def carryOut [Dispatch] : Glance → Act Unit
  | read (.signal id) => do let _ ← Signal.read id
  | read (.derived id) => do let _ ← Derived.read id
  | watch (.signal id) name => do let _ ← Signal.watch id (.script name .every [])
  | watch (.derived id) name => do let _ ← Derived.watch id (.script name .every [])
  | unwatch s id => modify (·.unsubscribe (some (s.channel, id)))

/-- Code can only mean what there is. -/
def perform [Dispatch] (g : Glance) : Act Unit := do
  if (← get).has g.target then g.carryOut

end Glance

/-- What code can do. -/
inductive Use
  | write (id : SignalId) (v : Value)
  | glance (g : Glance)

def Use.perform [Dispatch] : Use → Act Unit
  | write id v => do
    if (← get).has (.signal id) then
      let _ ← Signal.set id v
  | glance g => g.perform

namespace Network

/-- Everything is kept by who uses the network. -/
def handles (net : Network) : List Pin :=
  (List.range net.initial.length).map .signal ++ (List.range net.count).map .derived

/-- The network before anything is computed. -/
def start (net : Network) : World where
  signals := (net.initial.map fun (v, equality) ↦
    ⟨v, equality, .handles, .empty, [], false, false⟩).toArray
  deriveds := ((List.range net.count).map fun id ↦ ⟨default, net.equality id, none, true, false, false, 1,
    [], [], .empty, false, false, false⟩).toArray
  stores := #[]
  views := #[]
  states := #[]
  depth := 0
  flushing := false
  queue := []
  effects := []
  frames := []
  pins := net.handles
  session := default

/-- Calls and computations to a given depth. Callbacks carry out the code of their name, and it is written
down when one is told and when a function is evaluated. -/
@[reducible]
def dispatch (net : Network) (react : String → Event → Client Use) (accept : Acceptance) : Nat → Dispatch
  | 0 => ⟨0, fun _ _ ↦ throw .rounds, fun _ ↦ throw .rounds⟩
  | n + 1 =>
    { rounds := n
      call := fun callback event ↦
        letI := dispatch net react accept n
        match callback with
        | .script name _ _ => do
          modify fun w ↦ w.note (event.note w name)
          (react name event).run Use.perform
        | callback => callback.run event
      compute := fun id ↦
        letI := dispatch net react accept n
        do
          modify (·.note (.computed (net.name id)))
          (net.reading id).run accept }

end Network

/-- Code that reads and writes signals and comes to an end. -/
inductive Writing
  | done
  | look (next : World → Writing)
  | read (id : SignalId) (next : Writing)
  | write (id : SignalId) (v : Value) (next : Writing)
  | batch (body next : Writing)

def Writing.code : Writing → Client Use
  | done => .done
  | look next => .look fun w ↦ (next w).code
  | read id next => .act (.glance (.read (.signal id))) next.code
  | write id v next => .act (.write id v) next.code
  | batch body next => .batch body.code next.code

/-- Code that writes nothing and comes to an end, or crashes. -/
inductive Glancing
  | done
  | crash
  | look (next : World → Glancing)
  | act (g : Glance) (next : Glancing)
  | batch (body next : Glancing)

def Glancing.code : Glancing → Client Use
  | done => .done
  | crash => .halt .crash
  | look next => .look fun w ↦ (next w).code
  | act g next => .act (.glance g) next.code
  | batch body next => .batch body.code next.code

end LiveGraph
