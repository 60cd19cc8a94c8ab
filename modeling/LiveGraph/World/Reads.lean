import LiveGraph.Reactive.Tracking

/-!
# Reads

What can be read off a world, together with the topics it was read from: signals, and the clocks
that stand for parts of a store. A reading changes nothing; carried out as an act, it records its
topics with the evaluation it is part of.
-/

namespace LiveGraph

inductive Topic
  | clock (store : StoreId) (key : ClockKey)
  | signal (id : SignalId)
  deriving DecidableEq, Repr

/-- A reading, and what was read for it in order. -/
def Reads (α : Type) : Type := World → α × List Topic

namespace Reads

instance : Monad Reads where
  pure a := fun _ ↦ (a, [])
  bind r f := fun w ↦
    match r w with
    | (a, first) =>
      match f a w with
      | (b, later) => (b, first ++ later)

/-- What is read, without what it was read from. -/
def value {α : Type} (r : Reads α) (w : World) : α :=
  (r w).1

/-- What it is read from, in order. -/
def topics {α : Type} (r : Reads α) (w : World) : List Topic :=
  (r w).2

@[simp] theorem value_pure {α : Type} (a : α) (w : World) : (pure a : Reads α).value w = a := rfl

@[simp] theorem value_bind {α β : Type} (r : Reads α) (f : α → Reads β) (w : World) :
    (r >>= f).value w = (f (r.value w)).value w := rfl

@[simp] theorem topics_pure {α : Type} (a : α) (w : World) :
    (pure a : Reads α).topics w = [] := rfl

@[simp] theorem topics_bind {α β : Type} (r : Reads α) (f : α → Reads β) (w : World) :
    (r >>= f).topics w = r.topics w ++ (f (r.value w)).topics w := rfl

/-- Reads from one topic. -/
def of {α : Type} (topic : Topic) (f : World → α) : Reads α := fun w ↦ (f w, [topic])

/-- Reads without a topic. -/
def peek {α : Type} (f : World → α) : Reads α := fun w ↦ (f w, [])

def signal (id : SignalId) : Reads Value :=
  of (.signal id) (·.valueOf id)

end Reads

namespace World

/-- Records that a topic was read. A clock starts when it is first read within an evaluation. -/
def observe (w : World) : Topic → World
  | .signal id => w.track (.signal id)
  | .clock s key =>
    if w.isTracking then
      match (w.store s).clocks.get? key with
      | some id => w.track (.signal id)
      | none =>
        let (id, w) := w.addSignal (.int 0) .same .clock
        let w := w.modifyStore s fun s ↦ { s with clocks := s.clocks.insert key id }
        w.track (.signal id)
    else w

end World

/-- Reads, and records the topics. -/
def Reads.run {α : Type} (r : Reads α) : Act α := do
  let w ← get
  let (a, topics) := r w
  set (topics.foldl World.observe w)
  return a

namespace Store

/-- The live entity at a URI. -/
def lookup (s : StoreId) (uri : Uri) : Reads (Option EntityRef) :=
  .of (.clock s (.presence uri)) (·.find? s uri)

/-- The live entities at some URIs, without those where there is none. -/
def lookupAll (s : StoreId) : List Uri → Reads (List EntityRef)
  | [] => pure []
  | uri :: rest => do
    let e ← lookup s uri
    let es ← lookupAll s rest
    return e.toList ++ es

/-- The live entities of a type, oldest first. -/
def entitiesOf (s : StoreId) (kind : String) : Reads (List EntityRef) :=
  .of (.clock s (.kind kind)) (·.entitiesOf s kind)

def targets (s : StoreId) (uri : Uri) (kind : String) : Reads (List Uri) :=
  .of (.clock s (.targets uri kind)) fun w ↦ (w.store s).edges.targets uri kind

def sources (s : StoreId) (uri : Uri) (kind : String) : Reads (List Uri) :=
  .of (.clock s (.sources uri kind)) fun w ↦ (w.store s).edges.sources uri kind

/-- The entities filed under a key, oldest first; none in an unknown index. -/
def filed (s : StoreId) (index : String) (key : Value) : Reads (List EntityRef) :=
  .of (.clock s (.index index)) fun w ↦
    (((w.store s).indices.get? index).elim [] (·.all key)).filterMap (w.find? s)

/-- The oldest entity filed under a key. -/
def firstFiled (s : StoreId) (index : String) (key : Value) : Reads (Option EntityRef) :=
  .of (.clock s (.index index)) fun w ↦
    (((w.store s).indices.get? index).bind (·.first? key)).bind (w.find? s)

end Store

namespace Entity

/-- A property; for one that is absent, what is read is which properties there are. -/
def read (e : EntityRef) (prop : String) : Reads Value := fun w ↦
  match (w.entity e).props.get? prop with
  | some id => Reads.signal id w
  | none => (.nil, [.signal (w.entity e).shape])

end Entity

end LiveGraph
