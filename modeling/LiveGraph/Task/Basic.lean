import LiveGraph.Breakpoint.Basic

/-!
# Tasks

Work that waits: for its turn at a lock, then for someone to open it. A task goes on only when it is
polled, and as far as it can; what it was about may have changed meanwhile.
-/

namespace LiveGraph

namespace World

/-- The entity a token names, if that very incarnation is still in its store. -/
def alive? (w : World) (l : Liveness) : Option EntityRef :=
  if w.isStoreHeld l.store then
    (w.find? l.store l.uri).filter fun e ↦ e.serial = l.serial && (w.entity e).live
  else none

def livenessOf (w : World) (e : EntityRef) : Liveness :=
  ⟨e.store, w.uriOf e, e.serial⟩

/-- The line a task stands in. -/
def modifyLocks (w : World) (t : Task) (f : KeyedMutex → String → KeyedMutex) : World :=
  match t.work with
  | .toggle id l _ => w.modifyState id fun s ↦ { s with locks := f s.locks l.path }
  | .lock key => w.modifySession fun s ↦ { s with locks := f s.locks key }
  | .load _ _ _ _ => w

def joinLine (w : World) (t : Task) : World :=
  w.modifyLocks t fun locks key ↦ locks.join key t.claim

/-- Drops a task: it leaves its line, and a lock it held goes to the next. -/
def leaveLine (w : World) (t : Task) : World :=
  if t.claimed then w.modifyLocks t fun locks key ↦ locks.leave key t.claim else w

/-- Whether a task has the lock it needs. -/
def hasTurn (w : World) (t : Task) : Bool :=
  match t.work with
  | .toggle id l _ => (w.state id).locks.isHolder l.path t.claim
  | .lock key => w.session.locks.isHolder key t.claim
  | .load _ _ _ _ => true

/-- What a task was opened with, if it was. -/
def opening? (w : World) (name : String) : Option Opening :=
  (w.session.openings.get? name).join

end World

/-- What a task came to when it was polled. -/
inductive Progress
  | waiting (t : Task)
  | done (o : Outcome)

namespace Task

/-- Writes what was loaded: known children are updated, others added, and each is linked to the
parent. -/
def link [Dispatch] (s : StoreId) (edge : String) (parent : EntityRef) :
    List EntitySpec → List EntityRef → Act (Except Fault (List EntityRef))
  | [], children => return .ok children
  | spec :: rest, children => do
    let child ← match (← get).find? s spec.uri with
      | some e => pure ((← Store.update s spec.uri spec.props).map fun _ ↦ e)
      | none => Store.add s spec
    match child with
    | .error why => return .error why
    | .ok child =>
      let w ← get
      let _ ← Store.link s ⟨edge, w.uriOf child, w.uriOf parent⟩ false
      link s edge parent rest (children ++ [child])

/-- Takes loaded children in, as one change, unless the parent is gone. -/
def takeIn [Dispatch] (s : StoreId) (parent : Liveness) (edge : String)
    (specs : List EntitySpec) : Act (Except Fault (List Uri)) := do
  match (← get).alive? parent with
  | none => return .ok []
  | some e =>
    let children ← batch (link s edge e specs [])
    let w ← get
    return children.map (·.map w.uriOf)

/-- Waits in line until the lock is there. -/
def queueUp (t : Task) : Act Task := do
  if t.claimed then return t
  modify (·.joinLine t)
  return { t with claimed := true }

/-- What a toggle does while it has the lock: it looks the breakpoint up and asks, once, and waits
for the verdict. -/
def toggle [Dispatch] (name : String) (t : Task) (id : StateId) (l : Location)
    (found : Option (Option EntityRef)) : Act Progress := do
  let w ← get
  let target := found.getD ((Breakpoint.find (w.state id).store l).value w)
  if found.isNone then modify (·.note (.asked name))
  match w.opening? name with
  | none => return .waiting { t with work := .toggle id l (some target) }
  | some (.verdict true) => return .done (.toggled (← Breakpoint.carryOut id l target))
  | some _ => return .done (.toggled (.ok .rejected))

/-- Goes on with a task as far as it can. A task that ends gives its lock back, unless the lock was
what it was for. -/
def advance [Dispatch] (name : String) (t : Task) : Act Progress := do
  match t.work with
  | .lock key =>
    let t ← queueUp t
    return if (← get).hasTurn t then .done (.locked key) else .waiting t
  | .toggle id l found =>
    let t ← queueUp t
    if (← get).hasTurn t then
      let progress ← (toggle name t id l found).orElse (·.leaveLine t)
      match progress with
      | .waiting t => return .waiting t
      | .done o =>
        modify (·.leaveLine t)
        return .done o
    else return .waiting t
  | .load s parent edge fetched =>
    if !fetched then modify (·.note (.fetching name))
    match (← get).opening? name with
    | none => return .waiting { t with work := .load s parent edge true }
    | some (.children specs) => return .done (.loaded (← takeIn s parent edge specs))
    | some (.verdict _) => return .done (.loaded (← takeIn s parent edge []))

/-- Toggles at once: one try, which is given up if the lock is not free. -/
def toggleNow [Dispatch] (claim : Nat) (id : StateId) (l : Location) :
    Act (Option (Except Fault Toggled)) := do
  let t : Task := ⟨claim, true, .toggle id l none⟩
  modify (·.joinLine t)
  let act : Act (Option (Except Fault Toggled)) := do
    let w ← get
    if w.hasTurn t then
      let target := (Breakpoint.find (w.state id).store l).value w
      return some (← Breakpoint.carryOut id l target)
    else return none
  act.followedBy (·.leaveLine t)

end Task

end LiveGraph
