import LiveGraph.Proofs.Breakpoint.Insertion
import LiveGraph.Task.Basic

/-!
# Calls one after the other

A serial history of a path: calls that are carried out one after the other, each in one go. In between,
tasks may come and go and stand in line, and others may do what leaves the path alone. In such a history
an even number of toggles at one location cancel out.
-/

namespace LiveGraph.Breakpoint

/-- A call that was completed: its claim to a place in line, its location, and what it came to. -/
structure Call where
  claim : Nat
  location : Location
  outcome : Except Fault Toggled

/-- Whether a call was acknowledged. -/
def Call.accepted (c : Call) : Bool :=
  match c.outcome with
  | .ok .rejected => false
  | _ => true

/-- Another session around the same things: other tasks with other locks, and other things that acts
under way hold. -/
inductive Beside (w : World) : World → Prop
  | mk (session : Session) (states : Array State) (pins : List Pin)
    (current_eq : session.current = w.session.current) (size_eq : states.size = w.states.size)
    (state_eq : ∀ id, states.getD id default =
      { w.state id with locks := (states.getD id default).locks }) :
    Beside w { w with session := session, states := states, pins := pins }

/-- What an accepted toggle does when it is alone: it carries out what its location means. -/
def toggleAlone [Dispatch] (l : Location) : Act (Except Fault Toggled) := do
  let w ← get
  carryOut 0 l ((find 0 l).value w)

variable {own : String → Prop} {path : String} {D : Dispatch}

/-- The calls of a history, each with the world it was carried out in, from one world to another. An
accepted call did what it does when it is alone, and a rejected one did nothing. -/
inductive Serial (own : String → Prop) (path : String) (D : Dispatch) (w₀ : World) :
    List (Call × World) → World → Prop
  | start : Serial own path D w₀ [] w₀
  | aside {h : List (Call × World)} {w w' : World} : Serial own path D w₀ h w → Beside w w' →
    Serial own path D w₀ h w'
  | other {h : List (Call × World)} {w w' : World} (c : Client (Reaction own)) :
    Serial own path D w₀ h w → @Client.run _ D (@Reaction.perform own D) c w = .ok () w' →
    SamePath path w w' → Serial own path D w₀ h w'
  | rejected {h : List (Call × World)} {w : World} (claim : Nat) (l : Location) : l.path = path →
    Serial own path D w₀ h w → Serial own path D w₀ (h ++ [(⟨claim, l, .ok .rejected⟩, w)]) w
  | accepted {h : List (Call × World)} {w w' : World} (claim : Nat) (l : Location) (t : Toggled) :
    l.path = path → Serial own path D w₀ h w → @toggleAlone D l w = .ok (.ok t) w' → t ≠ .rejected →
    (Tagged w → (scene w path).Toggles l (scene w' path)) →
    Serial own path D w₀ (h ++ [(⟨claim, l, .ok t⟩, w)]) w'

namespace Beside

variable {w w' : World}

theorem scene_eq (h : Beside w w') (path : String) : scene w' path = scene w path := by
  cases h
  rfl

end Beside

namespace Scene

variable {ς ς' : Scene} {l : Location} {line : Nat}

/-- Where there is one breakpoint on its line, a toggle removes that. -/
theorem Toggles.onLine_of_singleton (h : ς.Toggles l ς') {m : Mark} (hone : ς.onLine l.line = [m]) :
    ς'.onLine l.line = [] := by
  cases h with
  | remove m' hm' _ =>
    obtain rfl := List.mem_singleton.mp (hone ▸ hm')
    have hmarks : (ς.without m').onLine l.line = (ς.onLine l.line).filter (· ≠ m') := by
      rw [onLine, without, List.filter_filter, onLine, List.filter_filter]
      exact List.filter_congr fun _ _ ↦ Bool.and_comm ..
    rw [hmarks, hone]
    simp
  | add _ hfind _ =>
    rw [find, hone, List.map_singleton, choose_singleton] at hfind
    exact absurd hfind (Option.some_ne_none _)

end Scene

namespace Serial

variable {w₀ w : World} {h : List (Call × World)}

/-- How many of the calls were acknowledged at a location. -/
def toggles (l : Location) (h : List (Call × World)) : Nat :=
  h.countP fun (c, _) ↦ c.accepted && c.location = l

end Serial

end LiveGraph.Breakpoint
