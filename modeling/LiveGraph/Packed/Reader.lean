import LiveGraph.Packed.Bytes
import LiveGraph.Packed.Writer

/-!
# Packed snapshots: reading

The reader also takes numbers with more bytes than they need, up to the width of their type, and
leaves bytes after the payload alone. It stops at the first fault in reading order.
-/

namespace LiveGraph.Packed

/-- A reader answers with what it read and the bytes after it. -/
abbrev Reader (α : Type) := Bytes → Except PayloadFault (α × Bytes)

namespace Reader

def andThen {α β : Type} (first : Reader α) (next : α → Reader β) : Reader β := fun b ↦
  match first b with
  | .error fault => .error fault
  | .ok (a, rest) => next a rest

instance : Monad Reader where
  pure a b := .ok (a, b)
  bind := andThen

def fail {α : Type} (fault : PayloadFault) : Reader α := fun _ ↦ .error fault

def byte : Reader UInt8 := fun b ↦
  match b.next? with
  | some read => .ok read
  | none => .error .endOfData

/-- A number of at most `width` bytes, the last of them at most `top`. -/
def numberWithin (top : Nat) : (width : Nat) → Reader Nat
  | 0 => fail .endlessNumber
  | width + 1 => do
    let x ← byte
    if x.toNat < 128 then
      if width = 0 ∧ x.toNat > top then fail .endlessNumber else return x.toNat
    else
      let high ← numberWithin top width
      return x.toNat - 128 + 128 * high

/-- A number of 64 bits. -/
def number : Reader Nat :=
  numberWithin 1 10

/-- A number of 32 bits, which tells the forms of a value apart. -/
def choice : Reader Nat :=
  numberWithin 15 5

/-- Unsigned to signed, undoing `fold`. -/
def unfold (n : Nat) : Int :=
  if n % 2 = 0 then n / 2 else -(n / 2 : Nat) - 1

def bytes (n : Nat) : Reader (List UInt8) := fun b ↦
  match b.split? n with
  | some read => .ok read
  | none => .error .endOfData

def text : Reader String := do
  let content ← bytes (← number)
  match String.fromUTF8? ⟨content.toArray⟩ with
  | some s => return s
  | none => fail .badText

def repeated {α : Type} (item : Reader α) : Nat → Reader (List α)
  | 0 => return []
  | n + 1 => do
    let first ← item
    return first :: (← repeated item n)

def list {α : Type} (item : Reader α) : Reader (List α) := do
  repeated item (← number)

def bool : Reader Bool := do
  let x ← byte
  if x = 0 then return false else if x = 1 then return true else fail .badBool

def value : Reader Value := do
  match ← choice with
  | 0 => return .nil
  | 1 => return .bool (← bool)
  | 2 => return .int (Int64.ofInt (unfold (← number)))
  | 3 => return .str (← text)
  | _ => fail .badVariant

def property : Reader (String × Value) := do
  return (← text, ← value)

def spec : Reader EntitySpec := do
  return ⟨← text, ← text, ← list property⟩

def edge : Reader Edge := do
  return ⟨← text, ← text, ← text⟩

def payload : Reader Snapshot := do
  return ⟨← list spec, ← list edge, ← list text⟩

end Reader

def Header.read (b : Bytes) : Except Damage Header :=
  match b.split? 4 with
  | some (magic, rest) =>
    match rest.next? with
    | some (version, _) => .ok ⟨magic, version⟩
    | none => .error .shortHeader
  | none => .error .shortHeader

/-- The size is checked first, then the header, and only then the payload is read. -/
def read (b : Bytes) : Except Damage Snapshot :=
  if b.size < headerSize then .error .tooShort
  else if b.size > maxSnapshotSize then .error (.tooLarge b.size)
  else
    match (Header.read b).bind Header.check with
    | .error why => .error why
    | .ok () =>
      match Reader.payload (b.drop headerSize) with
      | .ok (s, _) => .ok s
      | .error fault => .error (.badPayload fault)

end LiveGraph.Packed
