import LiveGraph.Fault
import LiveGraph.Record

/-!
# Packed snapshots: writing

Fields stand in order without names. Lists and texts start with their length; lengths, choices and
integers are numbers in groups of seven bits, lowest first; integers are folded so that small
magnitudes stay short. Five bytes stand in front: a magic word and a version.
-/

namespace LiveGraph.Packed

/-- Seven bits a byte, lowest first; every byte but the last has its high bit set. -/
def number (n : Nat) : List UInt8 :=
  if n < 128 then [n.toUInt8] else (n % 128 + 128).toUInt8 :: number (n / 128)
termination_by n
decreasing_by omega

/-- Signed to unsigned: 0, -1, 1, -2, … become 0, 1, 2, 3, …. -/
def fold (i : Int) : Nat :=
  if 0 ≤ i then 2 * i.toNat else 2 * (-i).toNat - 1

def bytesOf (text : String) : List UInt8 :=
  text.toUTF8.data.toList

def text (s : String) : List UInt8 :=
  number (bytesOf s).length ++ bytesOf s

def list {α : Type} (item : α → List UInt8) (items : List α) : List UInt8 :=
  number items.length ++ items.flatMap item

def value : Value → List UInt8
  | .nil => [0]
  | .bool b => [1, if b then 1 else 0]
  | .int i => 2 :: number (fold i.toInt)
  | .str s => 3 :: text s

def property (p : String × Value) : List UInt8 :=
  text p.1 ++ value p.2

def spec (s : EntitySpec) : List UInt8 :=
  text s.uri ++ text s.kind ++ list property s.props

def edge (e : Edge) : List UInt8 :=
  text e.kind ++ text e.source ++ text e.target

def payload (s : Snapshot) : List UInt8 :=
  list spec s.entities ++ list edge s.edges ++ list text s.focus

/-- The letters DAPG. -/
def magic : List UInt8 := [0x44, 0x41, 0x50, 0x47]

/-- The magic word and version in front of a payload. -/
structure Header where
  magic : List UInt8
  version : UInt8
  deriving DecidableEq, Repr

namespace Header

def current : Header := ⟨Packed.magic, packedVersion⟩

def toList (h : Header) : List UInt8 :=
  h.magic ++ [h.version]

def check (h : Header) : Except Damage Unit :=
  if h.magic ≠ Packed.magic then .error .badMagic
  else if h.version ≠ packedVersion then .error (.badVersion h.version)
  else .ok ()

end Header

def write (s : Snapshot) : List UInt8 :=
  Header.current.toList ++ payload s

end LiveGraph.Packed
