/-!
# Byte sequences

A sequence of bytes held as what was written and a number of zero bytes after it, so that a long
file of zeros costs nothing. `toList` is what it stands for.
-/

namespace LiveGraph

structure Bytes where
  written : List UInt8
  zeros : Nat
  deriving Inhabited, Repr

namespace Bytes

def ofList (bytes : List UInt8) : Bytes :=
  ⟨bytes, 0⟩

def toList (b : Bytes) : List UInt8 :=
  b.written ++ List.replicate b.zeros 0

def size (b : Bytes) : Nat :=
  b.written.length + b.zeros

/-- The bytes with their length set: cut off, or filled up with zeros. -/
def resize (b : Bytes) (size : Nat) : Bytes :=
  if size ≤ b.written.length then ⟨b.written.take size, 0⟩
  else ⟨b.written, size - b.written.length⟩

def next? (b : Bytes) : Option (UInt8 × Bytes) :=
  match b.written, b.zeros with
  | x :: rest, n => some (x, ⟨rest, n⟩)
  | [], n + 1 => some (0, ⟨[], n⟩)
  | [], 0 => none

/-- The first `n` bytes and those after them. -/
def split? (b : Bytes) (n : Nat) : Option (List UInt8 × Bytes) :=
  if n ≤ b.written.length then some (b.written.take n, ⟨b.written.drop n, b.zeros⟩)
  else if n ≤ b.size then
    some (b.written ++ List.replicate (n - b.written.length) 0, ⟨[], b.size - n⟩)
  else none

def drop (b : Bytes) (n : Nat) : Bytes :=
  ⟨b.written.drop n, b.zeros - (n - b.written.length)⟩

theorem length_toList (b : Bytes) : b.toList.length = b.size := by
  simp [toList, size]

theorem toList_of_next? {b rest : Bytes} {x : UInt8} (h : b.next? = some (x, rest)) :
    b.toList = x :: rest.toList := by
  obtain ⟨written, zeros⟩ := b
  cases written with
  | cons y ys =>
    simp only [next?, Option.some.injEq, Prod.mk.injEq] at h
    simp [toList, ← h.1, ← h.2]
  | nil =>
    cases zeros with
    | zero => simp [next?] at h
    | succ n =>
      simp only [next?, Option.some.injEq, Prod.mk.injEq] at h
      simp [toList, ← h.1, ← h.2, List.replicate_succ]

theorem toList_of_split? {b rest : Bytes} {n : Nat} {front : List UInt8}
    (h : b.split? n = some (front, rest)) : b.toList = front ++ rest.toList := by
  unfold split? at h
  split at h
  · simp only [Option.some.injEq, Prod.mk.injEq] at h
    simp [toList, ← h.1, ← h.2, ← List.append_assoc]
  · split at h
    · next hle hsize =>
      simp only [Option.some.injEq, Prod.mk.injEq] at h
      simp only [toList, ← h.1, ← h.2, List.nil_append, List.append_assoc,
        List.append_cancel_left_eq, List.replicate_append_replicate]
      simp only [size] at *
      congr 1
      omega
    · simp at h

end Bytes

end LiveGraph
