import Mathlib
import LiveGraph.Packed.Reader

/-!
# Codes and their readers

A reader of a code gives back what was written and leaves the bytes after it alone. It fails where the
code breaks off, wherever that is, so no code is the beginning of another one. A length that is too great
for the number that tells it is never read.
-/

namespace LiveGraph

namespace Bytes

variable {b : Bytes} {x : UInt8} {front rest : List UInt8} {n : Nat}

theorem next?_eq_none_iff : b.next? = none ↔ b.toList = [] := by
  obtain ⟨written, zeros⟩ := b
  cases written with
  | cons x xs => simp [next?, toList]
  | nil => cases zeros <;> simp [next?, toList, List.replicate_succ]

theorem next?_of_cons (h : b.toList = x :: rest) :
    ∃ b', b.next? = some (x, b') ∧ b'.toList = rest := by
  cases hnext : b.next? with
  | none => exact absurd (h.symm.trans (next?_eq_none_iff.mp hnext)) (List.cons_ne_nil x rest)
  | some read =>
    obtain ⟨y, b'⟩ := read
    obtain ⟨rfl, htail⟩ := List.cons.inj ((toList_of_next? hnext).symm.trans h)
    exact ⟨b', rfl, htail⟩

theorem split?_eq_none_iff : b.split? n = none ↔ b.toList.length < n := by
  rw [length_toList, split?, size]
  split
  · simp only [reduceCtorEq, false_iff]
    omega
  · split <;> simp at * <;> omega

theorem length_of_split? {b' : Bytes} (h : b.split? n = some (front, b')) : front.length = n := by
  rw [split?] at h
  split at h
  · obtain ⟨rfl, -⟩ := Prod.mk.inj (Option.some.inj h)
    rw [List.length_take]
    omega
  · split at h
    · obtain ⟨rfl, -⟩ := Prod.mk.inj (Option.some.inj h)
      rw [List.length_append, List.length_replicate]
      omega
    · exact absurd h.symm (Option.some_ne_none _)

theorem split?_of_append (h : b.toList = front ++ rest) :
    ∃ b', b.split? front.length = some (front, b') ∧ b'.toList = rest := by
  cases hsplit : b.split? front.length with
  | none =>
    have hlt := split?_eq_none_iff.mp hsplit
    rw [h, List.length_append] at hlt
    omega
  | some read =>
    obtain ⟨front', b'⟩ := read
    have heq := (toList_of_split? hsplit).symm.trans h
    obtain ⟨rfl, hrest⟩ := List.append_inj heq (length_of_split? hsplit)
    exact ⟨b', rfl, hrest⟩

theorem toList_drop (b : Bytes) (n : Nat) : (b.drop n).toList = b.toList.drop n := by
  rw [drop, toList, toList, List.drop_append, List.drop_replicate]

/-- The bytes are those of a code that breaks off. -/
def Cut (b : Bytes) (code : List UInt8) : Prop :=
  ∃ lost, lost ≠ [] ∧ b.toList ++ lost = code

end Bytes

namespace Packed

open Bytes

variable {α β : Type}

namespace Reader

variable {r : Reader α} {f : α → Reader β} {b b' : Bytes} {a : α}

theorem bind_of_ok (h : r b = .ok (a, b')) : (r >>= f) b = f a b' := by
  change andThen r f b = f a b'
  rw [andThen, h]

theorem bind_of_error {fault : PayloadFault} (h : r b = .error fault) :
    (r >>= f) b = .error fault := by
  change andThen r f b = .error fault
  rw [andThen, h]

end Reader

/-- A reader reads a code as what was written, if that fits the numbers that tell its lengths. -/
structure Reads (r : Reader α) (code : List UInt8) (a : α) (fits : Prop) : Prop where
  read : fits → ∀ b rest, b.toList = code ++ rest → ∃ b', r b = .ok (a, b') ∧ b'.toList = rest
  refuse : ¬fits → ∀ b rest, b.toList = code ++ rest → ∃ fault, r b = .error fault
  fail : ∀ b, b.Cut code → ∃ fault, r b = .error fault

namespace Reads

variable {r : Reader α} {f : α → Reader β} {code code' : List UInt8} {a : α} {c : β}
variable {fits fits' : Prop}

theorem pure (a : α) : Reads (pure a) [] a True where
  read _ b rest hb := ⟨b, rfl, hb⟩
  refuse h := absurd trivial h
  fail b hb := by
    obtain ⟨lost, hlost, hnil⟩ := hb
    exact absurd (List.append_eq_nil_iff.mp hnil).2 hlost

theorem never (fault : PayloadFault) (code : List UInt8) (a : α) :
    Reads (Reader.fail fault) code a False where
  read h := absurd h not_false
  refuse _ _ _ _ := ⟨fault, rfl⟩
  fail _ _ := ⟨fault, rfl⟩

theorem congr (h : Reads r code a fits) (hcode : code = code') (hfits : fits ↔ fits') :
    Reads r code' a fits' := by
  rwa [← hcode, ← propext hfits]

/-- A code that breaks off does so in its first part, or after the first part in the second one. -/
theorem cut_append {b : Bytes} (h : b.Cut (code ++ code')) :
    b.Cut code ∨ ∃ rest, b.toList = code ++ rest ∧ ∃ lost, lost ≠ [] ∧ rest ++ lost = code' := by
  obtain ⟨lost, hlost, heq⟩ := h
  rcases List.append_eq_append_iff.mp heq with ⟨missing, hcode, hmissing⟩ | ⟨rest, hb, hcode'⟩
  · by_cases hnil : missing = []
    · subst hnil
      refine .inr ⟨[], ?_, lost, hlost, hmissing⟩
      rw [hcode, List.append_nil, List.append_nil]
    · exact .inl ⟨missing, hnil, hcode.symm⟩
  · exact .inr ⟨rest, hb, lost, hlost, hcode'.symm⟩

/-- What is written one after the other is read one after the other. -/
theorem bind (h : Reads r code a fits) (h' : Reads (f a) code' c fits') :
    Reads (r >>= f) (code ++ code') c (fits ∧ fits') := by
  have hfirst (b : Bytes) (rest : List UInt8) (hb : b.toList = code ++ rest) :
      (fits ∧ ∃ b', (r >>= f) b = f a b' ∧ b'.toList = rest) ∨
        ¬fits ∧ ∃ fault, (r >>= f) b = .error fault := by
    by_cases hfits : fits
    · obtain ⟨b', hr, hb'⟩ := h.read hfits b rest hb
      exact .inl ⟨hfits, b', Reader.bind_of_ok hr, hb'⟩
    · obtain ⟨fault, hr⟩ := h.refuse hfits b rest hb
      exact .inr ⟨hfits, fault, Reader.bind_of_error hr⟩
  constructor
  · intro hfits b rest hb
    rw [List.append_assoc] at hb
    rcases hfirst b _ hb with ⟨-, b', heq, hb'⟩ | ⟨hnot, -⟩
    · rw [heq]
      exact h'.read hfits.2 b' rest hb'
    · exact absurd hfits.1 hnot
  · intro hnot b rest hb
    rw [List.append_assoc] at hb
    rcases hfirst b _ hb with ⟨hfits, b', heq, hb'⟩ | ⟨-, hfault⟩
    · rw [heq]
      exact h'.refuse (fun hfits' ↦ hnot ⟨hfits, hfits'⟩) b' rest hb'
    · exact hfault
  · intro b hb
    rcases cut_append hb with hcut | ⟨rest, hb, lost, hlost, hrest⟩
    · obtain ⟨fault, hr⟩ := h.fail b hcut
      exact ⟨fault, Reader.bind_of_error hr⟩
    · rcases hfirst b rest hb with ⟨-, b', heq, hb'⟩ | ⟨-, hfault⟩
      · rw [heq]
        exact h'.fail b' ⟨lost, hlost, by rw [hb', hrest]⟩
      · exact hfault

/-- What follows something that always fits. -/
theorem after (h : Reads r code a True) (h' : Reads (f a) code' c fits') :
    Reads (r >>= f) (code ++ code') c fits' :=
  (h.bind h').congr rfl (Iff.of_eq (true_and _))

/-- What is read last is made into the result. -/
theorem giving (h : Reads r code a fits) (result : α → β) :
    Reads (r >>= fun a ↦ Pure.pure (result a)) code (result a) fits :=
  (h.bind (f := fun a ↦ Pure.pure (result a)) (.pure (result a))).congr (List.append_nil code)
    (Iff.of_eq (and_true _))

end Reads

section Numbers

variable {b : Bytes} {n top width : Nat}

theorem number_of_lt (h : n < 128) : number n = [n.toUInt8] := by
  rw [number, if_pos h]

theorem number_of_ge (h : 128 ≤ n) :
    number n = (n % 128 + 128).toUInt8 :: number (n / 128) := by
  rw [number, if_neg (Nat.not_lt.mpr h)]

theorem toNat_toUInt8 (h : n < 256) : n.toUInt8.toNat = n :=
  UInt8.toNat_ofNat_of_lt' h

theorem reads_byte (x : UInt8) : Reads Reader.byte [x] x True where
  read _ b rest hb := by
    obtain ⟨b', hnext, hb'⟩ := next?_of_cons hb
    exact ⟨b', by rw [Reader.byte, hnext], hb'⟩
  refuse h := absurd trivial h
  fail b hb := by
    obtain ⟨lost, hlost, hcode⟩ := hb
    have hnil : b.toList = [] := by
      rcases List.append_eq_singleton_iff.mp hcode with ⟨hnil, -⟩ | ⟨-, hnil⟩
      · exact hnil
      · exact absurd hnil hlost
    exact ⟨.endOfData, by rw [Reader.byte, next?_eq_none_iff.mpr hnil]⟩

/-- The least number that does not fit so many bytes, the last of them at most `top`. -/
def limit (top : Nat) : Nat → Nat
  | 0 => 0
  | width + 1 => (top + 1) * 128 ^ width

theorem div_lt_limit_iff (htop : top < 128) (hn : 128 ≤ n) :
    n / 128 < limit top width ↔ n < limit top (width + 1) := by
  cases width with
  | zero =>
    simp only [limit, Nat.pow_zero, Nat.mul_one, Nat.not_lt_zero, false_iff]
    omega
  | succ width =>
    have hpow : limit top (width + 1 + 1) = limit top (width + 1) * 128 := by
      rw [limit, limit, Nat.pow_succ, Nat.mul_assoc]
    rw [hpow]
    exact Nat.div_lt_iff_lt_mul (by decide)

theorem lt_limit_of_lt (hn : n < 128) : n < limit top (width + 1) ↔ ¬(width = 0 ∧ n > top) := by
  cases width with
  | zero =>
    simp only [limit, Nat.pow_zero, Nat.mul_one, true_and]
    omega
  | succ width =>
    have hpos : 0 < 128 ^ width := Nat.pow_pos (by decide)
    have hle : 128 ≤ limit top (width + 1 + 1) := by
      calc 128
        _ = 1 * (1 * 128) := rfl
        _ ≤ (top + 1) * (128 ^ width * 128) :=
          Nat.mul_le_mul (Nat.succ_pos top) (Nat.mul_le_mul_right 128 hpos)
    simp only [Nat.succ_ne_zero, false_and, not_false_eq_true, iff_true]
    omega

theorem reads_numberWithin (htop : top < 128) (width n : Nat) :
    Reads (Reader.numberWithin top width) (number n) n (n < limit top width) := by
  induction width generalizing n with
  | zero => exact (Reads.never _ _ _).congr rfl (by simp [limit])
  | succ width ih =>
    rw [Reader.numberWithin]
    by_cases hn : n < 128
    · have hbyte : n.toUInt8.toNat = n := toNat_toUInt8 (by omega)
      rw [number_of_lt hn, ← List.append_nil [n.toUInt8]]
      refine (reads_byte _).after ?_
      rw [if_pos (by omega), hbyte]
      split
      · rename_i hover
        exact (Reads.never _ _ _).congr rfl (by rw [lt_limit_of_lt hn]; simp [hover])
      · rename_i hfit
        exact (Reads.pure n).congr rfl (by rw [lt_limit_of_lt hn]; simp [hfit])
    · have hbyte : (n % 128 + 128).toUInt8.toNat = n % 128 + 128 := toNat_toUInt8 (by omega)
      have hlow : (n % 128 + 128) - 128 + 128 * (n / 128) = n := by omega
      rw [number_of_ge (by omega), ← List.singleton_append]
      refine (reads_byte _).after ?_
      rw [if_neg (by omega), hbyte]
      have hhigh := (ih (n / 128)).giving fun high ↦ n % 128 + 128 - 128 + 128 * high
      rw [hlow] at hhigh
      exact hhigh.congr rfl (div_lt_limit_iff htop (by omega))

/-- What is written of lengths and integers is read if it has no more than 64 bits. -/
theorem reads_number (n : Nat) : Reads Reader.number (number n) n (n < 2 ^ 64) :=
  (reads_numberWithin (by decide) 10 n).congr rfl (Iff.of_eq (congrArg (n < ·) (by decide)))

theorem reads_choice (hn : n < 128) : Reads Reader.choice [n.toUInt8] n True := by
  refine (reads_numberWithin (by decide) 5 n).congr (number_of_lt hn) (iff_true_intro ?_)
  rw [lt_limit_of_lt hn]
  simp

end Numbers

section Sequences

/-- The length of a text is told by a number of 64 bits. -/
def TextFits (s : String) : Prop :=
  (bytesOf s).length < 2 ^ 64

def ListFits (fits : α → Prop) (items : List α) : Prop :=
  items.length < 2 ^ 64 ∧ ∀ x ∈ items, fits x

theorem reads_bytes (content : List UInt8) :
    Reads (Reader.bytes content.length) content content True where
  read _ b rest hb := by
    obtain ⟨b', hsplit, hb'⟩ := split?_of_append hb
    exact ⟨b', by rw [Reader.bytes, hsplit], hb'⟩
  refuse h := absurd trivial h
  fail b hb := by
    obtain ⟨lost, hlost, hcode⟩ := hb
    have hlt : b.toList.length < content.length := by
      rw [← hcode, List.length_append]
      exact Nat.lt_add_of_pos_right (List.length_pos_iff.mpr hlost)
    exact ⟨.endOfData, by rw [Reader.bytes, split?_eq_none_iff.mpr hlt]⟩

theorem fromUTF8?_bytesOf (s : String) : String.fromUTF8? ⟨(bytesOf s).toArray⟩ = some s := by
  rw [bytesOf, Array.toArray_toList, String.fromUTF8?]
  exact dif_pos s.isValidUTF8

theorem reads_text (s : String) : Reads Reader.text (text s) s (TextFits s) := by
  refine Reads.congr ((reads_number _).bind ((reads_bytes (bytesOf s)).after (?content : Reads _ [] s True)))
    ?code ?fits
  case content =>
    rw [fromUTF8?_bytesOf]
    exact .pure s
  case code => rw [List.append_nil, text]
  case fits => exact Iff.of_eq (and_true _)

variable {item : Reader α} {code : α → List UInt8} {fits : α → Prop}

/-- A number of items, one after the other. -/
theorem reads_repeated (h : ∀ x, Reads item (code x) x (fits x)) (items : List α) :
    Reads (Reader.repeated item items.length) (items.flatMap code) items (∀ x ∈ items, fits x) := by
  induction items with
  | nil => exact (Reads.pure []).congr rfl (by simp)
  | cons x rest ih =>
    refine ((h x).bind (ih.giving (x :: ·))).congr ?_ ?_
    · rw [List.flatMap_cons]
    · rw [List.forall_mem_cons]

theorem reads_list (h : ∀ x, Reads item (code x) x (fits x)) (items : List α) :
    Reads (Reader.list item) (list code items) items (ListFits fits items) :=
  (reads_number _).bind (reads_repeated h items)

end Sequences

end Packed

end LiveGraph
