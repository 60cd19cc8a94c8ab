import LiveGraph.Json.Parser
import LiveGraph.Json.Printer
import Mathlib.Data.List.Basic
import Mathlib.Tactic.IntervalCases

/-!
# JSON is read as written

A value that can be told apart from all others is read back from its text, blanks and line breaks included. What
comes after a value in a text is a comma or a line break, so no digit of a number is read with what follows it.
-/

namespace LiveGraph.Json

/-! ## Blanks -/

theorem skip_newLine (depth : Nat) (text : List Char) : skip (newLine depth ++ text) = skip text := by
  rw [skip, skip, newLine, List.cons_append, List.dropWhile_cons_of_pos (by decide)]
  induction 2 * depth with
  | zero => rfl
  | succ n ih => rw [List.replicate_succ, List.cons_append, List.dropWhile_cons_of_pos (by decide), ih]

theorem skip_cons {c : Char} (h : isSpace c = false) (text : List Char) : skip (c :: text) = c :: text :=
  List.dropWhile_cons_of_neg (by simp [h])

/-! ## Texts -/

theorem hexValue?_hexDigit : ∀ n < 16, hexValue? (hexDigit n) = some n := by decide

/-- A control character is read back from its number. -/
theorem numberedChar?_control {c : Char} (h : c.toNat < 0x20) (rest : List Char) :
    numberedChar? ('0' :: '0' :: hexDigit (c.toNat / 16) :: hexDigit (c.toNat % 16) :: rest) =
      some (some c, rest) := by
  have hhigh := hexValue?_hexDigit (c.toNat / 16) (by omega)
  have hlow := hexValue?_hexDigit (c.toNat % 16) (by omega)
  have hzero : hexValue? '0' = some 0 := by decide
  have hunit : unit? ('0' :: '0' :: hexDigit (c.toNat / 16) :: hexDigit (c.toNat % 16) :: rest) =
      some (c.toNat, rest) := by
    have hn : 16 * (c.toNat / 16) + c.toNat % 16 = c.toNat := Nat.div_add_mod _ _
    simp [unit?, hzero, hhigh, hlow, hn]
  have hhalf : isHighHalf c.toNat = false ∧ isLowHalf c.toNat = false := by
    simp only [isHighHalf, isLowHalf, Bool.and_eq_false_iff, decide_eq_false_iff_not]
    omega
  simp [numberedChar?, hunit, hhalf, Char.ofNat_toNat]

/-- One character is read back, whatever comes after it. -/
theorem textBody?_writeChar (c : Char) (fuel : Nat) (rest : List Char) :
    textBody? (fuel + 1) (writeChar c ++ rest) =
      (textBody? fuel rest).map fun p ↦ (consChar (some c) p.1, p.2) := by
  have hplain (e : Char) (he : e ≠ 'u') (h : plainEscape? e = some c) :
      textBody? (fuel + 1) ('\\' :: e :: rest) =
        (textBody? fuel rest).map fun p ↦ (consChar (some c) p.1, p.2) := by
    rw [textBody?]
    · rw [h]
      cases textBody? fuel rest <;> rfl
    · exact he
  unfold writeChar
  split
  · rename_i heq
    exact hplain '"' (by decide) (by rw [heq]; rfl)
  split
  · rename_i heq
    exact hplain '\\' (by decide) (by rw [heq]; rfl)
  split
  · rename_i heq
    exact hplain 'b' (by decide) (by rw [heq]; rfl)
  split
  · rename_i heq
    exact hplain 'f' (by decide) (by rw [heq]; rfl)
  split
  · rename_i heq
    exact hplain 'n' (by decide) (by rw [heq]; rfl)
  split
  · rename_i heq
    exact hplain 'r' (by decide) (by rw [heq]; rfl)
  split
  · rename_i heq
    exact hplain 't' (by decide) (by rw [heq]; rfl)
  split
  · rename_i hcontrol
    have hread := numberedChar?_control hcontrol rest
    simp only [List.cons_append, List.nil_append, textBody?, hread, Option.bind_eq_bind, Option.bind_some]
    cases textBody? fuel rest <;> rfl
  · rename_i hquote hslash _ _ _ _ _ hcontrol
    have hfree : ¬(c = '\\' ∨ c.toNat < 0x20) := not_or.mpr ⟨hslash, hcontrol⟩
    rw [List.singleton_append, textBody?, if_neg hfree]
    · exact hquote
    · exact fun more heq _ ↦ absurd heq hslash
    · exact fun e more heq _ ↦ absurd heq hslash

theorem textBody?_write (chars rest : List Char) {fuel : Nat} (h : chars.length < fuel) :
    textBody? fuel (chars.flatMap writeChar ++ '"' :: rest) = some (some chars, rest) := by
  induction chars generalizing fuel with
  | nil =>
    obtain ⟨n, rfl⟩ := Nat.exists_eq_succ_of_ne_zero (Nat.ne_of_gt h)
    rfl
  | cons c more ih =>
    obtain ⟨n, rfl⟩ := Nat.exists_eq_succ_of_ne_zero (Nat.ne_of_gt (Nat.zero_lt_of_lt h))
    rw [List.flatMap_cons, List.append_assoc, textBody?_writeChar, ih (Nat.lt_of_succ_lt_succ h)]
    rfl

/-! ## Numbers -/

/-- No number goes on with what comes after a value. -/
def Ended (rest : List Char) : Prop :=
  ∀ c, rest.head? = some c → c = ',' ∨ c = '\n'

theorem ended_nil : Ended [] := fun _ h ↦ absurd h (Option.some_ne_none _).symm

theorem ended_comma (rest : List Char) : Ended (',' :: rest) := fun _ h ↦ .inl (Option.some.inj h).symm

theorem ended_newLine (depth : Nat) (rest : List Char) : Ended (newLine depth ++ rest) := fun _ h ↦
  .inr (Option.some.inj h).symm

theorem isDigit_of_mem {c : Char} {n : Nat} (h : c ∈ Nat.toDigits 10 n) : Text.isDigit c = true := by
  have hdigit := Nat.isDigit_of_mem_toDigits (by decide) (by decide) h
  rw [Char.isDigit, Bool.and_eq_true_iff, decide_eq_true_iff, decide_eq_true_iff] at hdigit
  rw [Text.isDigit, Bool.and_eq_true_iff, decide_eq_true_iff, decide_eq_true_iff]
  exact hdigit

theorem natOfDigits_toDigits (n : Nat) : Text.natOfDigits (Nat.toDigits 10 n) = n :=
  Nat.ofDigitChars_ten_toDigits

/-- Only zero is written with a zero in front. -/
theorem head?_toDigits_ne {n : Nat} (h : 0 < n) : (Nat.toDigits 10 n).head? ≠ some '0' := by
  induction n using Nat.strong_induction_on with
  | _ n ih =>
    rcases Nat.lt_or_ge n 10 with hlt | hle
    · rw [Nat.toDigits_of_lt_base hlt]
      interval_cases n <;> decide
    · rw [Nat.toDigits_of_base_le (by decide) hle, List.head?_append_of_ne_nil _ Nat.toDigits_ne_nil]
      exact ih (n / 10) (Nat.div_lt_self h (by decide)) (Nat.div_pos hle (by decide))

section Ended

variable {rest : List Char} (hrest : Ended rest)
include hrest

theorem Ended.takeWhile_eq : rest.takeWhile Text.isDigit = [] := by
  cases rest with
  | nil => rfl
  | cons c more => rcases hrest c rfl with rfl | rfl <;> rfl

theorem Ended.dropWhile_eq : rest.dropWhile Text.isDigit = rest := by
  cases rest with
  | nil => rfl
  | cons c more => rcases hrest c rfl with rfl | rfl <;> rfl

theorem digits?_toDigits (n : Nat) : digits? (Nat.toDigits 10 n ++ rest) = some (Nat.toDigits 10 n, rest) := by
  have htake : (Nat.toDigits 10 n ++ rest).takeWhile Text.isDigit = Nat.toDigits 10 n := by
    rw [List.takeWhile_append_of_pos fun c hc ↦ isDigit_of_mem hc, hrest.takeWhile_eq, List.append_nil]
  have hdrop : (Nat.toDigits 10 n ++ rest).dropWhile Text.isDigit = rest := by
    rw [List.dropWhile_append_of_pos fun c hc ↦ isDigit_of_mem hc, hrest.dropWhile_eq]
  rcases Nat.eq_zero_or_pos n with rfl | hpos
  · have hnone : rest.head?.any Text.isDigit = false := by
      cases rest with
      | nil => rfl
      | cons c more => rcases hrest c rfl with rfl | rfl <;> rfl
    change digits? ('0' :: rest) = some (['0'], rest)
    simp only [digits?, hnone, Bool.false_eq_true, if_false]
  · rw [digits?, htake, hdrop]
    · simp [Nat.toDigits_ne_nil]
    · intro more heq
      have hhead := congrArg List.head? heq
      rw [List.head?_append_of_ne_nil _ Nat.toDigits_ne_nil] at hhead
      exact head?_toDigits_ne hpos hhead

theorem number?_toDigits (negative : Bool) (n : Nat) : number? negative (Nat.toDigits 10 n ++ rest) =
    some (ofDigits negative true (Nat.toDigits 10 n), rest) := by
  have hfraction : skipFraction? rest = some (false, rest) := by
    cases rest with
    | nil => rfl
    | cons c more => rcases hrest c rfl with rfl | rfl <;> rfl
  have hexponent : skipExponent? rest = some (false, rest) := by
    cases rest with
    | nil => rfl
    | cons c more => rcases hrest c rfl with rfl | rfl <;> rfl
  simp [number?, digits?_toDigits hrest, hfraction, hexponent]

end Ended

/-- Integers that are told apart from other numbers. -/
def InRange (i : Int) : Prop :=
  -0x8000000000000000 ≤ i ∧ i ≤ 0xffffffffffffffff

theorem toList_toString_of_nonneg {i : Int} (h : 0 ≤ i) : (toString i).toList = Nat.toDigits 10 i.toNat := by
  obtain ⟨n, rfl⟩ := Int.eq_ofNat_of_zero_le h
  rw [Int.toNat_natCast, ← Nat.toList_repr]
  rfl

theorem toList_toString_of_neg {i : Int} (h : i < 0) : (toString i).toList = '-' :: Nat.toDigits 10 (-i).toNat := by
  obtain ⟨n, rfl⟩ := Int.eq_negSucc_of_lt_zero h
  have hneg : (-Int.negSucc n).toNat = n + 1 := rfl
  have htext : toString (Int.negSucc n) = "-" ++ (n + 1).repr := rfl
  rw [hneg, htext, String.toList_append, Nat.toList_repr]
  rfl

/-! ## Values -/

theorem value?_newLine (fuel depth : Nat) (text : List Char) :
    value? fuel (newLine depth ++ text) = value? fuel text := by
  cases fuel with
  | zero => rfl
  | succ fuel =>
    rw [value?.eq_def, value?.eq_def]
    simp only [skip_newLine]

theorem isSpace_of_isDigit {c : Char} (h : Text.isDigit c = true) : isSpace c = false := by
  refine Bool.eq_false_iff.mpr fun hspace ↦ ?_
  simp only [isSpace, Bool.or_eq_true, decide_eq_true_eq] at hspace
  rcases hspace with ((rfl | rfl) | rfl) | rfl <;> exact absurd h (by decide)

theorem value?_digit {c : Char} (h : Text.isDigit c = true) (fuel : Nat) (text : List Char) :
    value? (fuel + 1) (c :: text) = number? false (c :: text) := by
  have hspace := isSpace_of_isDigit h
  have hne (d : Char) (hd : Text.isDigit d = false) (more : List Char) : c :: text ≠ d :: more := fun heq ↦ by
    rw [(List.cons.inj heq).1, hd] at h
    exact Bool.false_ne_true h
  rw [value?, skip_cons hspace]
  -- No other value begins with a digit.
  split
  · exact absurd ‹_› (hne 'n' rfl _)
  · exact absurd ‹_› (hne 't' rfl _)
  · exact absurd ‹_› (hne 'f' rfl _)
  · exact absurd ‹_› (hne '"' rfl _)
  · exact absurd ‹_› (hne '[' rfl _)
  · exact absurd ‹_› (hne '\x7b' rfl _)
  · exact absurd ‹_› (hne '-' rfl _)
  · rfl

theorem value?_blank (fuel : Nat) (text : List Char) : value? fuel (' ' :: text) = value? fuel text := by
  cases fuel with
  | zero => rfl
  | succ fuel =>
    rw [value?.eq_def, value?.eq_def]
    rfl

theorem value?_int {i : Int} (hi : InRange i) {rest : List Char} (hrest : Ended rest) (fuel : Nat) :
    value? (fuel + 1) ((toString i).toList ++ rest) = some (.int i, rest) := by
  obtain ⟨hlow, hhigh⟩ := hi
  rcases Int.lt_or_le i 0 with hneg | hnonneg
  · have hpos : 0 < (-i).toNat ∧ (-i).toNat ≤ 0x8000000000000000 := by omega
    have hread : ofDigits true true (Nat.toDigits 10 (-i).toNat) = .int i := by
      simp only [ofDigits, natOfDigits_toDigits, hpos, and_self, if_true, Bool.not_true, Bool.false_eq_true, if_false]
      congr 1
      omega
    rw [toList_toString_of_neg hneg, List.cons_append, value?, skip_cons rfl]
    simp only [number?_toDigits hrest, hread]
  · have hle : i.toNat ≤ 0xffffffffffffffff := by omega
    have hread : ofDigits false true (Nat.toDigits 10 i.toNat) = .int i := by
      simp only [ofDigits, natOfDigits_toDigits, hle, if_true, Bool.not_true, Bool.false_eq_true, if_false,
        Int.toNat_of_nonneg hnonneg]
    rw [toList_toString_of_nonneg hnonneg]
    obtain ⟨c, more, heq⟩ := List.exists_cons_of_ne_nil (Nat.toDigits_ne_nil (n := i.toNat) (b := 10))
    have hc : Text.isDigit c = true := isDigit_of_mem (n := i.toNat) (heq ▸ List.mem_cons_self)
    have hnumber := number?_toDigits hrest false i.toNat
    rw [hread, heq] at hnumber
    rw [heq, List.cons_append, value?_digit hc]
    exact hnumber

theorem writeChar_ne_nil (c : Char) : writeChar c ≠ [] := by
  unfold writeChar
  repeat' split
  all_goals exact List.cons_ne_nil _ _

theorem length_le_flatMap_writeChar (chars : List Char) : chars.length ≤ (chars.flatMap writeChar).length := by
  induction chars with
  | nil => exact Nat.le_refl 0
  | cons c rest ih =>
    have hpos : 0 < (writeChar c).length := List.length_pos_iff.mpr (writeChar_ne_nil c)
    rw [List.flatMap_cons, List.length_append, List.length_cons]
    omega

/-- A text is read back from its opening quote on. -/
theorem textBody?_writeText (text : String) (rest : List Char) :
    textBody? ((text.toList.flatMap writeChar ++ '"' :: rest).length + 1)
      (text.toList.flatMap writeChar ++ '"' :: rest) = some (some text.toList, rest) := by
  refine textBody?_write _ _ (Nat.lt_succ_of_le ?_)
  rw [List.length_append]
  exact Nat.le_add_right_of_le (length_le_flatMap_writeChar _)

theorem writeText_append (text : String) (rest : List Char) :
    writeText text ++ rest = '"' :: (text.toList.flatMap writeChar ++ '"' :: rest) := by
  simp only [writeText, List.cons_append, List.append_assoc, List.nil_append]

theorem value?_str (text : String) (fuel : Nat) (rest : List Char) :
    value? (fuel + 1) (writeText text ++ rest) = some (.str text, rest) := by
  rw [writeText_append, value?, skip_cons rfl]
  simp only [textBody?_writeText, Option.map_some, ofBody, Option.elim_some, String.ofList_toList]

mutual

/-- A value that is told apart from all others: its integers are in range, and its texts are unbroken. -/
def Sound : Json → Prop
  | .null => True
  | .bool _ => True
  | .int i => InRange i
  | .otherNumber => False
  | .str _ => True
  | .brokenStr => False
  | .arr items => ItemsSound items
  | .obj members => MembersSound members

def ItemsSound : List Json → Prop
  | [] => True
  | item :: rest => Sound item ∧ ItemsSound rest

def MembersSound : List (Option String × Json) → Prop
  | [] => True
  | (name, value) :: rest => name.isSome = true ∧ Sound value ∧ MembersSound rest

end

/-- Pieces after the first one of a block. -/
def spread (depth : Nat) (pieces : List (List Char)) : List Char :=
  pieces.flatMap fun piece ↦ ',' :: newLine depth ++ piece

theorem writeBlock_cons (depth : Nat) (opening closing : Char) (first : List Char) (rest : List (List Char)) :
    writeBlock depth opening closing (first :: rest) =
      opening :: (newLine (depth + 1) ++ (first ++ (spread (depth + 1) rest ++ (newLine depth ++ [closing])))) := by
  simp only [writeBlock, spread, List.cons_append, List.append_assoc]

theorem writeBlock_head (depth : Nat) (opening closing : Char) (pieces : List (List Char)) :
    (writeBlock depth opening closing pieces).head? = some opening := by
  cases pieces <;> rfl

/-- No value begins with a blank or with the bracket that closes a list. -/
theorem writeAt_head {j : Json} (h : j.Sound) (depth : Nat) :
    ∃ c, (writeAt depth j).head? = some c ∧ isSpace c = false ∧ c ≠ ']' := by
  match j with
  | .null => exact ⟨'n', rfl, rfl, by decide⟩
  | .bool true => exact ⟨'t', rfl, rfl, by decide⟩
  | .bool false => exact ⟨'f', rfl, rfl, by decide⟩
  | .str s => exact ⟨'"', rfl, rfl, by decide⟩
  | .arr items => exact ⟨'[', writeBlock_head .., rfl, by decide⟩
  | .obj members => exact ⟨'\x7b', writeBlock_head .., rfl, by decide⟩
  | .int i =>
    rw [writeAt]
    rcases Int.lt_or_le i 0 with hneg | hnonneg
    · exact ⟨'-', by rw [toList_toString_of_neg hneg, List.head?_cons], rfl, by decide⟩
    · obtain ⟨c, more, heq⟩ := List.exists_cons_of_ne_nil (Nat.toDigits_ne_nil (n := i.toNat) (b := 10))
      have hc : Text.isDigit c = true := isDigit_of_mem (n := i.toNat) (heq ▸ List.mem_cons_self)
      refine ⟨c, by rw [toList_toString_of_nonneg hnonneg, heq, List.head?_cons], isSpace_of_isDigit hc, ?_⟩
      rintro rfl
      exact absurd hc (by decide)

/-- After the blanks before it a text that begins with something else is what is left. -/
theorem skip_of_head {text : List Char} {c : Char} (hhead : text.head? = some c) (hspace : isSpace c = false)
    (depth : Nat) (rest : List Char) : ∃ more, skip (newLine depth ++ (text ++ rest)) = c :: more := by
  cases text with
  | nil => exact absurd hhead.symm (Option.some_ne_none c)
  | cons d more =>
    obtain rfl := Option.some.inj hhead
    exact ⟨more ++ rest, by rw [skip_newLine, List.cons_append, skip_cons hspace]⟩

/-- After an element of a block the next one or the end of the block is read. -/
theorem ended_spread (depth depth' : Nat) (pieces : List (List Char)) (rest : List Char) :
    Ended (spread depth pieces ++ (newLine depth' ++ rest)) := by
  cases pieces with
  | nil => exact ended_newLine depth' rest
  | cons piece more => exact ended_comma _

theorem spread_cons (depth : Nat) (piece : List Char) (more : List (List Char)) (rest : List Char) :
    spread depth (piece :: more) ++ rest = ',' :: (newLine depth ++ (piece ++ (spread depth more ++ rest))) := by
  simp only [spread, List.flatMap_cons, List.cons_append, List.append_assoc]

mutual

/-- A value is read back from its text. -/
theorem value?_writeAt (fuel : Nat) (j : Json) (hj : j.Sound) (depth : Nat) (rest : List Char) (hrest : Ended rest)
    (hfuel : (writeAt depth j).length < fuel) : value? fuel (writeAt depth j ++ rest) = some (j, rest) := by
  obtain ⟨fuel, rfl⟩ := Nat.exists_eq_succ_of_ne_zero (Nat.ne_of_gt (Nat.zero_lt_of_lt hfuel))
  match j with
  | .null => rfl
  | .bool true => rfl
  | .bool false => rfl
  | .int i =>
    rw [writeAt]
    exact value?_int hj hrest fuel
  | .str s =>
    rw [writeAt]
    exact value?_str s fuel rest
  | .arr [] => rfl
  | .arr (item :: items) =>
    obtain ⟨hitem, hitems⟩ := hj
    obtain ⟨c, hhead, hspace, hclosing⟩ := writeAt_head hitem (depth + 1)
    rw [writeAt, writeItems, writeBlock_cons] at hfuel ⊢
    have hread := items?_writeItems fuel item items hitem hitems (depth + 1) depth rest (by
      simp only [List.length_cons] at hfuel
      omega)
    obtain ⟨more, hskip⟩ := skip_of_head hhead hspace (depth + 1)
      (spread (depth + 1) (writeItems (depth + 1) items) ++ (newLine depth ++ ']' :: rest))
    simp only [List.cons_append, List.append_assoc, List.nil_append]
    rw [value?, skip_cons rfl]
    simp only [hskip, hread]
    split
    · exact absurd (List.cons.inj ‹_›).1 hclosing
    · rfl
  | .obj [] => rfl
  | .obj ((none, value) :: members) => exact absurd hj.1 Bool.false_ne_true
  | .obj ((some name, value) :: members) =>
    obtain ⟨-, hvalue, hmembers⟩ := hj
    rw [writeAt, writeMembers, Option.getD_some, writeBlock_cons] at hfuel ⊢
    have hread := members?_writeMembers fuel name value members hvalue hmembers (depth + 1) depth rest (by
      simp only [List.length_cons] at hfuel
      omega)
    have hskip : skip (newLine (depth + 1) ++ (writeText name ++ [':', ' '] ++ writeAt (depth + 1) value ++
        (spread (depth + 1) (writeMembers (depth + 1) members) ++ (newLine depth ++ '\x7d' :: rest)))) =
        '"' :: (name.toList.flatMap writeChar ++ '"' :: ([':', ' '] ++ writeAt (depth + 1) value ++
        (spread (depth + 1) (writeMembers (depth + 1) members) ++ (newLine depth ++ '\x7d' :: rest)))) := by
      rw [skip_newLine, List.append_assoc, List.append_assoc, writeText_append, skip_cons rfl, List.append_assoc]
    simp only [List.cons_append, List.append_assoc, List.nil_append] at hskip hread ⊢
    rw [value?, skip_cons rfl]
    simp only [hskip, hread]
    rfl

theorem items?_writeItems (fuel : Nat) (item : Json) (items : List Json) (hitem : item.Sound)
    (hitems : ItemsSound items) (depth depth' : Nat) (rest : List Char)
    (hfuel : (newLine depth ++ (writeAt depth item ++ (spread depth (writeItems depth items) ++
      (newLine depth' ++ [']'])))).length < fuel) :
    items? fuel (newLine depth ++ (writeAt depth item ++ (spread depth (writeItems depth items) ++
      (newLine depth' ++ ']' :: rest)))) = some (item :: items, rest) := by
  obtain ⟨fuel, rfl⟩ := Nat.exists_eq_succ_of_ne_zero (Nat.ne_of_gt (Nat.zero_lt_of_lt hfuel))
  have hread := value?_writeAt fuel item hitem depth (spread depth (writeItems depth items) ++
    (newLine depth' ++ ']' :: rest)) (ended_spread depth depth' _ _) (by
      simp only [List.length_append, newLine, List.length_cons] at hfuel
      omega)
  rw [items?, value?_newLine, hread]
  match items with
  | [] =>
    have hend : skip (newLine depth' ++ ']' :: rest) = ']' :: rest := by rw [skip_newLine, skip_cons rfl]
    simp only [writeItems, spread, List.flatMap_nil, List.nil_append, Option.bind_eq_bind, Option.bind_some, hend]
    rfl
  | item' :: items' =>
    obtain ⟨hitem', hitems'⟩ := hitems
    rw [writeItems, spread_cons] at hfuel ⊢
    have hmore := items?_writeItems fuel item' items' hitem' hitems' depth depth' rest (by
      simp only [List.length_append, newLine, List.length_cons] at hfuel ⊢
      omega)
    have hcomma : ∀ text, skip (',' :: text) = ',' :: text := skip_cons rfl
    simp only [Option.bind_eq_bind, Option.bind_some, hcomma, hmore]
    rfl

theorem members?_writeMembers (fuel : Nat) (name : String) (value : Json) (members : List (Option String × Json))
    (hvalue : value.Sound) (hmembers : MembersSound members) (depth depth' : Nat) (rest : List Char)
    (hfuel : (newLine depth ++ ((writeText name ++ [':', ' '] ++ writeAt depth value) ++
      (spread depth (writeMembers depth members) ++ (newLine depth' ++ ['\x7d'])))).length < fuel) :
    members? fuel (newLine depth ++ ((writeText name ++ [':', ' '] ++ writeAt depth value) ++
      (spread depth (writeMembers depth members) ++ (newLine depth' ++ '\x7d' :: rest)))) =
        some ((some name, value) :: members, rest) := by
  obtain ⟨fuel, rfl⟩ := Nat.exists_eq_succ_of_ne_zero (Nat.ne_of_gt (Nat.zero_lt_of_lt hfuel))
  have hread := value?_writeAt fuel value hvalue depth (spread depth (writeMembers depth members) ++
    (newLine depth' ++ '\x7d' :: rest)) (ended_spread depth depth' _ _) (by
      simp only [List.length_append, newLine, List.length_cons] at hfuel
      omega)
  have hblank := value?_blank fuel
  rw [members?, skip_newLine, List.append_assoc, List.append_assoc, writeText_append, skip_cons rfl]
  have hcolon : ∀ text, skip (':' :: text) = ':' :: text := skip_cons rfl
  simp only [textBody?_writeText, Option.bind_eq_bind, Option.bind_some, List.cons_append, List.nil_append, hcolon,
    hblank, hread]
  match members with
  | [] =>
    have hend : skip (newLine depth' ++ '\x7d' :: rest) = '\x7d' :: rest := by rw [skip_newLine, skip_cons rfl]
    simp only [writeMembers, spread, List.flatMap_nil, List.nil_append, hend, Option.map_some, String.ofList_toList]
    rfl
  | (none, value') :: members' => exact absurd hmembers.1 Bool.false_ne_true
  | (some name', value') :: members' =>
    obtain ⟨-, hvalue', hmembers'⟩ := hmembers
    rw [writeMembers, Option.getD_some, spread_cons] at hfuel ⊢
    have hmore := members?_writeMembers fuel name' value' members' hvalue' hmembers' depth depth' rest (by
      simp only [List.length_append, newLine, List.length_cons] at hfuel ⊢
      omega)
    have hcomma : ∀ text, skip (',' :: text) = ',' :: text := skip_cons rfl
    simp only [Option.bind_some, hcomma, hmore, Option.map_some, String.ofList_toList]
    rfl

end

/-- Every sound value is the one that its text spells. -/
theorem parse?_of_sound {j : Json} (h : j.Sound) : parse? j.write = some j := by
  have hread := value?_writeAt ((writeAt 0 j).length + 1) j h 0 [] ended_nil (Nat.lt_succ_self _)
  rw [List.append_nil] at hread
  simp only [parse?, write, String.toList_ofList, hread]
  rfl

end LiveGraph.Json
