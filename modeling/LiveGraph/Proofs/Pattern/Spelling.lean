import LiveGraph.Pattern.Printer
import LiveGraph.Proofs.Pattern.Grammar

/-!
# What texts spell

The tokens of a text, wherever they stand. A piece of text spells its token in front of whatever cannot
make the token longer, and each token that a text spells is of a form that can be written again.
-/

namespace LiveGraph.Pattern

/-- The tokens of a text, if it consists of tokens and blanks. -/
def spelled? (text : List Char) : Option (List Token) :=
  match lexemes 0 text with
  | (found, none) => some (tokens found)
  | (_, some _) => none

section Lexemes

variable {c : Char} {rest after : List Char} {t : Token}

theorem lexemes_nil (offset : Nat) : lexemes offset [] = ([], none) := by
  rw [lexemes]

theorem lexemes_skip (offset : Nat) (hc : isSkipped c = true) :
    lexemes offset (c :: rest) = lexemes (offset + c.utf8Size) rest := by
  rw [lexemes, if_pos hc]

theorem lexemes_token_eq (offset : Nat) (hc : isSkipped c = false) (h : scan c rest = .token t after) :
    lexemes offset (c :: rest) = (⟨t, offset⟩ :: (lexemes (offset + (width (c :: rest) - width after)) after).1,
      (lexemes (offset + (width (c :: rest) - width after)) after).2) := by
  rw [lexemes, if_neg (Bool.eq_false_iff.mp hc)]
  split
  · simp_all
  · simp_all

theorem lexemes_token (offset : Nat) (hc : isSkipped c = false) (h : scan c rest = .token t after) :
    ∃ offset', lexemes offset (c :: rest) =
      (⟨t, offset⟩ :: (lexemes offset' after).1, (lexemes offset' after).2) :=
  ⟨_, lexemes_token_eq offset hc h⟩

theorem lexemes_stuck (offset : Nat) {found : List Char} (hc : isSkipped c = false)
    (h : scan c rest = .stuck found) :
    lexemes offset (c :: rest) = ([], some (offset, String.ofList found)) := by
  rw [lexemes, if_neg (Bool.eq_false_iff.mp hc)]
  split
  · simp_all
  · simp_all

/-- Which tokens there are does not depend on where the text starts. -/
theorem lexemes_shift (text : List Char) : ∀ m n,
    tokens (lexemes m text).1 = tokens (lexemes n text).1 ∧
      (lexemes m text).2.isSome = (lexemes n text).2.isSome := by
  -- a token leaves less to be read
  induction hn : text.length using Nat.strongRecOn generalizing text with
  | ind size ih =>
    subst hn
    intro m n
    cases text with
    | nil => simp [lexemes_nil]
    | cons c rest =>
      cases hc : isSkipped c with
      | true =>
        rw [lexemes_skip m hc, lexemes_skip n hc]
        exact ih rest.length (Nat.lt_succ_self _) rest rfl _ _
      | false =>
        cases hscan : scan c rest with
        | stuck found =>
          rw [lexemes_stuck m hc hscan, lexemes_stuck n hc hscan]
          exact ⟨rfl, rfl⟩
        | token t after =>
          obtain ⟨m', hm⟩ := lexemes_token m hc hscan
          obtain ⟨n', hn⟩ := lexemes_token n hc hscan
          obtain ⟨htokens, hstuck⟩ := ih after.length (length_of_scan hscan) after rfl m' n'
          rw [hm, hn]
          exact ⟨congrArg (t :: ·) htokens, hstuck⟩

theorem spelled?_eq (offset : Nat) (text : List Char) :
    spelled? text = if (lexemes offset text).2.isSome then none else some (tokens (lexemes offset text).1) := by
  obtain ⟨htokens, hstuck⟩ := lexemes_shift text 0 offset
  rw [← htokens, ← hstuck, spelled?]
  split
  · simp_all
  · simp_all

@[simp] theorem spelled?_nil : spelled? [] = some [] := by
  rw [spelled?_eq 0, lexemes_nil]
  rfl

theorem spelled?_skip (hc : isSkipped c = true) : spelled? (c :: rest) = spelled? rest := by
  rw [spelled?_eq 0, lexemes_skip 0 hc, ← spelled?_eq]

theorem spelled?_token (hc : isSkipped c = false) (h : scan c rest = .token t after) :
    spelled? (c :: rest) = (spelled? after).map (t :: ·) := by
  obtain ⟨offset, hlexemes⟩ := lexemes_token 0 hc h
  rw [spelled?_eq 0, hlexemes, spelled?_eq offset]
  split
  · rfl
  · rfl

theorem spelled?_stuck {found : List Char} (hc : isSkipped c = false) (h : scan c rest = .stuck found) :
    spelled? (c :: rest) = none := by
  rw [spelled?_eq 0, lexemes_stuck 0 hc h]
  rfl

end Lexemes

section Classes

variable {c : Char}

theorem isDigit_iff : Text.isDigit c = true ↔ 48 ≤ c.toNat ∧ c.toNat ≤ 57 := by
  rw [Text.isDigit, Bool.and_eq_true, decide_eq_true_eq, decide_eq_true_eq]
  rfl

theorem isLetter_iff : isLetter c = true ↔
    97 ≤ c.toNat ∧ c.toNat ≤ 122 ∨ 65 ≤ c.toNat ∧ c.toNat ≤ 90 := by
  rw [isLetter, Bool.or_eq_true, Bool.and_eq_true, Bool.and_eq_true, decide_eq_true_eq, decide_eq_true_eq,
    decide_eq_true_eq, decide_eq_true_eq]
  rfl

theorem isSchemeChar_of_isLetter (h : isLetter c = true) : isSchemeChar c = true := by
  rw [isSchemeChar, h, Bool.true_or]

theorem isWordStart_of_isLetter (h : isLetter c = true) : isWordStart c = true := by
  rw [isWordStart, h, Bool.true_or]

theorem isWordChar_of_isSchemeChar (h : isSchemeChar c = true) : isWordChar c = true := by
  rw [isWordChar, h, Bool.true_or]

theorem isWordChar_of_isDigit (h : Text.isDigit c = true) : isWordChar c = true := by
  rw [isWordChar, isSchemeChar, h, Bool.or_true, Bool.true_or]

theorem not_isDigit_of_isWordStart (h : isWordStart c = true) : Text.isDigit c = false := by
  rw [isWordStart, Bool.or_eq_true, isLetter_iff, decide_eq_true_eq] at h
  rw [Bool.eq_false_iff, Ne, isDigit_iff]
  rcases h with h | rfl
  · omega
  · decide

theorem not_isSkipped_of_isWordChar (h : isWordChar c = true) : isSkipped c = false := by
  rw [Bool.eq_false_iff]
  intro hskipped
  rw [isSkipped, Bool.or_eq_true, Bool.or_eq_true, Bool.or_eq_true, decide_eq_true_eq, decide_eq_true_eq,
    decide_eq_true_eq, decide_eq_true_eq] at hskipped
  rcases hskipped with ((rfl | rfl) | rfl) | rfl
  · exact absurd h (by decide)
  · exact absurd h (by decide)
  · exact absurd h (by decide)
  · exact absurd h (by decide)

end Classes

section Pieces

variable {text rest : List Char}

/-- Where a run of characters of one class ends, it is told from what follows. -/
theorem span_append {p : Char → Bool} (htext : ∀ c ∈ text, p c = true) (rest : List Char)
    (hrest : ∀ c ∈ rest.head?, p c = false) :
    (text ++ rest).takeWhile p = text ∧ (text ++ rest).dropWhile p = rest := by
  rw [List.takeWhile_append_of_pos htext, List.dropWhile_append_of_pos htext]
  cases rest with
  | nil => simp
  | cons c rest => simp [hrest c rfl]

theorem isPlainWord_iff : isPlainWord text = true ↔
    ∃ c more, text = c :: more ∧ isWordStart c = true ∧ ∀ d ∈ c :: more, isWordChar d = true := by
  cases text with
  | nil => simp [isPlainWord]
  | cons c more =>
    rw [isPlainWord, Bool.and_eq_true, List.all_eq_true]
    constructor
    · rintro ⟨hc, hmore⟩
      refine ⟨c, more, rfl, hc, fun d hd ↦ ?_⟩
      rcases List.mem_cons.mp hd with rfl | hd
      · exact isWordChar_of_isWordStart hc
      · exact hmore d hd
    · rintro ⟨_, _, heq, hc, hall⟩
      obtain ⟨rfl, rfl⟩ := List.cons.inj heq
      exact ⟨hc, fun d hd ↦ hall d (List.mem_cons_of_mem _ hd)⟩

theorem isPlainDigits_iff : isPlainDigits text = true ↔
    text ≠ [] ∧ ∀ c ∈ text, Text.isDigit c = true := by
  simp [isPlainDigits, List.all_eq_true]

/-- A URI stands bare if it is a scheme, a colon and what follows a colon. -/
theorem isBareUri_iff : isBareUri text = true ↔ ∃ c scheme body, text = (c :: scheme) ++ ':' :: body ∧
    isLetter c = true ∧ (∀ d ∈ c :: scheme, isSchemeChar d = true) ∧ body ≠ [] ∧
      ∀ d ∈ body, isBareChar d = true := by
  constructor
  · intro h
    rw [isBareUri] at h
    split at h
    · rename_i body hdrop
      have htext : text = text.takeWhile (· ≠ ':') ++ ':' :: body := by
        rw [← hdrop, List.takeWhile_append_dropWhile]
      simp only [Bool.and_eq_true, Bool.not_eq_true', List.isEmpty_eq_false_iff, List.all_eq_true] at h
      obtain ⟨⟨⟨hletter, hscheme⟩, hbody⟩, hbare⟩ := h
      cases hcons : text.takeWhile (· ≠ ':') with
      | nil =>
        rw [hcons] at hletter
        cases hletter
      | cons c scheme =>
        rw [hcons] at htext hletter hscheme
        exact ⟨c, scheme, body, htext, hletter, hscheme, hbody, hbare⟩
    · cases h
  · rintro ⟨c, scheme, body, rfl, hletter, hscheme, hbody, hbare⟩
    have hcolon : ∀ d ∈ c :: scheme, decide (d ≠ ':') = true := fun d hd ↦ by
      rw [decide_eq_true_eq]
      rintro rfl
      exact absurd (hscheme _ hd) (by decide)
    obtain ⟨htake, hdrop⟩ := span_append (p := fun d ↦ decide (d ≠ ':')) hcolon
      (':' :: body) (by simp)
    rw [isBareUri, hdrop]
    simp only [htake, Bool.and_eq_true, Bool.not_eq_true', List.isEmpty_eq_false_iff, List.all_eq_true]
    exact ⟨⟨⟨by simpa using hletter, hscheme⟩, hbody⟩, hbare⟩

/-- Up to the first character that is none of a scheme, a word has no colon. -/
theorem head?_dropWhile_ne_colon (htext : ∀ c ∈ text, isWordChar c = true)
    (hrest : ∀ c ∈ rest.head?, isWordChar c = false ∧ c ≠ ':') :
    ((text ++ rest).dropWhile isSchemeChar).head? ≠ some ':' := by
  induction text with
  | nil =>
    cases rest with
    | nil => simp
    | cons c rest =>
      obtain ⟨hword, hcolon⟩ := hrest c rfl
      have hscheme : isSchemeChar c = false :=
        Bool.eq_false_iff.mpr fun h ↦ Bool.eq_false_iff.mp hword (isWordChar_of_isSchemeChar h)
      simpa [hscheme] using hcolon
  | cons c text ih =>
    rw [List.cons_append, List.dropWhile_cons]
    split
    · exact ih fun d hd ↦ htext d (List.mem_cons_of_mem _ hd)
    · intro h
      obtain rfl := Option.some.inj h
      exact absurd (htext ':' List.mem_cons_self) (by decide)

theorem scan_of_isDigit {c : Char} (hc : Text.isDigit c = true) : scan c rest = scanInt (c :: rest) := by
  unfold scan
  exact if_pos hc

theorem scan_of_isWordStart {c : Char} (hc : isWordStart c = true) : scan c rest = scanName (c :: rest) := by
  unfold scan
  rw [if_neg (Bool.eq_false_iff.mp (not_isDigit_of_isWordStart hc)), if_pos hc]

theorem spelled?_word (h : isPlainWord text = true)
    (hrest : ∀ c ∈ rest.head?, isWordChar c = false ∧ c ≠ ':') :
    spelled? (text ++ rest) = (spelled? rest).map (.word (String.ofList text) :: ·) := by
  obtain ⟨c, more, rfl, hc, hall⟩ := isPlainWord_iff.mp h
  obtain ⟨htake, hdrop⟩ := span_append hall _ fun d hd ↦ (hrest d hd).1
  have hcolon := head?_dropWhile_ne_colon hall hrest
  apply spelled?_token (not_isSkipped_of_isWordChar (isWordChar_of_isWordStart hc))
  refine (scan_of_isWordStart hc).trans ?_
  change scanName (c :: more ++ rest) = _
  rw [scanName]
  split
  · rename_i heq
    exact absurd (by rw [heq]; rfl) hcolon
  · rw [scanWord, htake, hdrop]

theorem spelled?_digits (h : isPlainDigits text = true) (hrest : ∀ c ∈ rest.head?, Text.isDigit c = false) :
    spelled? (text ++ rest) = if Text.natOfDigits text ≤ maxInt then
      (spelled? rest).map (.int (Text.natOfDigits text) :: ·) else none := by
  obtain ⟨hne, hall⟩ := isPlainDigits_iff.mp h
  obtain ⟨c, more, rfl⟩ := List.exists_cons_of_ne_nil hne
  obtain ⟨htake, hdrop⟩ := span_append hall _ hrest
  have hc := hall c List.mem_cons_self
  have hskipped := not_isSkipped_of_isWordChar (isWordChar_of_isDigit hc)
  have hscan : scan c (more ++ rest) = if Text.natOfDigits (c :: more) ≤ maxInt then
      .token (.int (Text.natOfDigits (c :: more))) rest else .stuck (c :: more) := by
    rw [scan_of_isDigit hc, ← List.cons_append, scanInt, htake, hdrop]
  split
  · rename_i hle
    rw [if_pos hle] at hscan
    exact spelled?_token hskipped hscan
  · rename_i hgt
    rw [if_neg hgt] at hscan
    exact spelled?_stuck hskipped hscan

theorem spelled?_bareUri (h : isBareUri text = true) (hrest : ∀ c ∈ rest.head?, isBareChar c = false) :
    spelled? (text ++ rest) = (spelled? rest).map (.bareUri (String.ofList text) :: ·) := by
  obtain ⟨c, scheme, body, rfl, hletter, hscheme, hbody, hbare⟩ := isBareUri_iff.mp h
  obtain ⟨d, body', rfl⟩ := List.exists_cons_of_ne_nil hbody
  have hstart := isWordStart_of_isLetter hletter
  obtain ⟨htake, hdrop⟩ := span_append hscheme (':' :: (d :: body' ++ rest)) (by simp +decide)
  obtain ⟨htake', hdrop'⟩ := span_append hbare _ hrest
  apply spelled?_token (not_isSkipped_of_isWordChar (isWordChar_of_isWordStart hstart))
  have hhead : isBareChar d = true := hbare d List.mem_cons_self
  refine (scan_of_isWordStart hstart).trans ?_
  have hassoc : c :: (scheme ++ ':' :: d :: body' ++ rest) = c :: scheme ++ ':' :: (d :: body' ++ rest) := by
    simp
  change scanName (c :: (scheme ++ ':' :: d :: body' ++ rest)) = _
  rw [hassoc, scanName, hdrop]
  simp only [htake, htake', hdrop']
  simp [hletter, hhead]

theorem spelled?_bracketUri (hne : text ≠ []) (hall : ∀ c ∈ text, isBracketChar c = true) :
    spelled? ('<' :: text ++ '>' :: rest) = (spelled? rest).map (.bracketUri (String.ofList text) :: ·) := by
  obtain ⟨c, more, rfl⟩ := List.exists_cons_of_ne_nil hne
  obtain ⟨htake, hdrop⟩ := span_append hall ('>' :: rest) (by simp +decide)
  apply spelled?_token (by decide)
  change scanBracketUri (c :: more ++ '>' :: rest) = _
  rw [scanBracketUri, htake, hdrop]
  rfl

/-- The escapes of a quoted text are resolved to that text. -/
theorem quotedBody?_escaped (text : List Char) :
    quotedBody? (text.flatMap (fun c ↦ if c = '"' ∨ c = '\\' then ['\\', c] else [c]) ++ '"' :: rest) =
      some (text, rest) := by
  induction text with
  | nil => rfl
  | cons c text ih =>
    rw [List.flatMap_cons, List.append_assoc]
    split
    · rename_i hc
      have hbreak : c ≠ '\n' := by
        rintro rfl
        exact absurd hc (by decide)
      rw [List.cons_append, List.cons_append, List.nil_append, quotedBody?, if_neg hbreak, ih]
      rfl
    · rename_i hc
      obtain ⟨hquote, hslash⟩ := not_or.mp hc
      rw [List.cons_append, List.nil_append, quotedBody?, if_neg hslash, ih]
      · rfl
      · exact hquote
      · exact fun _ _ h _ ↦ hslash h

theorem spelled?_quoted (text : List Char) :
    spelled? (writeQuoted text ++ rest) = (spelled? rest).map (.quoted (String.ofList text) :: ·) := by
  apply spelled?_token (by decide)
  change scanQuoted (text.flatMap _ ++ ['"'] ++ rest) = _
  rw [scanQuoted, List.append_assoc, List.singleton_append, quotedBody?_escaped]

theorem spelled?_mark {c : Char} {m : Mark} (hm : mark? c = some m) :
    spelled? (c :: rest) = (spelled? rest).map (.mark m :: ·) := by
  unfold mark? at hm
  split at hm
  case h_11 => exact nomatch hm
  all_goals
    obtain rfl := Option.some.inj hm
    exact spelled?_token rfl rfl

theorem spelled?_ne : spelled? ('!' :: '=' :: rest) = (spelled? rest).map (.mark .ne :: ·) :=
  spelled?_token rfl rfl

end Pieces

section Formed

/-- What is known of a token that stands in a text. -/
def Token.IsFormed : Token → Prop
  | .mark _ => True
  | .int n => n ≤ maxInt
  | .word name => isPlainWord name.toList = true
  | .quoted _ => True
  | .bracketUri uri => uri.toList ≠ [] ∧ ∀ c ∈ uri.toList, isBracketChar c = true
  | .bareUri uri => isBareUri uri.toList = true

variable {c : Char} {text rest after : List Char} {t : Token}

theorem isFormed_of_scanWord (hc : isWordStart c = true) (h : scanWord (c :: rest) = .token t after) :
    t.IsFormed := by
  rw [scanWord] at h
  obtain ⟨rfl, -⟩ := Scan.token.inj h
  have hword := isWordChar_of_isWordStart hc
  rw [Token.IsFormed, String.toList_ofList, List.takeWhile_cons, if_pos hword, isPlainWord, hc,
    Bool.true_and]
  exact List.all_takeWhile

theorem isFormed_of_scanName (hc : isWordStart c = true) (h : scanName (c :: rest) = .token t after) :
    t.IsFormed := by
  rw [scanName] at h
  split at h
  · rename_i body hdrop
    split at h
    · rename_i hbare
      obtain ⟨rfl, -⟩ := Scan.token.inj h
      obtain ⟨hletter, hbare⟩ := Bool.and_eq_true_iff.mp hbare
      cases body with
      | nil => cases hbare
      | cons d body =>
        have hletter : isLetter c = true := hletter
        have hbare : isBareChar d = true := hbare
        rw [Token.IsFormed, String.toList_ofList, isBareUri_iff]
        rw [List.takeWhile_cons, if_pos (isSchemeChar_of_isLetter hletter), List.takeWhile_cons, if_pos hbare]
        refine ⟨c, rest.takeWhile isSchemeChar, d :: body.takeWhile isBareChar, rfl, hletter, ?_,
          List.cons_ne_nil _ _, ?_⟩
        · intro x hx
          rcases List.mem_cons.mp hx with rfl | hx
          · exact isSchemeChar_of_isLetter hletter
          · exact List.mem_takeWhile_imp hx
        · intro x hx
          rcases List.mem_cons.mp hx with rfl | hx
          · exact hbare
          · exact List.mem_takeWhile_imp hx
    · exact isFormed_of_scanWord hc h
  · exact isFormed_of_scanWord hc h

theorem isFormed_of_scan (h : scan c rest = .token t after) : t.IsFormed := by
  unfold scan at h
  split at h
  · rw [scanInt] at h
    split at h
    · rename_i hle
      obtain ⟨rfl, -⟩ := Scan.token.inj h
      exact hle
    · exact nomatch h
  split at h
  · rename_i hc
    exact isFormed_of_scanName hc h
  split at h
  · rw [scanQuoted] at h
    split at h
    · obtain ⟨rfl, -⟩ := Scan.token.inj h
      exact trivial
    · exact nomatch h
  split at h
  · rw [scanBracketUri] at h
    split at h
    · rename_i d more _ htake _
      obtain ⟨rfl, -⟩ := Scan.token.inj h
      rw [Token.IsFormed, String.toList_ofList]
      refine ⟨List.cons_ne_nil _ _, fun x hx ↦ ?_⟩
      rw [← htake] at hx
      exact List.mem_takeWhile_imp hx
    · exact nomatch h
  split at h
  · split at h
    · obtain ⟨rfl, -⟩ := Scan.token.inj h
      exact trivial
    · exact nomatch h
  · split at h
    · obtain ⟨rfl, -⟩ := Scan.token.inj h
      exact trivial
    · exact nomatch h

theorem isFormed_of_spelled? {ts : List Token} (h : spelled? text = some ts) : ∀ t ∈ ts, t.IsFormed := by
  induction hn : text.length using Nat.strongRecOn generalizing text ts with
  | ind size ih =>
    subst hn
    cases text with
    | nil =>
      obtain rfl := Option.some.inj (spelled?_nil.symm.trans h)
      exact fun _ ht ↦ absurd ht List.not_mem_nil
    | cons c rest =>
      cases hc : isSkipped c with
      | true => exact ih rest.length (Nat.lt_succ_self _) ((spelled?_skip hc).symm.trans h) rfl
      | false =>
        cases hscan : scan c rest with
        | stuck found => exact nomatch (spelled?_stuck hc hscan).symm.trans h
        | token t after =>
          rw [spelled?_token hc hscan] at h
          obtain ⟨more, hmore, rfl⟩ := Option.map_eq_some_iff.mp h
          intro t' ht'
          rcases List.mem_cons.mp ht' with rfl | ht'
          · exact isFormed_of_scan hscan
          · exact ih after.length (length_of_scan hscan) hmore rfl t' ht'

end Formed

end LiveGraph.Pattern
