import LiveGraph.Proofs.Pattern.Canonical
import LiveGraph.Proofs.Pattern.Forms

/-!
# The longest token

The reader takes the longest beginning of a text that is of any form, and goes on after it. Main statement: a text is
written bare exactly where it is the one token that it is meant to be, and a text in quotes is one token whatever
stands after it.
-/

namespace LiveGraph.Pattern

/-- A beginning of a text is of a form, and no longer one is of any. -/
structure Longest (text lexeme : List Char) (form : Form) : Prop where
  isPrefix : lexeme <+: text
  mem : lexeme ∈ form.language
  longest : ∀ (form' : Form) (lexeme' : List Char), lexeme' <+: text → lexeme' ∈ form'.language →
    lexeme'.length ≤ lexeme.length

/-- What the declared forms make of a text: its longest beginning of a form is read, and then the rest. -/
inductive Lexed : List Char → List Token → Prop
  | nil : Lexed [] []
  | next {form : Form} {lexeme after : List Char} {ts ts' : List Token} (hlongest : Longest (lexeme ++ after) lexeme form)
      (hread : form.read? lexeme = some ts) (hafter : Lexed after ts') : Lexed (lexeme ++ after) (ts ++ ts')

section Longest

variable {c : Char} {text lexeme rest after : List Char} {form : Form} {t : Token}

theorem Form.ne_nil_of_mem (h : lexeme ∈ form.language) : lexeme ≠ [] := by
  rintro rfl
  cases form with
  | mark m =>
    have hnil : [] = m.display.toList := h
    cases m <;> exact absurd hnil (by decide)
  | blanks | int | word | quoted | bracketUri | bareUri => exact nil_notMem_one_mul h

/-- Where a beginning of a text is of a form, one of them is the longest. -/
theorem exists_longest (hbegins : lexeme <+: text) (hmem : lexeme ∈ form.language) :
    ∃ lexeme form, Longest text lexeme form := by
  classical
  let P (n : Nat) : Prop := ∃ lexeme form, lexeme <+: text ∧ lexeme ∈ Form.language form ∧ lexeme.length = n
  have hsome : P lexeme.length := ⟨lexeme, form, hbegins, hmem, rfl⟩
  obtain ⟨lexeme', form', hbegins', hmem', hlength⟩ := Nat.findGreatest_spec (n := text.length) hbegins.length_le hsome
  refine ⟨lexeme', form', hbegins', hmem', fun form'' lexeme'' hbegins'' hmem'' ↦ ?_⟩
  rw [hlength]
  exact Nat.le_findGreatest hbegins''.length_le ⟨lexeme'', form'', hbegins'', hmem'', rfl⟩

/-- The longest beginning cannot be continued. -/
theorem Longest.notMem_append (h : Longest (lexeme ++ after) lexeme form) (form' : Form) :
    ∀ c ∈ after.head?, lexeme ++ [c] ∉ form'.language := by
  intro c hc hmem
  obtain ⟨rest, rfl⟩ := List.head?_eq_some_iff.mp hc
  have hle := h.longest form' (lexeme ++ [c]) ⟨rest, by simp⟩ hmem
  rw [List.length_append, List.length_singleton] at hle
  exact absurd hle (Nat.not_succ_le_self _)

theorem spelled?_blanks (h : ∀ c ∈ lexeme, isSkipped c = true) (after : List Char) :
    spelled? (lexeme ++ after) = spelled? after := by
  induction lexeme with
  | nil => rfl
  | cons c lexeme ih =>
    obtain ⟨hc, hlexeme⟩ := List.forall_mem_cons.mp h
    exact (spelled?_skip hc).trans (ih hlexeme)

theorem inner_enclosed (first last : Char) (body : List Char) : Form.inner (first :: (body ++ [last])) = body :=
  List.dropLast_concat

theorem isPlainDigits_concat (htext : isPlainDigits text = true) (hc : Text.isDigit c = true) :
    isPlainDigits (text ++ [c]) = true := by
  rw [isPlainDigits_iff] at htext ⊢
  refine ⟨List.append_ne_nil_of_left_ne_nil htext.1 _, fun d hd ↦ ?_⟩
  rcases List.mem_append.mp hd with hd | hd
  · exact htext.2 d hd
  · rwa [List.mem_singleton.mp hd]

theorem isPlainWord_concat (htext : isPlainWord text = true) (hc : isWordChar c = true) :
    isPlainWord (text ++ [c]) = true := by
  obtain ⟨d, more, rfl, hd, hall⟩ := isPlainWord_iff.mp htext
  refine isPlainWord_iff.mpr ⟨d, more ++ [c], rfl, hd, fun x hx ↦ ?_⟩
  rw [← List.cons_append, List.mem_append, List.mem_singleton] at hx
  rcases hx with hx | rfl
  · exact hall x hx
  · exact hc

theorem isBareUri_concat (htext : isBareUri text = true) (hc : isBareChar c = true) :
    isBareUri (text ++ [c]) = true := by
  obtain ⟨d, scheme, body, rfl, hd, hscheme, hne, hbare⟩ := isBareUri_iff.mp htext
  refine isBareUri_iff.mpr ⟨d, scheme, body ++ [c], by simp, hd, hscheme, List.append_ne_nil_of_left_ne_nil hne _,
    fun x hx ↦ ?_⟩
  rcases List.mem_append.mp hx with hx | hx
  · exact hbare x hx
  · rwa [List.mem_singleton.mp hx]

/-- Where the reader would take a URI, one stands there. -/
theorem isBareUri_taken (hletter : isLetter c = true) {body : List Char}
    (hdrop : (c :: rest).dropWhile isSchemeChar = ':' :: body) (hbare : body.head?.any isBareChar = true) :
    isBareUri ((c :: rest).takeWhile isSchemeChar ++ ':' :: body.takeWhile isBareChar) = true := by
  cases body with
  | nil => exact nomatch hbare
  | cons d body =>
    have hd : isBareChar d = true := hbare
    rw [isBareUri_iff, List.takeWhile_cons, if_pos (isSchemeChar_of_isLetter hletter), List.takeWhile_cons, if_pos hd]
    refine ⟨c, rest.takeWhile isSchemeChar, d :: body.takeWhile isBareChar, rfl, hletter, ?_, List.cons_ne_nil _ _, ?_⟩
    · exact List.forall_mem_cons.mpr ⟨isSchemeChar_of_isLetter hletter, fun _ hx ↦ List.mem_takeWhile_imp hx⟩
    · exact List.forall_mem_cons.mpr ⟨hd, fun _ hx ↦ List.mem_takeWhile_imp hx⟩

/-- A word that is the longest beginning is read as a word: no URI stands there. -/
theorem spelled?_longest_word (h : Longest (lexeme ++ after) lexeme .word) :
    spelled? (lexeme ++ after) = (spelled? after).map (.word (String.ofList lexeme) :: ·) := by
  have hword := mem_word_iff.mp h.mem
  have hafter : ∀ c ∈ after.head?, isWordChar c = false := fun c hc ↦ Bool.eq_false_iff.mpr fun hchar ↦
    h.notMem_append .word c hc (mem_word_iff.mpr (isPlainWord_concat hword hchar))
  obtain ⟨c, more, rfl, hc, hall⟩ := isPlainWord_iff.mp hword
  obtain ⟨htake, hdrop⟩ := span_append hall after hafter
  apply spelled?_token (not_isSkipped_of_isWordChar (isWordChar_of_isWordStart hc))
  refine (scan_of_isWordStart hc).trans ?_
  have hscan : scanWord (c :: (more ++ after)) = .token (.word (String.ofList (c :: more))) after := by
    rw [scanWord, ← List.cons_append, htake, hdrop]
  change scanName (c :: (more ++ after)) = _
  rw [scanName]
  split
  · rename_i body hcolon
    refine (if_neg fun huri ↦ ?_).trans hscan
    obtain ⟨hletter, hbare⟩ := Bool.and_eq_true_iff.mp huri
    -- the URI would be no longer than the word, and there is no colon in that
    have hmem := mem_bareUri_iff.mpr (isBareUri_taken hletter hcolon hbare)
    have hbegins : (c :: (more ++ after)).takeWhile isSchemeChar ++ ':' :: body.takeWhile isBareChar <+:
        c :: more ++ after := by
      refine ⟨body.dropWhile isBareChar, ?_⟩
      rw [List.append_assoc, List.cons_append, List.takeWhile_append_dropWhile, ← hcolon,
        List.takeWhile_append_dropWhile]
      rfl
    have hwithin := List.prefix_of_prefix_length_le hbegins (List.prefix_append _ _) (h.longest _ _ hbegins hmem)
    exact absurd (hall ':' (hwithin.subset (by simp))) (by decide)
  · exact hscan

/-- Where a beginning of a text is the longest, it is what the reader takes. -/
theorem spelled?_of_longest (h : Longest (lexeme ++ after) lexeme form) :
    spelled? (lexeme ++ after) = (form.read? lexeme).bind fun ts ↦ (spelled? after).map (ts ++ ·) := by
  cases form with
  | blanks =>
    rw [spelled?_blanks (mem_several_iff.mp h.mem).2]
    exact Option.map_id'.symm
  | mark m =>
    obtain rfl : lexeme = m.display.toList := h.mem
    cases m
    case ne => exact spelled?_ne
    all_goals exact spelled?_mark rfl
  | int =>
    have hdigits := mem_int_iff.mp h.mem
    have hrest : ∀ c ∈ after.head?, Text.isDigit c = false := fun c hc ↦ Bool.eq_false_iff.mpr fun hchar ↦
      h.notMem_append .int c hc (mem_int_iff.mpr (isPlainDigits_concat hdigits hchar))
    rw [spelled?_digits hdigits hrest, Form.read?]
    split
    · rfl
    · rfl
  | word => exact spelled?_longest_word h
  | quoted =>
    obtain ⟨body, hbody, rfl⟩ := mem_quoted_iff.mp h.mem
    rw [Form.read?, inner_enclosed]
    apply spelled?_token (by decide)
    change scanQuoted (body ++ ['"'] ++ after) = _
    rw [scanQuoted, List.append_assoc, List.singleton_append, quotedBody?_of_mem hbody]
  | bracketUri =>
    obtain ⟨body, rfl, hne, hall⟩ := mem_bracketUri_iff.mp h.mem
    rw [Form.read?, inner_enclosed, List.cons_append, List.append_assoc]
    exact spelled?_bracketUri hne hall
  | bareUri =>
    have huri := mem_bareUri_iff.mp h.mem
    have hrest : ∀ c ∈ after.head?, isBareChar c = false := fun c hc ↦ Bool.eq_false_iff.mpr fun hchar ↦
      h.notMem_append .bareUri c hc (mem_bareUri_iff.mpr (isBareUri_concat huri hchar))
    exact spelled?_bareUri huri hrest

/-- Up to what stands after it, a text is of a form. -/
def FormedBefore (text after : List Char) : Prop :=
  ∃ lexeme form, text = lexeme ++ after ∧ lexeme ∈ Form.language form

theorem formedBefore_of_scanInt (hdigit : Text.isDigit c = true) (h : scanInt (c :: rest) = .token t after) :
    FormedBefore (c :: rest) after := by
  rw [scanInt] at h
  split at h
  · obtain ⟨-, rfl⟩ := Scan.token.inj h
    refine ⟨(c :: rest).takeWhile Text.isDigit, .int, List.takeWhile_append_dropWhile.symm, mem_int_iff.mpr ?_⟩
    rw [List.takeWhile_cons, if_pos hdigit, isPlainDigits_iff]
    exact ⟨List.cons_ne_nil _ _, List.forall_mem_cons.mpr ⟨hdigit, fun _ hx ↦ List.mem_takeWhile_imp hx⟩⟩
  · cases h

theorem formedBefore_of_scanWord (hc : isWordStart c = true) (h : scanWord (c :: rest) = .token t after) :
    FormedBefore (c :: rest) after := by
  obtain ⟨-, rfl⟩ := Scan.token.inj h
  refine ⟨(c :: rest).takeWhile isWordChar, .word, List.takeWhile_append_dropWhile.symm, mem_word_iff.mpr ?_⟩
  rw [List.takeWhile_cons, if_pos (isWordChar_of_isWordStart hc), isPlainWord, hc, Bool.true_and]
  exact List.all_takeWhile

theorem formedBefore_of_scanName (hc : isWordStart c = true) (h : scanName (c :: rest) = .token t after) :
    FormedBefore (c :: rest) after := by
  rw [scanName] at h
  split at h
  · rename_i body hcolon
    split at h
    · rename_i huri
      obtain ⟨hletter, hbare⟩ := Bool.and_eq_true_iff.mp huri
      obtain ⟨-, rfl⟩ := Scan.token.inj h
      refine ⟨_, .bareUri, ?_, mem_bareUri_iff.mpr (isBareUri_taken hletter hcolon hbare)⟩
      rw [List.append_assoc, List.cons_append, List.takeWhile_append_dropWhile, ← hcolon,
        List.takeWhile_append_dropWhile]
    · exact formedBefore_of_scanWord hc h
  · exact formedBefore_of_scanWord hc h

theorem formedBefore_of_scanQuoted (h : scanQuoted rest = .token t after) : FormedBefore ('"' :: rest) after := by
  rw [scanQuoted] at h
  split at h
  · rename_i found _ hfound
    obtain ⟨-, rfl⟩ := Scan.token.inj h
    obtain ⟨body, hbody, rfl⟩ := exists_mem_of_quotedBody? hfound
    exact ⟨'"' :: (body ++ ['"']), .quoted, by simp, mem_quoted_iff.mpr ⟨body, hbody, rfl⟩⟩
  · cases h

theorem formedBefore_of_scanBracketUri (h : scanBracketUri rest = .token t after) :
    FormedBefore ('<' :: rest) after := by
  rw [scanBracketUri] at h
  split at h
  · rename_i d more _ htake hdrop
    obtain ⟨-, rfl⟩ := Scan.token.inj h
    refine ⟨'<' :: (d :: more ++ ['>']), .bracketUri, ?_,
      mem_bracketUri_iff.mpr ⟨d :: more, rfl, List.cons_ne_nil _ _, fun x hx ↦ ?_⟩⟩
    · rw [List.cons_append, List.append_assoc, List.singleton_append, ← hdrop, ← htake,
        List.takeWhile_append_dropWhile]
    · exact List.mem_takeWhile_imp (htake ▸ hx)
  · cases h

theorem display_of_mark? {m : Mark} (h : mark? c = some m) : m.display.toList = [c] := by
  unfold mark? at h
  split at h
  case h_11 => exact nomatch h
  all_goals
    obtain rfl := Option.some.inj h
    rfl

/-- What the reader takes is of a form. -/
theorem formedBefore_of_scan (h : scan c rest = .token t after) : FormedBefore (c :: rest) after := by
  unfold scan at h
  split at h
  · exact formedBefore_of_scanInt ‹_› h
  split at h
  · exact formedBefore_of_scanName ‹_› h
  split at h
  · rename_i hquote
    subst hquote
    exact formedBefore_of_scanQuoted h
  split at h
  · rename_i hbracket
    subst hbracket
    exact formedBefore_of_scanBracketUri h
  split at h
  · rename_i hmark
    subst hmark
    split at h
    · obtain ⟨-, rfl⟩ := Scan.token.inj h
      exact ⟨['!', '='], .mark .ne, rfl, rfl⟩
    · cases h
  · split at h
    · rename_i m hm
      obtain ⟨-, rfl⟩ := Scan.token.inj h
      exact ⟨[c], .mark m, rfl, (display_of_mark? hm).symm⟩
    · cases h

theorem lexed_of_spelled? {ts : List Token} (h : spelled? text = some ts) : Lexed text ts := by
  induction hn : text.length using Nat.strongRecOn generalizing text ts with
  | ind size ih =>
    subst hn
    cases text with
    | nil =>
      obtain rfl := Option.some.inj (spelled?_nil.symm.trans h)
      exact .nil
    | cons c rest =>
      have hform : ∃ lexeme form, lexeme <+: c :: rest ∧ lexeme ∈ Form.language form := by
        cases hc : isSkipped c with
        | true => exact ⟨[c], .blanks, ⟨rest, rfl⟩, mem_several_iff.mpr ⟨List.cons_ne_nil _ _, by simpa using hc⟩⟩
        | false =>
          cases hscan : scan c rest with
          | stuck found => exact nomatch (spelled?_stuck hc hscan).symm.trans h
          | token t after =>
            obtain ⟨lexeme, form, heq, hmem⟩ := formedBefore_of_scan hscan
            exact ⟨lexeme, form, ⟨after, heq.symm⟩, hmem⟩
      obtain ⟨_, _, hbegins, hmem⟩ := hform
      obtain ⟨lexeme, form, hlongest⟩ := exists_longest hbegins hmem
      obtain ⟨after, heq⟩ := hlongest.isPrefix
      rw [← heq] at h hlongest ⊢
      rw [spelled?_of_longest hlongest] at h
      obtain ⟨ts', hread, h⟩ := Option.bind_eq_some_iff.mp h
      obtain ⟨more, hafter, rfl⟩ := Option.map_eq_some_iff.mp h
      refine .next hlongest hread (ih after.length ?_ hafter rfl)
      rw [← heq, List.length_append]
      exact Nat.lt_add_of_pos_left (List.length_pos_of_ne_nil (Form.ne_nil_of_mem hlongest.mem))

/-- The tokens of a text are what the declared forms make of it. -/
theorem spelled?_eq_some_iff_lexed {ts : List Token} : spelled? text = some ts ↔ Lexed text ts := by
  refine ⟨lexed_of_spelled?, fun h ↦ ?_⟩
  induction h with
  | nil => exact spelled?_nil
  | next hlongest hread _ ih => rw [spelled?_of_longest hlongest, hread, ih, Option.bind_some, Option.map_some]

end Longest

/-- The same token, further on. -/
def Lexeme.shift (n : Nat) (x : Lexeme) : Lexeme :=
  { x with offset := x.offset + n }

section Shift

variable {c : Char} {rest after : List Char} {t : Token}

theorem width_append (front back : List Char) : width (front ++ back) = width front + width back := by
  induction front with
  | nil => exact (Nat.zero_add _).symm
  | cons c front ih => rw [List.cons_append, width, width, ih, Nat.add_assoc]

/-- The tokens of a text that stands further on. -/
theorem lexemes_add (text : List Char) (m n : Nat) : lexemes (m + n) text =
    ((lexemes m text).1.map (·.shift n), (lexemes m text).2.map fun stuck ↦ (stuck.1 + n, stuck.2)) := by
  induction hn : text.length using Nat.strongRecOn generalizing text m with
  | ind size ih =>
    subst hn
    cases text with
    | nil => simp [lexemes_nil]
    | cons c rest =>
      cases hc : isSkipped c with
      | true =>
        rw [lexemes_skip _ hc, lexemes_skip _ hc, Nat.add_right_comm]
        exact ih rest.length (Nat.lt_succ_self _) rest _ rfl
      | false =>
        cases hscan : scan c rest with
        | stuck found =>
          rw [lexemes_stuck _ hc hscan, lexemes_stuck _ hc hscan]
          rfl
        | token t after =>
          rw [lexemes_token_eq _ hc hscan, lexemes_token_eq _ hc hscan, Nat.add_right_comm,
            ih after.length (length_of_scan hscan) after _ rfl]
          rfl

end Shift

theorem scan_writeQuoted (text rest : List Char) : ∃ body, writeQuoted text = '"' :: body ∧
    scan '"' (body ++ rest) = .token (.quoted (String.ofList text)) rest := by
  refine ⟨_, rfl, ?_⟩
  change scanQuoted (text.flatMap _ ++ ['"'] ++ rest) = _
  rw [scanQuoted, List.append_assoc, List.singleton_append, quotedBody?_escaped]

/-- A written value is one token, whatever stands after it. -/
theorem tokenize_writeQuoted (s rest : String) : tokenize (String.ofList (writeQuoted s.toList) ++ rest) =
    (⟨.quoted s, 0⟩ :: (tokenize rest).1.map (·.shift (width (writeQuoted s.toList))),
      (tokenize rest).2.map fun stuck ↦ (stuck.1 + width (writeQuoted s.toList), stuck.2)) := by
  obtain ⟨body, hbody, hscan⟩ := scan_writeQuoted s.toList rest.toList
  have hwidth : 0 + (width ('"' :: (body ++ rest.toList)) - width rest.toList) = 0 + width (writeQuoted s.toList) := by
    rw [hbody, ← List.cons_append, width_append, Nat.add_sub_cancel]
  rw [tokenize, String.toList_append, String.toList_ofList]
  conv_lhs => rw [hbody]
  rw [List.cons_append, lexemes_token_eq 0 (by decide) hscan, hwidth, lexemes_add, String.ofList_toList]
  rfl

/-- A text is the only token of itself if it spells that token. -/
theorem spelled?_eq_one_iff {s : String} {t : Token} :
    spelled? s.toList = some [t] ↔ ∃ offset, tokenize s = ([⟨t, offset⟩], none) := by
  rw [spelled?_eq_some_iff]
  constructor
  · rintro ⟨found, hfound, htokens⟩
    obtain ⟨offset, rfl⟩ := tokens_eq_one htokens
    exact ⟨offset, hfound⟩
  · rintro ⟨offset, hfound⟩
    exact ⟨_, hfound, rfl⟩

/-- The tests by which the canonical form decides how a text can stand agree with the tokens. -/
theorem writing_agrees_with_tokens :
    (∀ (source : String) (ts : List Token),
      (∃ found, tokenize source = (found, none) ∧ tokens found = ts) ↔ Lexed source.toList ts) ∧
    (∀ s : String, isBareUri s.toList = true ↔ ∃ offset, tokenize s = ([⟨.bareUri s, offset⟩], none)) ∧
    (∀ s : String, isPlainWord s.toList = true ↔ ∃ offset, tokenize s = ([⟨.word s, offset⟩], none)) ∧
    ∀ s rest : String, tokenize (String.ofList (writeQuoted s.toList) ++ rest) =
      (⟨.quoted s, 0⟩ :: (tokenize rest).1.map (·.shift (width (writeQuoted s.toList))),
        (tokenize rest).2.map fun stuck ↦ (stuck.1 + width (writeQuoted s.toList), stuck.2)) := by
  refine ⟨fun source ts ↦ ?_, fun s ↦ ?_, fun s ↦ ?_, tokenize_writeQuoted⟩
  · rw [← spelled?_eq_some_iff, spelled?_eq_some_iff_lexed]
  · rw [← spelled?_eq_one_iff]
    constructor
    · intro h
      have hspelled : spelled? (s.toList ++ []) = _ := spelled?_bareUri h fun _ hc ↦ nomatch hc
      rwa [List.append_nil, String.ofList_toList, spelled?_nil] at hspelled
    · intro h
      exact isFormed_of_spelled? h (.bareUri s) List.mem_cons_self
  · rw [← spelled?_eq_one_iff]
    constructor
    · intro h
      have hspelled : spelled? (s.toList ++ []) = _ := spelled?_word h fun _ hc ↦ nomatch hc
      rwa [List.append_nil, String.ofList_toList, spelled?_nil] at hspelled
    · intro h
      exact isFormed_of_spelled? h (.word s) List.mem_cons_self

end LiveGraph.Pattern
