import LiveGraph.Proofs.Pattern.Spelling
import Mathlib.Computability.Language

/-!
# The forms of tokens

Which texts are of which form, as regular languages, and which token a text of a form stands for. The tests by which
the canonical form decides how a text can stand accept the languages of words and of bare URIs.
-/

namespace LiveGraph.Pattern

open scoped Computability

/-- The texts of one character of a class. -/
def one (p : Char → Bool) : Language Char :=
  {text | ∃ c, p c = true ∧ text = [c]}

/-- The texts of one or more characters of a class. -/
def several (p : Char → Bool) : Language Char :=
  one p * (one p)∗

/-- The forms of tokens, and that of what separates them. -/
inductive Form
  | blanks
  | mark (m : Mark)
  | int
  | word
  | quoted
  | bracketUri
  | bareUri

namespace Form

/-- The pieces between the quotes: a character, or an escape and the character after it, which does not end the line. -/
def quotedPiece : Language Char :=
  one (fun c ↦ c ≠ '"' && c ≠ '\\') + one (· = '\\') * one (· ≠ '\n')

/-- What a form can be written as. -/
def language : Form → Language Char
  | blanks => several isSkipped
  | mark m => {m.display.toList}
  | int => several Text.isDigit
  | word => one isWordStart * (one isWordChar)∗
  | quoted => one (· = '"') * (quotedPiece∗ * one (· = '"'))
  | bracketUri => one (· = '<') * (several isBracketChar * one (· = '>'))
  | bareUri => one isLetter * ((one isSchemeChar)∗ * (one (· = ':') * several isBareChar))

/-- What stands between the first and the last character. -/
def inner (text : List Char) : List Char :=
  text.tail.dropLast

/-- A text without its escapes. -/
def unescape : List Char → List Char
  | [] => []
  | ['\\'] => []
  | '\\' :: c :: rest => c :: unescape rest
  | c :: rest => c :: unescape rest

theorem unescape_cons {c : Char} (hc : c ≠ '\\') (rest : List Char) : unescape (c :: rest) = c :: unescape rest := by
  rw [unescape]
  · exact fun h _ ↦ hc h
  · exact fun _ _ h _ ↦ hc h

/-- The tokens that a text of a form stands for: none if it is blank, one otherwise. An integer may be too great for
any. -/
def read? : Form → List Char → Option (List Token)
  | blanks, _ => some []
  | mark m, _ => some [.mark m]
  | int, text => if Text.natOfDigits text ≤ maxInt then some [.int (Text.natOfDigits text)] else none
  | word, text => some [.word (String.ofList text)]
  | quoted, text => some [.quoted (String.ofList (unescape (inner text)))]
  | bracketUri, text => some [.bracketUri (String.ofList (inner text))]
  | bareUri, text => some [.bareUri (String.ofList text)]

end Form

section Languages

variable {p : Char → Bool} {l : Language Char} {text : List Char}

theorem mem_one_iff : text ∈ one p ↔ ∃ c, p c = true ∧ text = [c] :=
  Iff.rfl

theorem mem_one_mul_iff : text ∈ one p * l ↔ ∃ c rest, text = c :: rest ∧ p c = true ∧ rest ∈ l := by
  rw [Language.mem_mul]
  constructor
  · rintro ⟨_, ⟨c, hc, rfl⟩, rest, hrest, rfl⟩
    exact ⟨c, rest, rfl, hc, hrest⟩
  · rintro ⟨c, rest, rfl, hc, hrest⟩
    exact ⟨[c], ⟨c, hc, rfl⟩, rest, hrest, rfl⟩

theorem nil_notMem_one_mul : [] ∉ one p * l := by
  intro h
  obtain ⟨_, _, hnil, -⟩ := mem_one_mul_iff.mp h
  cases hnil

/-- What stands between two fixed characters. -/
theorem mem_enclosed_iff {first last : Char} : text ∈ one (· = first) * (l * one (· = last)) ↔
    ∃ body ∈ l, text = first :: (body ++ [last]) := by
  rw [mem_one_mul_iff]
  constructor
  · rintro ⟨_, more, rfl, hfirst, hmore⟩
    obtain rfl := of_decide_eq_true hfirst
    obtain ⟨body, hbody, _, ⟨_, hlast, rfl⟩, rfl⟩ := Language.mem_mul.mp hmore
    obtain rfl := of_decide_eq_true hlast
    exact ⟨body, hbody, rfl⟩
  · rintro ⟨body, hbody, rfl⟩
    exact ⟨first, _, rfl, decide_eq_true rfl, Language.append_mem_mul hbody ⟨last, decide_eq_true rfl, rfl⟩⟩

theorem mem_kstar_one_iff : text ∈ (one p)∗ ↔ ∀ c ∈ text, p c = true := by
  constructor
  · rintro ⟨pieces, rfl, hpieces⟩ c hc
    obtain ⟨piece, hpiece, hc⟩ := List.mem_flatten.mp hc
    obtain ⟨d, hd, rfl⟩ := hpieces piece hpiece
    rwa [List.mem_singleton.mp hc]
  · intro h
    refine ⟨text.map ([·]), (List.flatMap_singleton' text).symm, fun piece hpiece ↦ ?_⟩
    obtain ⟨c, hc, rfl⟩ := List.mem_map.mp hpiece
    exact ⟨c, h c hc, rfl⟩

theorem mem_several_iff : text ∈ several p ↔ text ≠ [] ∧ ∀ c ∈ text, p c = true := by
  rw [several, mem_one_mul_iff]
  constructor
  · rintro ⟨c, rest, rfl, hc, hrest⟩
    exact ⟨List.cons_ne_nil _ _, List.forall_mem_cons.mpr ⟨hc, mem_kstar_one_iff.mp hrest⟩⟩
  · rintro ⟨hne, hall⟩
    obtain ⟨c, rest, rfl⟩ := List.exists_cons_of_ne_nil hne
    obtain ⟨hc, hrest⟩ := List.forall_mem_cons.mp hall
    exact ⟨c, rest, rfl, hc, mem_kstar_one_iff.mpr hrest⟩

theorem append_mem_kstar {piece : List Char} (hpiece : piece ∈ l) (htext : text ∈ l∗) : piece ++ text ∈ l∗ :=
  Set.mem_of_subset_of_mem (mul_kstar_le_kstar (a := l)) (Language.append_mem_mul hpiece htext)

end Languages

section Tests

variable {text body rest after : List Char}

/-- A text stands as a plain word if it is of the form of words. -/
theorem mem_word_iff : text ∈ Form.word.language ↔ isPlainWord text = true := by
  rw [Form.language, mem_one_mul_iff, isPlainWord_iff]
  constructor
  · rintro ⟨c, more, rfl, hc, hmore⟩
    exact ⟨c, more, rfl, hc, List.forall_mem_cons.mpr ⟨isWordChar_of_isWordStart hc, mem_kstar_one_iff.mp hmore⟩⟩
  · rintro ⟨c, more, rfl, hc, hall⟩
    exact ⟨c, more, rfl, hc, mem_kstar_one_iff.mpr (List.forall_mem_cons.mp hall).2⟩

theorem mem_int_iff : text ∈ Form.int.language ↔ isPlainDigits text = true :=
  mem_several_iff.trans isPlainDigits_iff.symm

/-- A URI stands bare if it is of the form of bare URIs. -/
theorem mem_bareUri_iff : text ∈ Form.bareUri.language ↔ isBareUri text = true := by
  rw [Form.language, mem_one_mul_iff, isBareUri_iff]
  constructor
  · rintro ⟨c, more, rfl, hc, hmore⟩
    obtain ⟨scheme, hscheme, tail, htail, rfl⟩ := Language.mem_mul.mp hmore
    obtain ⟨colon, body, rfl, hcolon, hbody⟩ := mem_one_mul_iff.mp htail
    obtain rfl := of_decide_eq_true hcolon
    obtain ⟨hne, hbare⟩ := mem_several_iff.mp hbody
    refine ⟨c, scheme, body, rfl, hc, ?_, hne, hbare⟩
    exact List.forall_mem_cons.mpr ⟨isSchemeChar_of_isLetter hc, mem_kstar_one_iff.mp hscheme⟩
  · rintro ⟨c, scheme, body, rfl, hc, hscheme, hne, hbare⟩
    refine ⟨c, scheme ++ ':' :: body, rfl, hc, Language.append_mem_mul ?_ ?_⟩
    · exact mem_kstar_one_iff.mpr (List.forall_mem_cons.mp hscheme).2
    · exact mem_one_mul_iff.mpr ⟨':', body, rfl, rfl, mem_several_iff.mpr ⟨hne, hbare⟩⟩

theorem mem_bracketUri_iff : text ∈ Form.bracketUri.language ↔
    ∃ body, text = '<' :: (body ++ ['>']) ∧ body ≠ [] ∧ ∀ c ∈ body, isBracketChar c = true := by
  refine mem_enclosed_iff.trans (exists_congr fun body ↦ ?_)
  rw [mem_several_iff, and_comm]

theorem mem_quoted_iff :
    text ∈ Form.quoted.language ↔ ∃ body ∈ Form.quotedPiece∗, text = '"' :: (body ++ ['"']) :=
  mem_enclosed_iff

/-- A piece between quotes is a plain character or an escaped one. -/
theorem mem_quotedPiece_iff : text ∈ Form.quotedPiece ↔
    (∃ c, text = [c] ∧ c ≠ '"' ∧ c ≠ '\\') ∨ ∃ c, text = ['\\', c] ∧ c ≠ '\n' := by
  rw [Form.quotedPiece, Language.mem_add, mem_one_iff, mem_one_mul_iff]
  refine or_congr ⟨?_, ?_⟩ ⟨?_, ?_⟩
  · rintro ⟨c, hc, rfl⟩
    obtain ⟨hquote, hslash⟩ := Bool.and_eq_true_iff.mp hc
    exact ⟨c, rfl, of_decide_eq_true hquote, of_decide_eq_true hslash⟩
  · rintro ⟨c, rfl, hquote, hslash⟩
    exact ⟨c, by simp [hquote, hslash], rfl⟩
  · rintro ⟨slash, _, rfl, hslash, c, hc, rfl⟩
    obtain rfl := of_decide_eq_true hslash
    exact ⟨c, rfl, of_decide_eq_true hc⟩
  · rintro ⟨c, rfl, hc⟩
    exact ⟨'\\', [c], rfl, rfl, c, decide_eq_true hc, rfl⟩

/-- What is read up to the closing quote are pieces, without their escapes. -/
theorem quotedBody?_of_mem (h : body ∈ Form.quotedPiece∗) (after : List Char) :
    quotedBody? (body ++ '"' :: after) = some (Form.unescape body, after) := by
  obtain ⟨pieces, rfl, hpieces⟩ := h
  induction pieces with
  | nil => rfl
  | cons piece pieces ih =>
    obtain ⟨hpiece, hpieces⟩ := List.forall_mem_cons.mp hpieces
    have ih := ih hpieces
    rw [List.flatten_cons, List.append_assoc]
    rcases mem_quotedPiece_iff.mp hpiece with ⟨c, rfl, hquote, hslash⟩ | ⟨c, rfl, hc⟩
    · change quotedBody? (c :: (pieces.flatten ++ '"' :: after)) = some (Form.unescape (c :: pieces.flatten), after)
      rw [quotedBody?, if_neg hslash, ih, Form.unescape_cons hslash]
      · rfl
      · exact hquote
      · exact fun _ _ h _ ↦ hslash h
    · change quotedBody? ('\\' :: c :: (pieces.flatten ++ '"' :: after)) =
        some (Form.unescape ('\\' :: c :: pieces.flatten), after)
      rw [quotedBody?, if_neg hc, ih]
      rfl

theorem exists_mem_of_quotedBody? {found : List Char} (h : quotedBody? text = some (found, after)) :
    ∃ body ∈ Form.quotedPiece∗, text = body ++ '"' :: after := by
  fun_induction quotedBody? text generalizing found with
  | case1 => cases h
  | case2 rest =>
    obtain ⟨-, rfl⟩ := Prod.mk.inj (Option.some.inj h)
    exact ⟨[], Language.nil_mem_kstar _, rfl⟩
  | case3 => cases h
  | case4 c rest hc ih =>
    obtain ⟨⟨more, after'⟩, hrest, hfound⟩ := Option.map_eq_some_iff.mp h
    obtain ⟨-, rfl⟩ := Prod.mk.inj hfound
    obtain ⟨body, hbody, rfl⟩ := ih hrest
    have hpiece : ['\\', c] ∈ Form.quotedPiece := mem_quotedPiece_iff.mpr (.inr ⟨c, rfl, hc⟩)
    exact ⟨_, append_mem_kstar hpiece hbody, rfl⟩
  | case5 => cases h
  | case6 c rest hquote _ hslash ih =>
    obtain ⟨⟨more, after'⟩, hrest, hfound⟩ := Option.map_eq_some_iff.mp h
    obtain ⟨-, rfl⟩ := Prod.mk.inj hfound
    obtain ⟨body, hbody, rfl⟩ := ih hrest
    have hpiece : [c] ∈ Form.quotedPiece := mem_quotedPiece_iff.mpr (.inl ⟨c, rfl, hquote, hslash⟩)
    exact ⟨_, append_mem_kstar hpiece hbody, rfl⟩

end Tests

end LiveGraph.Pattern
