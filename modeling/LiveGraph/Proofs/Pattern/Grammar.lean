import Mathlib
import LiveGraph.Pattern.Parser

/-!
# The grammar of patterns

What sequences of tokens spell, read off the documented grammar. A pattern is the tree of its own
derivation. The readers accept all that the grammar derives, and give what it spells.
-/

namespace LiveGraph.Pattern

namespace Grammar

/-- `uri` -/
inductive Uri : Token → LiveGraph.Uri → Prop
  | bare (uri : LiveGraph.Uri) : Uri (.bareUri uri) uri
  | bracket (uri : LiveGraph.Uri) : Uri (.bracketUri uri) uri

/-- `(('+' | '-') int)?`, with an integer that an offset can hold -/
inductive Offset : List Token → Int64 → Prop
  | none : Offset [] 0
  | plus (n : Nat) : n ≤ maxOffset → Offset [.mark .plus, .int n] (.ofInt n)
  | minus (n : Nat) : n ≤ maxOffset → Offset [.mark .minus, .int n] (.ofInt (-n))

/-- `root := word | '@' word offset | uri` -/
inductive Root : List Token → LiveGraph.Root → Prop
  | collection (name : String) : Root [.word name] (.collection name)
  | anchor (role : String) {ts : List Token} {offset : Int64} : Offset ts offset →
    Root (.mark .at :: .word role :: ts) (.anchor role offset)
  | uri {t : Token} {uri : LiveGraph.Uri} : Uri t uri → Root [t] (.uri uri)

/-- `'=' | '!='` -/
inductive Comparison : Token → MatchOp → Prop
  | eq : Comparison (.mark .eq) .eq
  | ne : Comparison (.mark .ne) .ne

/-- `value := word | int | '-' int | quoted | uri` -/
inductive Literal : List Token → String → Prop
  | word (text : String) : Literal [.word text] text
  | int (n : Nat) : Literal [.int n] (toString n)
  | negative (n : Nat) : Literal [.mark .minus, .int n] ("-" ++ toString n)
  | quoted (text : String) : Literal [.quoted text] text
  | uri {t : Token} {uri : LiveGraph.Uri} : Uri t uri → Literal [t] uri

/-- `condition := word ('=' | '!=') value` -/
inductive Condition : List Token → LiveGraph.Condition → Prop
  | mk (field : String) {t : Token} {op : MatchOp} {ts : List Token} {value : String} :
    Comparison t op → Literal ts value → Condition (.word field :: t :: ts) ⟨field, op, value⟩

/-- `condition (',' condition)*` -/
inductive Conditions : List Token → List LiveGraph.Condition → Prop
  | one {ts : List Token} {c : LiveGraph.Condition} : Condition ts c → Conditions ts [c]
  | more {ts ts' : List Token} {c : LiveGraph.Condition} {cs : List LiveGraph.Condition} :
    Condition ts c → Conditions ts' cs → Conditions (ts ++ .mark .comma :: ts') (c :: cs)

/-- `suffix := '/' word | '(' conditions ')' | '[' int ']'` -/
inductive Suffix : List Token → LiveGraph.Suffix → Prop
  | relation (name : String) : Suffix [.mark .slash, .word name] (.relation name)
  | filter {ts : List Token} {cs : List LiveGraph.Condition} : Conditions ts cs →
    Suffix (.mark .openFilter :: (ts ++ [.mark .closeFilter])) (.filter cs)
  | index (n : Nat) : Suffix [.mark .openIndex, .int n, .mark .closeIndex] (.index n)

/-- `suffix*` -/
inductive Suffixes : List Token → List LiveGraph.Suffix → Prop
  | nil : Suffixes [] []
  | cons {ts ts' : List Token} {s : LiveGraph.Suffix} {ss : List LiveGraph.Suffix} :
    Suffix ts s → Suffixes ts' ss → Suffixes (ts ++ ts') (s :: ss)

/-- `pattern := root suffix*` -/
inductive Derives : List Token → LiveGraph.Pattern → Prop
  | mk {ts ts' : List Token} {root : LiveGraph.Root} {suffixes : List LiveGraph.Suffix} :
    Root ts root → Suffixes ts' suffixes → Derives (ts ++ ts') ⟨root, suffixes⟩

/-- Tokens that some pattern starts with. -/
def Viable (ts : List Token) : Prop :=
  ∃ more p, Derives (ts ++ more) p

end Grammar

/-- The tokens of lexemes, wherever they stand. -/
def tokens (lexemes : List Lexeme) : List Token :=
  lexemes.map (·.token)

section Complete

open Grammar

variable {last : Nat} {used rest : List Lexeme} {x : Lexeme}

theorem tokens_append (used rest : List Lexeme) : tokens (used ++ rest) = tokens used ++ tokens rest :=
  List.map_append

theorem tokens_eq_cons {t : Token} {ts : List Token} (h : tokens used = t :: ts) :
    ∃ offset used', used = ⟨t, offset⟩ :: used' ∧ tokens used' = ts := by
  obtain ⟨x, used', rfl, rfl, rfl⟩ := List.map_eq_cons_iff.mp h
  exact ⟨x.offset, used', rfl, rfl⟩

theorem tokens_eq_one {t : Token} (h : tokens used = [t]) : ∃ offset, used = [⟨t, offset⟩] := by
  obtain ⟨offset, used', rfl, hnil⟩ := tokens_eq_cons h
  exact ⟨offset, by rw [List.map_eq_nil_iff.mp hnil]⟩

theorem tokens_eq_two {t t' : Token} (h : tokens used = [t, t']) :
    ∃ offset offset', used = [⟨t, offset⟩, ⟨t', offset'⟩] := by
  obtain ⟨offset, used', rfl, hrest⟩ := tokens_eq_cons h
  obtain ⟨offset', rfl⟩ := tokens_eq_one hrest
  exact ⟨offset, offset', rfl⟩

theorem tokens_eq_append {ts ts' : List Token} (h : tokens used = ts ++ ts') :
    ∃ front back, used = front ++ back ∧ tokens front = ts ∧ tokens back = ts' :=
  List.map_eq_append_iff.mp h

theorem readLiteral_of_literal {value : String} (h : Literal (tokens used) value) :
    readLiteral last (used ++ rest) = .ok (value, rest) := by
  generalize hts : tokens used = ts at h
  cases h with
  | negative n =>
    obtain ⟨_, _, rfl⟩ := tokens_eq_two hts
    rfl
  | uri huri =>
    obtain ⟨_, rfl⟩ := tokens_eq_one hts
    cases huri <;> rfl
  | _ =>
    obtain ⟨_, rfl⟩ := tokens_eq_one hts
    rfl

theorem readCondition_of_condition {c : LiveGraph.Condition} (h : Grammar.Condition (tokens used) c) :
    readCondition last (used ++ rest) = .ok (c, rest) := by
  generalize hts : tokens used = ts at h
  cases h with
  | mk field hop hvalue =>
    obtain ⟨_, used', rfl, hrest⟩ := tokens_eq_cons hts
    obtain ⟨_, used', rfl, rfl⟩ := tokens_eq_cons hrest
    have hliteral : readLiteral last (used' ++ rest) = .ok (_, rest) := readLiteral_of_literal hvalue
    cases hop with
    | eq =>
      change (readLiteral last (used' ++ rest)).map _ = _
      rw [hliteral]
      rfl
    | ne =>
      change (readLiteral last (used' ++ rest)).map _ = _
      rw [hliteral]
      rfl

/-- After a condition there is another one, or the bracket that closes all of them. -/
theorem readConditions_eq (last : Nat) (lexemes : List Lexeme) :
    readConditions last lexemes = match readCondition last lexemes with
      | .error fault => .error fault
      | .ok (c, ⟨.mark .comma, _⟩ :: rest) =>
        (readConditions last rest).map fun (more, after) ↦ (c :: more, after)
      | .ok (c, ⟨.mark .closeFilter, _⟩ :: after) => .ok ([c], after)
      | .ok (_, after) => .error (blame last .filterEnd after) := by
  rw [readConditions]
  split <;> simp_all

theorem readConditions_of_conditions {cs : List LiveGraph.Condition}
    (h : Conditions (tokens used) cs) (offset : Nat) :
    readConditions last (used ++ ⟨.mark .closeFilter, offset⟩ :: rest) = .ok (cs, rest) := by
  generalize hts : tokens used = ts at h
  induction h generalizing used with
  | one hc =>
    subst hts
    rw [readConditions_eq, readCondition_of_condition hc]
  | more hc _ ih =>
    obtain ⟨front, back, rfl, rfl, hback⟩ := tokens_eq_append hts
    obtain ⟨_, back', rfl, hback'⟩ := tokens_eq_cons hback
    rw [readConditions_eq, List.append_assoc, readCondition_of_condition hc]
    change (readConditions last (back' ++ _ :: rest)).map _ = _
    rw [ih hback']
    rfl

theorem readSuffix_of_suffix {s : LiveGraph.Suffix} (h : Grammar.Suffix (tokens used) s) :
    readSuffix last (used ++ rest) = .ok (s, rest) := by
  generalize hts : tokens used = ts at h
  cases h with
  | relation name =>
    obtain ⟨_, _, rfl⟩ := tokens_eq_two hts
    rfl
  | filter hconditions =>
    obtain ⟨_, used', rfl, hused'⟩ := tokens_eq_cons hts
    obtain ⟨front, back, rfl, rfl, hback⟩ := tokens_eq_append hused'
    obtain ⟨offset, rfl⟩ := tokens_eq_one hback
    change (readConditions last (front ++ [_] ++ rest)).map _ = _
    rw [List.append_assoc, List.singleton_append, readConditions_of_conditions hconditions]
    rfl
  | index n =>
    obtain ⟨_, used', rfl, hused'⟩ := tokens_eq_cons hts
    obtain ⟨_, _, rfl⟩ := tokens_eq_two hused'
    rfl

/-- A suffix starts with a mark that is no sign. -/
theorem head_of_suffix {ts : List Token} {s : LiveGraph.Suffix} (h : Grammar.Suffix ts s) :
    ∃ m ts', ts = .mark m :: ts' ∧ m ≠ .plus ∧ m ≠ .minus := by
  cases h <;> exact ⟨_, _, rfl, by decide, by decide⟩

theorem readSuffixes_cons (last : Nat) (x : Lexeme) (rest : List Lexeme) :
    readSuffixes last (x :: rest) = match readSuffix last (x :: rest) with
      | .error fault => .error fault
      | .ok (s, after) => (readSuffixes last after).map (s :: ·) := by
  rw [readSuffixes]
  split <;> simp_all

theorem readSuffixes_of_suffixes {ss : List LiveGraph.Suffix} (h : Suffixes (tokens used) ss) :
    readSuffixes last used = .ok ss := by
  generalize hts : tokens used = ts at h
  induction h generalizing used with
  | nil =>
    rw [List.map_eq_nil_iff.mp hts]
    rw [readSuffixes]
  | cons hs _ ih =>
    obtain ⟨front, back, rfl, rfl, hback⟩ := tokens_eq_append hts
    obtain ⟨_, _, hfront, -⟩ := head_of_suffix hs
    obtain ⟨_, front', rfl, -⟩ := tokens_eq_cons hfront
    rw [List.cons_append, readSuffixes_cons, ← List.cons_append, readSuffix_of_suffix hs]
    change (readSuffixes last back).map _ = _
    rw [ih hback]
    rfl

/-- A sign after a root would belong to it. -/
def StartsSigned (lexemes : List Lexeme) : Prop :=
  ∃ x ∈ lexemes.head?, x.token = .mark .plus ∨ x.token = .mark .minus

theorem readOffset_of_not_signed (h : ¬StartsSigned rest) : readOffset last rest = .ok (0, rest) := by
  cases rest with
  | nil => rfl
  | cons x rest =>
    obtain ⟨t, offset⟩ := x
    have hplus : t ≠ .mark .plus := fun ht ↦ h ⟨_, rfl, .inl ht⟩
    have hminus : t ≠ .mark .minus := fun ht ↦ h ⟨_, rfl, .inr ht⟩
    unfold readOffset
    split <;> simp_all

theorem readOffset_of_offset {offset : Int64} (h : Offset (tokens used) offset)
    (hrest : ¬StartsSigned rest) : readOffset last (used ++ rest) = .ok (offset, rest) := by
  generalize hts : tokens used = ts at h
  cases h with
  | none =>
    rw [List.map_eq_nil_iff.mp hts]
    exact readOffset_of_not_signed hrest
  | plus n hn =>
    obtain ⟨_, _, rfl⟩ := tokens_eq_two hts
    exact if_pos hn
  | minus n hn =>
    obtain ⟨_, _, rfl⟩ := tokens_eq_two hts
    exact if_pos hn

theorem readRoot_of_root {root : LiveGraph.Root} (h : Grammar.Root (tokens used) root)
    (hrest : ¬StartsSigned rest) : readRoot last (used ++ rest) = .ok (root, rest) := by
  generalize hts : tokens used = ts at h
  cases h with
  | collection name =>
    obtain ⟨_, rfl⟩ := tokens_eq_one hts
    rfl
  | anchor role hoffset =>
    obtain ⟨_, used', rfl, hused'⟩ := tokens_eq_cons hts
    obtain ⟨_, used', rfl, rfl⟩ := tokens_eq_cons hused'
    change (readOffset last (used' ++ rest)).map _ = _
    rw [readOffset_of_offset hoffset hrest]
    rfl
  | uri huri =>
    obtain ⟨_, rfl⟩ := tokens_eq_one hts
    cases huri <;> rfl

theorem not_startsSigned {ss : List LiveGraph.Suffix} (h : Suffixes (tokens rest) ss) :
    ¬StartsSigned rest := by
  rintro ⟨x, hx, hsign⟩
  obtain ⟨rest', rfl⟩ := List.head?_eq_some_iff.mp hx
  generalize hts : tokens (x :: rest') = ts at h
  cases h with
  | nil => exact absurd hts (List.cons_ne_nil _ _)
  | cons hs _ =>
    obtain ⟨m, ts', rfl, hplus, hminus⟩ := head_of_suffix hs
    have hmark : x.token = .mark m := (List.cons.inj hts).1
    rcases hsign with hsign | hsign
    · exact hplus (Token.mark.inj (hmark.symm.trans hsign))
    · exact hminus (Token.mark.inj (hmark.symm.trans hsign))

/-- Whatever the grammar derives is read, and as what the grammar says. -/
theorem ofLexemes?_of_derives {lexemes : List Lexeme} {p : LiveGraph.Pattern}
    (h : Derives (tokens lexemes) p) : ofLexemes? last lexemes = .ok p := by
  generalize hts : tokens lexemes = ts at h
  cases h with
  | mk hroot hsuffixes =>
    obtain ⟨front, back, rfl, rfl, rfl⟩ := tokens_eq_append hts
    rw [ofLexemes?, readRoot_of_root hroot (not_startsSigned hsuffixes)]
    change (readSuffixes last back).map _ = _
    rw [readSuffixes_of_suffixes hsuffixes]
    rfl

end Complete

end LiveGraph.Pattern
