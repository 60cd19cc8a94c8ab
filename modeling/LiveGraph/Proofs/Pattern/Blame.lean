import LiveGraph.Proofs.Pattern.Explained

/-!
# Which token is to blame

Each reader of the parser decides by the first lexeme and hands the rest on to other readers, so the grammar
explains what it answers. Hence a source is parsed if and only if its tokens are those of a pattern. If they
are not, the parser blames the first token that no pattern can have at its place, or the end of the source.
-/

namespace LiveGraph.Pattern

variable {last : Nat}

section Readers

open Grammar

/-- How readers go on after the first lexeme. -/
abbrev Steps (α : Type) := Token → Except Expected (List Lexeme → Reading α)

def comparisonSteps : Steps MatchOp
  | .mark .eq => .ok fun rest ↦ .ok (.eq, rest)
  | .mark .ne => .ok fun rest ↦ .ok (.ne, rest)
  | _ => .error .comparison

theorem readMatchOp_eq (last : Nat) : readMatchOp last = branch last .comparison comparisonSteps := by
  funext lexemes
  rcases lexemes with _ | ⟨⟨t, offset⟩, rest⟩
  · rfl
  · cases t with
    | mark m => cases m <;> rfl
    | _ => rfl

theorem explained_readMatchOp (lexemes : List Lexeme) :
    Explained last (readMatchOp last) (fun ts op ↦ ∃ t, ts = [t] ∧ Comparison t op) lexemes := by
  rw [readMatchOp_eq]
  refine .branch ⟨[.mark .eq], .eq, _, rfl, .eq⟩ fun x rest _ r hr ↦ ?_
  obtain ⟨t, offset⟩ := x
  match t, hr with
  | .mark .eq, rfl => exact .pure ⟨_, rfl, .eq⟩
  | .mark .ne, rfl => exact .pure ⟨_, rfl, .ne⟩

def digitsSteps : Steps String
  | .int n => .ok fun rest ↦ .ok ("-" ++ toString n, rest)
  | _ => .error .valueDigits

def literalSteps (last : Nat) : Steps String
  | .word text => .ok fun rest ↦ .ok (text, rest)
  | .quoted text => .ok fun rest ↦ .ok (text, rest)
  | .bareUri text => .ok fun rest ↦ .ok (text, rest)
  | .bracketUri text => .ok fun rest ↦ .ok (text, rest)
  | .int n => .ok fun rest ↦ .ok (toString n, rest)
  | .mark .minus => .ok (branch last .valueDigits digitsSteps)
  | _ => .error .value

theorem readLiteral_eq (last : Nat) : readLiteral last = branch last .value (literalSteps last) := by
  funext lexemes
  rcases lexemes with _ | ⟨⟨t, offset⟩, rest⟩
  · rfl
  · cases t with
    | mark m =>
      cases m with
      | minus => rcases rest with _ | ⟨⟨_ | _ | _ | _ | _ | _, _⟩, _⟩ <;> rfl
      | _ => rfl
    | _ => rfl

theorem explained_readLiteral (lexemes : List Lexeme) :
    Explained last (readLiteral last) Literal lexemes := by
  rw [readLiteral_eq]
  refine .branch ⟨[.word "a"], "a", .word "a"⟩ fun x rest _ r hr ↦ ?_
  obtain ⟨t, offset⟩ := x
  match t, hr with
  | .word text, rfl => exact .pure (.word text)
  | .quoted text, rfl => exact .pure (.quoted text)
  | .bareUri text, rfl => exact .pure (.uri (.bare text))
  | .bracketUri text, rfl => exact .pure (.uri (.bracket text))
  | .int n, rfl => exact .pure (.int n)
  | .mark .minus, rfl =>
    refine .branch ⟨[.int 0], _, .negative 0⟩ fun x rest _ r hr ↦ ?_
    obtain ⟨t, offset⟩ := x
    match t, hr with
    | .int n, rfl => exact .pure (.negative n)

def conditionSteps (last : Nat) : Steps LiveGraph.Condition
  | .word field => .ok (chain (readMatchOp last) fun op lexemes ↦
      (readLiteral last lexemes).map fun (value, after) ↦ (⟨field, op, value⟩, after))
  | _ => .error .field

theorem readCondition_eq (last : Nat) : readCondition last = branch last .field (conditionSteps last) := by
  funext lexemes
  rcases lexemes with _ | ⟨⟨t, offset⟩, rest⟩
  · rfl
  · cases t with
    | word field =>
      simp only [readCondition, branch, conditionSteps, chain]
      cases readMatchOp last rest <;> rfl
    | _ => rfl

theorem explained_readCondition (lexemes : List Lexeme) :
    Explained last (readCondition last) Grammar.Condition lexemes := by
  rw [readCondition_eq]
  have hliteral : Literal [.word "a"] "a" := .word "a"
  refine .branch ⟨[.word "a", .mark .eq, .word "a"], _, .mk "a" .eq hliteral⟩ fun x rest _ r hr ↦ ?_
  obtain ⟨t, offset⟩ := x
  match t, hr with
  | .word field, rfl =>
    refine (explained_readMatchOp rest).chain (fun used rest' op _ hop ↦ ?_) fun ts op hop ↦ ?_
    · obtain ⟨t, ht, hop⟩ := hop
      refine (explained_readLiteral rest').map _ fun ts value hvalue ↦ ?_
      rw [ht]
      exact .mk field hop hvalue
    · obtain ⟨t, rfl, hop⟩ := hop
      exact ⟨[.word "a"], _, .mk field hop hliteral⟩

/-- Conditions and the bracket that closes them. -/
def Closed : Phrases (List LiveGraph.Condition) := fun ts cs ↦
  ∃ ts', ts = ts' ++ [.mark .closeFilter] ∧ Conditions ts' cs

def conditionsSteps (last : Nat) (c : LiveGraph.Condition) : Steps (List LiveGraph.Condition)
  | .mark .comma => .ok fun rest ↦
    (readConditions last rest).map fun (more, after) ↦ (c :: more, after)
  | .mark .closeFilter => .ok fun after ↦ .ok ([c], after)
  | _ => .error .filterEnd

theorem readConditions_eq_chain (last : Nat) : readConditions last =
    chain (readCondition last) fun c ↦ branch last .filterEnd (conditionsSteps last c) := by
  funext lexemes
  rw [readConditions_eq, chain]
  cases readCondition last lexemes with
  | error fault => rfl
  | ok read =>
    obtain ⟨c, _ | ⟨⟨t, offset⟩, rest⟩⟩ := read
    · rfl
    · cases t with
      | mark m => cases m <;> rfl
      | _ => rfl

theorem closed_of_condition {ts : List Token} {c : LiveGraph.Condition} (h : Grammar.Condition ts c) :
    Closed (ts ++ [.mark .closeFilter]) [c] :=
  ⟨ts, rfl, .one h⟩

theorem Closed.cons {ts ts' : List Token} {c : LiveGraph.Condition} {cs : List LiveGraph.Condition}
    (h : Grammar.Condition ts c) (h' : Closed ts' cs) : Closed (ts ++ .mark .comma :: ts') (c :: cs) := by
  obtain ⟨ts', rfl, hcs⟩ := h'
  exact ⟨_, by simp, .more h hcs⟩

theorem explained_readConditions (lexemes : List Lexeme) :
    Explained last (readConditions last) Closed lexemes := by
  -- each condition is read from fewer lexemes than the one before
  induction hn : lexemes.length using Nat.strongRecOn generalizing lexemes with
  | ind n ih =>
    rw [readConditions_eq_chain]
    refine (explained_readCondition lexemes).chain (fun used rest c hlexemes hc ↦ ?_) fun ts c hc ↦
      ⟨_, _, closed_of_condition hc⟩
    refine .branch ⟨_, _, closed_of_condition hc⟩ fun x rest' hrest r hr ↦ ?_
    obtain ⟨t, offset⟩ := x
    match t, hr with
    | .mark .closeFilter, rfl => exact .pure (closed_of_condition hc)
    | .mark .comma, rfl =>
      have hlt : rest'.length < n := by
        rw [← hn, hlexemes, hrest, List.length_append, List.length_cons]
        omega
      exact (ih _ hlt rest' rfl).map _ fun ts cs hcs ↦ hcs.cons hc

def indexEndSteps (n : Nat) : Steps Nat
  | .mark .closeIndex => .ok fun after ↦ .ok (n, after)
  | _ => .error .indexEnd

def indexSteps (last : Nat) : Steps Nat
  | .int n => .ok (branch last .indexEnd (indexEndSteps n))
  | _ => .error .index

theorem readIndex_eq (last : Nat) : readIndex last = branch last .index (indexSteps last) := by
  funext lexemes
  rcases lexemes with _ | ⟨⟨t, offset⟩, rest⟩
  · rfl
  · cases t with
    | int n => rcases rest with _ | ⟨⟨⟨_ | _ | _ | _ | _ | _ | _ | _ | _ | _ | _⟩ | _ | _ | _ | _ | _, _⟩, _⟩ <;> rfl
    | _ => rfl

theorem explained_readIndex (lexemes : List Lexeme) :
    Explained last (readIndex last) (fun ts n ↦ ts = [.int n, .mark .closeIndex]) lexemes := by
  rw [readIndex_eq]
  refine .branch ⟨_, 0, rfl⟩ fun x rest _ r hr ↦ ?_
  obtain ⟨t, offset⟩ := x
  match t, hr with
  | .int n, rfl =>
    refine .branch ⟨_, n, rfl⟩ fun x rest _ r hr ↦ ?_
    obtain ⟨t, offset⟩ := x
    match t, hr with
    | .mark .closeIndex, rfl => exact .pure rfl

def relationSteps : Steps LiveGraph.Suffix
  | .word name => .ok fun after ↦ .ok (.relation name, after)
  | _ => .error .relation

def suffixSteps (last : Nat) : Steps LiveGraph.Suffix
  | .mark .slash => .ok (branch last .relation relationSteps)
  | .mark .openFilter => .ok fun lexemes ↦
    (readConditions last lexemes).map fun (cs, after) ↦ (.filter cs, after)
  | .mark .openIndex => .ok fun lexemes ↦
    (readIndex last lexemes).map fun (n, after) ↦ (.index n, after)
  | _ => .error .suffix

theorem readSuffix_eq (last : Nat) : readSuffix last = branch last .suffix (suffixSteps last) := by
  funext lexemes
  rcases lexemes with _ | ⟨⟨t, offset⟩, rest⟩
  · rfl
  · cases t with
    | mark m =>
      cases m with
      | slash => rcases rest with _ | ⟨⟨_ | _ | _ | _ | _ | _, _⟩, _⟩ <;> rfl
      | _ => rfl
    | _ => rfl

theorem explained_readSuffix (lexemes : List Lexeme) :
    Explained last (readSuffix last) Grammar.Suffix lexemes := by
  rw [readSuffix_eq]
  refine .branch ⟨_, _, .relation "a"⟩ fun x rest _ r hr ↦ ?_
  obtain ⟨t, offset⟩ := x
  match t, hr with
  | .mark .slash, rfl =>
    refine .branch ⟨_, _, .relation "a"⟩ fun x rest _ r hr ↦ ?_
    obtain ⟨t, offset⟩ := x
    match t, hr with
    | .word name, rfl => exact .pure (.relation name)
  | .mark .openFilter, rfl =>
    refine (explained_readConditions rest).map _ fun ts cs hcs ↦ ?_
    obtain ⟨ts', rfl, hcs⟩ := hcs
    exact .filter hcs
  | .mark .openIndex, rfl =>
    refine (explained_readIndex rest).map _ fun ts n hts ↦ ?_
    rw [hts]
    exact .index n

def moveSteps (negative : Bool) : Steps Int64
  | .int n =>
    if n ≤ maxOffset then .ok fun rest ↦ .ok (.ofInt (if negative then -n else n), rest)
    else .error .anchorOffsetInRange
  | _ => .error .anchorOffset

theorem readMove_eq (last : Nat) (negative : Bool) :
    readMove last negative = branch last .anchorOffset (moveSteps negative) := by
  funext lexemes
  rcases lexemes with _ | ⟨⟨t, offset⟩, rest⟩
  · rfl
  · cases t with
    | int n =>
      rw [readMove, branch, moveSteps]
      split <;> rfl
    | _ => rfl

theorem explained_readMove (negative : Bool) (lexemes : List Lexeme) :
    Explained last (readMove last negative)
      (Phrases.after Offset [.mark (if negative then .minus else .plus)]) lexemes := by
  have hoffset {n : Nat} (hn : n ≤ maxOffset) :
      Offset [.mark (if negative then .minus else .plus), .int n] (.ofInt (if negative then -n else n)) := by
    cases negative
    · exact .plus n hn
    · exact .minus n hn
  rw [readMove_eq]
  refine .branch ⟨[.int 0], _, hoffset (Nat.zero_le _)⟩ fun x rest _ r hr ↦ ?_
  obtain ⟨t, offset⟩ := x
  cases t with
  | int n =>
    rw [moveSteps] at hr
    split at hr
    · rename_i hn
      cases hr
      exact .pure (hoffset hn)
    · exact nomatch hr
  | _ => exact nomatch hr

/-- An offset may be left out: then nothing is used up, and the next lexeme is no sign. -/
theorem explained_readOffset (lexemes : List Lexeme) :
    Explained last (readOffset last) Offset lexemes := by
  by_cases hsigned : StartsSigned lexemes
  · obtain ⟨⟨t, offset⟩, hx, hsign⟩ := hsigned
    obtain ⟨rest, rfl⟩ := List.head?_eq_some_iff.mp hx
    rcases hsign with rfl | rfl
    · exact .cons (fun _ ↦ rfl) (explained_readMove false rest)
    · exact .cons (fun _ ↦ rfl) (explained_readMove true rest)
  · refine ⟨fun offset rest h ↦ ?_, fun fault h ↦ ?_⟩
    · obtain ⟨rfl, rfl⟩ := Prod.mk.inj (Except.ok.inj ((readOffset_of_not_signed hsigned).symm.trans h))
      refine ⟨[], rfl, .none, fun rest' hhead ↦ readOffset_of_not_signed fun h ↦ hsigned ?_⟩
      rwa [StartsSigned, List.nil_append, hhead] at h
    · exact nomatch (readOffset_of_not_signed hsigned).symm.trans h

def roleSteps (last : Nat) : Steps LiveGraph.Root
  | .word role => .ok fun rest ↦
    (readOffset last rest).map fun (offset, after) ↦ (.anchor role offset, after)
  | _ => .error .role

def rootSteps (last : Nat) : Steps LiveGraph.Root
  | .word name => .ok fun rest ↦ .ok (.collection name, rest)
  | .bareUri uri => .ok fun rest ↦ .ok (.uri uri, rest)
  | .bracketUri uri => .ok fun rest ↦ .ok (.uri uri, rest)
  | .mark .at => .ok (branch last .role (roleSteps last))
  | _ => .error .root

theorem readRoot_eq (last : Nat) : readRoot last = branch last .root (rootSteps last) := by
  funext lexemes
  rcases lexemes with _ | ⟨⟨t, offset⟩, rest⟩
  · rfl
  · cases t with
    | mark m =>
      cases m with
      | «at» => rcases rest with _ | ⟨⟨_ | _ | _ | _ | _ | _, _⟩, _⟩ <;> rfl
      | _ => rfl
    | _ => rfl

theorem explained_readRoot (lexemes : List Lexeme) :
    Explained last (readRoot last) Grammar.Root lexemes := by
  rw [readRoot_eq]
  refine .branch ⟨_, _, .collection "a"⟩ fun x rest _ r hr ↦ ?_
  obtain ⟨t, offset⟩ := x
  match t, hr with
  | .word name, rfl => exact .pure (.collection name)
  | .bareUri uri, rfl => exact .pure (.uri (.bare uri))
  | .bracketUri uri, rfl => exact .pure (.uri (.bracket uri))
  | .mark .at, rfl =>
    refine .branch ⟨_, _, .anchor "a" .none⟩ fun x rest _ r hr ↦ ?_
    obtain ⟨t, offset⟩ := x
    match t, hr with
    | .word role, rfl => exact (explained_readOffset rest).map _ fun ts offset h ↦ .anchor role h

/-- The suffixes go to the end, so that nothing is left. -/
def suffixesToEnd (last : Nat) (lexemes : List Lexeme) : Reading (List LiveGraph.Suffix) :=
  (readSuffixes last lexemes).map (·, [])

theorem suffixesToEnd_cons (last : Nat) (x : Lexeme) (rest : List Lexeme) :
    suffixesToEnd last (x :: rest) = chain (readSuffix last) (fun s lexemes ↦
      (suffixesToEnd last lexemes).map fun (ss, after) ↦ (s :: ss, after)) (x :: rest) := by
  rw [suffixesToEnd, readSuffixes_cons, chain]
  cases readSuffix last (x :: rest) with
  | error fault => rfl
  | ok read =>
    simp only [suffixesToEnd]
    cases readSuffixes last read.2 <;> rfl

theorem explained_suffixesToEnd (lexemes : List Lexeme) :
    Explained last (suffixesToEnd last) Suffixes lexemes := by
  induction hn : lexemes.length using Nat.strongRecOn generalizing lexemes with
  | ind n ih =>
    cases lexemes with
    | nil =>
      have hnil : suffixesToEnd last [] = .ok ([], []) := by
        rw [suffixesToEnd, readSuffixes]
        rfl
      constructor
      · intro ss rest h
        obtain ⟨rfl, rfl⟩ := Prod.mk.inj (Except.ok.inj (hnil.symm.trans h))
        refine ⟨[], rfl, .nil, fun rest' hhead ↦ ?_⟩
        rw [List.nil_append, List.head?_eq_none_iff.mp hhead, hnil]
      · intro fault h
        cases hnil.symm.trans h
    | cons x rest =>
      refine .congr_cons (suffixesToEnd_cons last) ?_
      refine (explained_readSuffix _).chain (fun used rest' s hused hs ↦ ?_) fun ts s hs ↦
        ⟨[], _, .cons hs .nil⟩
      have hlt : rest'.length < n := by
        obtain ⟨m, ts', hts, -⟩ := head_of_suffix hs
        obtain ⟨_, used', rfl, -⟩ := tokens_eq_cons hts
        rw [← hn, hused, List.length_append, List.length_cons]
        omega
      exact (ih _ hlt rest' rfl).map _ fun ts ss hss ↦ .cons hs hss

/-- The reader of all there is, as one that leaves nothing. -/
def patternToEnd (last : Nat) (lexemes : List Lexeme) : Reading LiveGraph.Pattern :=
  (ofLexemes? last lexemes).map (·, [])

theorem patternToEnd_eq (last : Nat) : patternToEnd last =
    chain (readRoot last) fun root lexemes ↦
      (suffixesToEnd last lexemes).map fun (ss, rest) ↦ (⟨root, ss⟩, rest) := by
  funext lexemes
  rw [patternToEnd, ofLexemes?, chain]
  cases readRoot last lexemes with
  | error fault => rfl
  | ok read =>
    simp only [suffixesToEnd]
    cases readSuffixes last read.2 <;> rfl

theorem explained_patternToEnd (lexemes : List Lexeme) :
    Explained last (patternToEnd last) Derives lexemes := by
  rw [patternToEnd_eq]
  refine (explained_readRoot lexemes).chain (fun used rest root _ hroot ↦ ?_) fun ts root hroot ↦
    ⟨[], _, .mk hroot .nil⟩
  exact (explained_suffixesToEnd rest).map _ fun ts ss hss ↦ .mk hroot hss

end Readers

section Sources

open Grammar

variable {last : Nat} {lexemes : List Lexeme} {p : LiveGraph.Pattern}

/-- What is read is what the grammar derives. -/
theorem ofLexemes?_eq_ok_iff : ofLexemes? last lexemes = .ok p ↔ Derives (tokens lexemes) p := by
  constructor
  · intro h
    have hread : patternToEnd last lexemes = .ok (p, []) := by
      rw [patternToEnd, h]
      rfl
    obtain ⟨used, hused, hderives, -⟩ := (explained_patternToEnd lexemes).accept p [] hread
    rwa [hused, List.append_nil]
  · exact ofLexemes?_of_derives

/-- Lexemes for any tokens. -/
theorem exists_tokens (ts : List Token) : ∃ lexemes, tokens lexemes = ts := by
  refine ⟨ts.map (⟨·, 0⟩), ?_⟩
  rw [tokens, List.map_map]
  exact List.map_id ts

/-- A refusal blames the first lexeme that no pattern can have there, or the end where there is none. -/
theorem ofLexemes?_eq_error {fault : ParseFault} (h : ofLexemes? last lexemes = .error fault) :
    (∃ before x after expected, lexemes = before ++ x :: after ∧ Viable (tokens before) ∧
      ¬Viable (tokens (before ++ [x])) ∧
      fault = .unexpectedToken x.offset x.token.display expected) ∨
    ∃ expected, Viable (tokens lexemes) ∧ fault = .unexpectedEnd last expected := by
  have hread : patternToEnd last lexemes = .error fault := by
    rw [patternToEnd, h]
    rfl
  rcases (explained_patternToEnd lexemes).refuse fault hread with
    ⟨before, x, after, expected, rfl, hmore, hbegins⟩ | ⟨expected, hbegins⟩
  · refine .inl ⟨before, x, after, expected, rfl, hbegins, ?_, rfl⟩
    rintro ⟨more, p, hderives⟩
    obtain ⟨more, rfl⟩ := exists_tokens more
    rw [← tokens_append, List.append_assoc, List.singleton_append] at hderives
    have hnot := hmore more
    rw [patternToEnd, ofLexemes?_of_derives hderives] at hnot
    exact nomatch hnot
  · exact .inr ⟨expected, hbegins, rfl⟩

theorem viable_of_append {front back : List Lexeme} (h : Viable (tokens (front ++ back))) :
    Viable (tokens front) := by
  obtain ⟨more, p, hderives⟩ := h
  rw [tokens_append, List.append_assoc] at hderives
  exact ⟨tokens back ++ more, p, hderives⟩

theorem viable_take (h : Viable (tokens lexemes)) (n : Nat) : Viable (tokens (lexemes.take n)) := by
  rw [← List.take_append_drop n lexemes] at h
  exact viable_of_append h

theorem viable_of_derives (h : Derives (tokens lexemes) p) : Viable (tokens lexemes) :=
  ⟨[], p, by rwa [List.append_nil]⟩

/-- There is one place only where tokens stop to be the beginning of a pattern. -/
theorem length_eq_of_first {i : Nat} {before after : List Lexeme} {x : Lexeme}
    (hbefore : ∀ j < i, Viable (tokens ((before ++ x :: after).take (j + 1))))
    (hnot : ¬Viable (tokens ((before ++ x :: after).take (i + 1))))
    (hviable : Viable (tokens before)) (hblamed : ¬Viable (tokens (before ++ [x]))) :
    before.length = i := by
  rcases Nat.lt_trichotomy before.length i with hlt | heq | hgt
  · have htake : (before ++ x :: after).take (before.length + 1) = before ++ [x] := by
      rw [← List.singleton_append, ← List.append_assoc]
      exact List.take_left' (by simp)
    exact absurd (htake ▸ hbefore before.length hlt) hblamed
  · exact heq
  · rw [List.take_append_of_le_length hgt] at hnot
    exact absurd (viable_take hviable (i + 1)) hnot

theorem parse_eq_ofLexemes? {source : String} (hsize : source.utf8ByteSize ≤ maxPatternLength)
    (htokens : tokenize source = (lexemes, none)) :
    parse source = ofLexemes? source.utf8ByteSize lexemes := by
  rw [parse, if_neg (Nat.not_lt.mpr hsize), htokens]

/-- A source that is not too long and consists of tokens is parsed as the grammar derives it, in the one way
there is. Otherwise the first token is blamed up to which the tokens are those of no pattern, or the end of
the source if all of them are the beginning of some pattern. -/
theorem parse_spec (source : String) (lexemes : List Lexeme)
    (hsize : source.utf8ByteSize ≤ maxPatternLength) (htokens : tokenize source = (lexemes, none)) :
    (∀ p, parse source = .ok p ↔ Derives (tokens lexemes) p) ∧
      (∀ i x, lexemes[i]? = some x → (∀ j < i, Viable (tokens (lexemes.take (j + 1)))) →
        ¬Viable (tokens (lexemes.take (i + 1))) →
        ∃ expected, parse source = .error (.unexpectedToken x.offset x.token.display expected)) ∧
      (Viable (tokens lexemes) → (∀ p, ¬Derives (tokens lexemes) p) →
        ∃ expected, parse source = .error (.unexpectedEnd source.utf8ByteSize expected)) := by
  rw [parse_eq_ofLexemes? hsize htokens]
  refine ⟨fun p ↦ ofLexemes?_eq_ok_iff, fun i x hx hbefore hnot ↦ ?_, fun hviable hnone ↦ ?_⟩
  · cases hread : ofLexemes? source.utf8ByteSize lexemes with
    | ok p => exact absurd (viable_take (viable_of_derives (ofLexemes?_eq_ok_iff.mp hread)) (i + 1)) hnot
    | error fault =>
      rcases ofLexemes?_eq_error hread with
        ⟨before, y, after, expected, rfl, hviable, hblamed, rfl⟩ | ⟨_, hviable, -⟩
      · obtain rfl := length_eq_of_first hbefore hnot hviable hblamed
        have hxy : y = x := by simpa using hx
        exact ⟨expected, by rw [hxy]⟩
      · exact absurd (viable_take hviable (i + 1)) hnot
  · cases hread : ofLexemes? source.utf8ByteSize lexemes with
    | ok p => exact absurd (ofLexemes?_eq_ok_iff.mp hread) (hnone p)
    | error fault =>
      rcases ofLexemes?_eq_error hread with ⟨before, x, after, _, rfl, -, hblamed, -⟩ | ⟨expected, -, rfl⟩
      · rw [← List.singleton_append, ← List.append_assoc] at hviable
        exact absurd (viable_of_append hviable) hblamed
      · exact ⟨expected, rfl⟩

theorem parse_spec_anchor : "@f+1".utf8ByteSize ≤ maxPatternLength ∧
    tokenize "@f+1" = ([⟨.mark .at, 0⟩, ⟨.word "f", 1⟩, ⟨.mark .plus, 2⟩, ⟨.int 1, 3⟩], none) ∧
    parse "@f+1" = .ok ⟨.anchor "f" 1, []⟩ := by
  have hsize : "@f+1".utf8ByteSize ≤ maxPatternLength := by decide
  have htokens : tokenize "@f+1" =
      ([⟨.mark .at, 0⟩, ⟨.word "f", 1⟩, ⟨.mark .plus, 2⟩, ⟨.int 1, 3⟩], none) := by cbv
  have hroot : Grammar.Root [.mark .at, .word "f", .mark .plus, .int 1] (.anchor "f" 1) :=
    .anchor "f" (.plus 1 (by decide))
  exact ⟨hsize, htokens, ((parse_spec _ _ hsize htokens).1 _).mpr (.mk hroot .nil)⟩

end Sources

end LiveGraph.Pattern
