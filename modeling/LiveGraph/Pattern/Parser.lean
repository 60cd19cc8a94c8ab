import LiveGraph.Fault
import LiveGraph.Pattern.Basic
import LiveGraph.Pattern.Lexer

/-!
# Reading patterns

Recursive descent over tokens. A refusal names the first token that cannot continue any pattern,
or the end of the source when every token could.

```text
pattern   := root suffix*
root      := word | '@' word (('+' | '-') int)? | uri
suffix    := '/' word | '(' condition (',' condition)* ')' | '[' int ']'
condition := word ('=' | '!=') value
value     := word | int | '-' int | quoted | uri
```
-/

namespace LiveGraph.Pattern

/-- What a reader answers: something read and the tokens after it. -/
abbrev Reading (α : Type) := Except ParseFault (α × List Lexeme)

/-- The refusal at the first of the remaining tokens; `last` is the length of the source. -/
def blame (last : Nat) (expected : Expected) : List Lexeme → ParseFault
  | [] => .unexpectedEnd last expected
  | lexeme :: _ => .unexpectedToken lexeme.offset lexeme.token.display expected

/-- The greatest distance an anchor can be moved by. -/
def maxOffset : Nat := 0x7fffffffffffffff

def readMove (last : Nat) (negative : Bool) : List Lexeme → Reading Int64
  | ⟨.int n, start⟩ :: rest =>
    if n ≤ maxOffset then
      .ok (Int64.ofInt (if negative then -(n : Int) else n), rest)
    else .error (.unexpectedToken start (toString n) .anchorOffsetInRange)
  | tokens => .error (blame last .anchorOffset tokens)

def readOffset (last : Nat) : List Lexeme → Reading Int64
  | ⟨.mark .plus, _⟩ :: rest => readMove last false rest
  | ⟨.mark .minus, _⟩ :: rest => readMove last true rest
  | tokens => .ok (0, tokens)

def readRoot (last : Nat) : List Lexeme → Reading Root
  | ⟨.word name, _⟩ :: rest => .ok (.collection name, rest)
  | ⟨.bareUri uri, _⟩ :: rest => .ok (.uri uri, rest)
  | ⟨.bracketUri uri, _⟩ :: rest => .ok (.uri uri, rest)
  | ⟨.mark .at, _⟩ :: ⟨.word role, _⟩ :: rest =>
    (readOffset last rest).map fun (offset, after) ↦ (.anchor role offset, after)
  | ⟨.mark .at, _⟩ :: tokens => .error (blame last .role tokens)
  | tokens => .error (blame last .root tokens)

def readMatchOp (last : Nat) : List Lexeme → Reading MatchOp
  | ⟨.mark .eq, _⟩ :: rest => .ok (.eq, rest)
  | ⟨.mark .ne, _⟩ :: rest => .ok (.ne, rest)
  | tokens => .error (blame last .comparison tokens)

def readLiteral (last : Nat) : List Lexeme → Reading String
  | ⟨.word text, _⟩ :: rest => .ok (text, rest)
  | ⟨.quoted text, _⟩ :: rest => .ok (text, rest)
  | ⟨.bareUri text, _⟩ :: rest => .ok (text, rest)
  | ⟨.bracketUri text, _⟩ :: rest => .ok (text, rest)
  | ⟨.int n, _⟩ :: rest => .ok (toString n, rest)
  | ⟨.mark .minus, _⟩ :: ⟨.int n, _⟩ :: rest => .ok ("-" ++ toString n, rest)
  | ⟨.mark .minus, _⟩ :: tokens => .error (blame last .valueDigits tokens)
  | tokens => .error (blame last .value tokens)

def readCondition (last : Nat) : List Lexeme → Reading Condition
  | ⟨.word field, _⟩ :: tokens =>
    match readMatchOp last tokens with
    | .error fault => .error fault
    | .ok (op, afterOp) =>
      (readLiteral last afterOp).map fun (value, after) ↦ (⟨field, op, value⟩, after)
  | tokens => .error (blame last .field tokens)

theorem eq_of_map_ok {α β : Type} {r : Reading α} {f : α × List Lexeme → β × List Lexeme}
    {b : β × List Lexeme} (h : r.map f = .ok b) : ∃ a, r = .ok a ∧ f a = b := by
  cases r with
  | error e => simp [Except.map] at h
  | ok a => exact ⟨a, rfl, by simpa [Except.map] using h⟩

theorem length_of_readMatchOp {last : Nat} {tokens after : List Lexeme} {op : MatchOp}
    (h : readMatchOp last tokens = .ok (op, after)) : after.length < tokens.length := by
  unfold readMatchOp at h
  split at h <;> simp only [Except.ok.injEq, Prod.mk.injEq, reduceCtorEq] at h <;> simp [← h.2]

theorem length_of_readLiteral {last : Nat} {tokens after : List Lexeme} {text : String}
    (h : readLiteral last tokens = .ok (text, after)) : after.length < tokens.length := by
  unfold readLiteral at h
  split at h <;> simp only [Except.ok.injEq, Prod.mk.injEq, reduceCtorEq] at h <;>
    simp only [← h.2, List.length_cons] <;> omega

theorem length_of_readCondition {last : Nat} {tokens after : List Lexeme} {c : Condition}
    (h : readCondition last tokens = .ok (c, after)) : after.length < tokens.length := by
  unfold readCondition at h
  split at h
  · split at h
    · simp at h
    · next hop =>
      obtain ⟨⟨v, a⟩, hv, heq⟩ := eq_of_map_ok h
      have h₁ := length_of_readMatchOp hop
      have h₂ := length_of_readLiteral hv
      simp only [Prod.mk.injEq] at heq
      simp only [← heq.2, List.length_cons]
      omega
  · simp at h

/-- One or more conditions and the bracket that closes them. -/
def readConditions (last : Nat) (tokens : List Lexeme) : Reading (List Condition) :=
  match h : readCondition last tokens with
  | .error fault => .error fault
  | .ok (c, ⟨.mark .comma, _⟩ :: rest) =>
    have : rest.length < tokens.length := by
      have := length_of_readCondition h
      simp only [List.length_cons] at this
      omega
    (readConditions last rest).map fun (more, after) ↦ (c :: more, after)
  | .ok (c, ⟨.mark .closeFilter, _⟩ :: after) => .ok ([c], after)
  | .ok (_, after) => .error (blame last .filterEnd after)
termination_by tokens.length

def readIndex (last : Nat) : List Lexeme → Reading Nat
  | ⟨.int n, _⟩ :: ⟨.mark .closeIndex, _⟩ :: after => .ok (n, after)
  | ⟨.int _, _⟩ :: tokens => .error (blame last .indexEnd tokens)
  | tokens => .error (blame last .index tokens)

def readSuffix (last : Nat) : List Lexeme → Reading Suffix
  | ⟨.mark .slash, _⟩ :: ⟨.word name, _⟩ :: after => .ok (.relation name, after)
  | ⟨.mark .slash, _⟩ :: tokens => .error (blame last .relation tokens)
  | ⟨.mark .openFilter, _⟩ :: tokens =>
    (readConditions last tokens).map fun (cs, after) ↦ (.filter cs, after)
  | ⟨.mark .openIndex, _⟩ :: tokens =>
    (readIndex last tokens).map fun (n, after) ↦ (.index n, after)
  | tokens => .error (blame last .suffix tokens)

theorem length_of_readConditions {last : Nat} {tokens after : List Lexeme}
    {cs : List Condition} (h : readConditions last tokens = .ok (cs, after)) :
    after.length < tokens.length := by
  fun_induction readConditions last tokens generalizing cs after with
  | case1 => simp at h
  | case2 tokens c _ rest hc hlt ih =>
    obtain ⟨⟨more, a⟩, hr, heq⟩ := eq_of_map_ok h
    have := ih hr
    simp only [Prod.mk.injEq] at heq
    simp only [← heq.2]
    omega
  | case3 tokens c _ rest hc =>
    have := length_of_readCondition hc
    simp only [Except.ok.injEq, Prod.mk.injEq] at h
    simp only [← h.2, List.length_cons] at *
    omega
  | case4 => simp at h

theorem length_of_readIndex {last n : Nat} {tokens after : List Lexeme}
    (h : readIndex last tokens = .ok (n, after)) : after.length < tokens.length := by
  unfold readIndex at h
  split at h <;> simp only [Except.ok.injEq, Prod.mk.injEq, reduceCtorEq] at h
  simp only [← h.2, List.length_cons]
  omega

/-- Reading a suffix uses up some tokens. -/
theorem length_of_readSuffix {last : Nat} {tokens after : List Lexeme} {s : Suffix}
    (h : readSuffix last tokens = .ok (s, after)) : after.length < tokens.length := by
  unfold readSuffix at h
  split at h
  · simp only [Except.ok.injEq, Prod.mk.injEq] at h
    simp only [← h.2, List.length_cons]
    omega
  · simp at h
  · obtain ⟨⟨cs, a⟩, hr, heq⟩ := eq_of_map_ok h
    have := length_of_readConditions hr
    simp only [Prod.mk.injEq] at heq
    simp only [← heq.2, List.length_cons]
    omega
  · obtain ⟨⟨n, a⟩, hr, heq⟩ := eq_of_map_ok h
    have := length_of_readIndex hr
    simp only [Prod.mk.injEq] at heq
    simp only [← heq.2, List.length_cons]
    omega
  · simp at h

def readSuffixes (last : Nat) : List Lexeme → Except ParseFault (List Suffix)
  | [] => .ok []
  | lexeme :: rest =>
    match h : readSuffix last (lexeme :: rest) with
    | .error fault => .error fault
    | .ok (s, after) =>
      have : after.length < (lexeme :: rest).length := length_of_readSuffix h
      (readSuffixes last after).map (s :: ·)
termination_by tokens => tokens.length
decreasing_by simp only [List.length_cons] at *; omega

/-- The pattern a whole sequence of tokens spells. -/
def ofLexemes? (last : Nat) (tokens : List Lexeme) : Except ParseFault Pattern :=
  match readRoot last tokens with
  | .error fault => .error fault
  | .ok (root, after) => (readSuffixes last after).map fun suffixes ↦ ⟨root, suffixes⟩

def parse (source : String) : Except ParseFault Pattern :=
  let size := source.utf8ByteSize
  if size > maxPatternLength then .error (.tooLong size)
  else
    match tokenize source with
    | (_, some (offset, found)) => .error (.invalidCharacter offset found)
    | (tokens, none) => ofLexemes? size tokens

end LiveGraph.Pattern
