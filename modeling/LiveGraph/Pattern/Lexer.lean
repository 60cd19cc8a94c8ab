import LiveGraph.Pattern.Token

/-!
# Reading tokens

The longest token at the front of a text, and from it the tokens of the whole text. Where no token
fits, the reader is stuck on the longest piece that could still have grown into one.
-/

namespace LiveGraph.Pattern

/-- The content of a quoted token, escapes resolved, and what follows its closing quote. -/
def quotedBody? : List Char → Option (List Char × List Char)
  | [] => none
  | '"' :: rest => some ([], rest)
  | '\\' :: c :: rest =>
    if c = '\n' then none else (quotedBody? rest).map fun (body, after) ↦ (c :: body, after)
  | c :: rest =>
    if c = '\\' then none else (quotedBody? rest).map fun (body, after) ↦ (c :: body, after)

/-- The part of an unclosed quoted token that a closing quote could still follow. -/
def quotedReach : List Char → List Char
  | [] => []
  | '\\' :: c :: rest => if c = '\n' then [] else '\\' :: c :: quotedReach rest
  | c :: rest => if c = '\\' then [] else c :: quotedReach rest

inductive Scan
  | token (t : Token) (rest : List Char)
  | stuck (text : List Char)

def scanInt (text : List Char) : Scan :=
  let digits := text.takeWhile Text.isDigit
  let n := Text.natOfDigits digits
  if n ≤ maxInt then .token (.int n) (text.dropWhile Text.isDigit) else .stuck digits

def scanWord (text : List Char) : Scan :=
  .token (.word (String.ofList (text.takeWhile isWordChar))) (text.dropWhile isWordChar)

/-- A URI without brackets where its colon and one more character follow, else a word. -/
def scanName (text : List Char) : Scan :=
  match text.dropWhile isSchemeChar with
  | ':' :: rest =>
    if text.head?.any isLetter && rest.head?.any isBareChar then
      .token (.bareUri (String.ofList
          (text.takeWhile isSchemeChar ++ ':' :: rest.takeWhile isBareChar)))
        (rest.dropWhile isBareChar)
    else scanWord text
  | _ => scanWord text

def scanQuoted (rest : List Char) : Scan :=
  match quotedBody? rest with
  | some (body, after) => .token (.quoted (String.ofList body)) after
  | none => .stuck ('"' :: quotedReach rest)

def scanBracketUri (rest : List Char) : Scan :=
  match rest.takeWhile isBracketChar, rest.dropWhile isBracketChar with
  | c :: more, '>' :: after => .token (.bracketUri (String.ofList (c :: more))) after
  | body, _ => .stuck ('<' :: body)

/-- The longest token at the front of a text that starts with `c`. -/
def scan (c : Char) (rest : List Char) : Scan :=
  if Text.isDigit c then scanInt (c :: rest)
  else if isWordStart c then scanName (c :: rest)
  else if c = '"' then scanQuoted rest
  else if c = '<' then scanBracketUri rest
  else if c = '!' then
    match rest with
    | '=' :: after => .token (.mark .ne) after
    | _ => .stuck [c]
  else
    match mark? c with
    | some m => .token (.mark m) rest
    | none => .stuck [c]

theorem length_dropWhile_le (p : Char → Bool) (text : List Char) :
    (text.dropWhile p).length ≤ text.length :=
  (text.dropWhile_sublist p).length_le

theorem length_of_quotedBody? {text body after : List Char}
    (h : quotedBody? text = some (body, after)) : after.length < text.length := by
  fun_induction quotedBody? text generalizing body after with
  | case1 => simp at h
  | case2 rest => simp_all
  | case3 => simp at h
  | case4 c rest hc ih =>
    obtain ⟨⟨b, a⟩, hb, heq⟩ := Option.map_eq_some_iff.1 h
    have := ih hb
    simp_all
    omega
  | case5 => simp at h
  | case6 c rest hc hd he ih =>
    obtain ⟨⟨b, a⟩, hb, heq⟩ := Option.map_eq_some_iff.1 h
    have := ih hb
    simp_all
    omega

theorem length_of_scanWord {c : Char} {rest after : List Char} {t : Token} (hc : isWordChar c)
    (h : scanWord (c :: rest) = .token t after) : after.length < (c :: rest).length := by
  simp only [scanWord, Scan.token.injEq, List.dropWhile_cons, hc, ite_true] at h
  have := length_dropWhile_le isWordChar rest
  simp only [← h.2, List.length_cons]
  omega

theorem isWordChar_of_isWordStart {c : Char} (h : isWordStart c) : isWordChar c := by
  simp only [isWordStart, isWordChar, isSchemeChar, Bool.or_eq_true] at *
  exact h.imp Or.inl id

/-- Reading a token uses up some of the text. -/
theorem length_of_scan {c : Char} {rest after : List Char} {t : Token}
    (h : scan c rest = .token t after) : after.length < (c :: rest).length := by
  unfold scan at h
  split at h
  next hd =>
    unfold scanInt at h
    simp only [List.dropWhile_cons, hd, ite_true] at h
    split at h <;> simp only [Scan.token.injEq, reduceCtorEq] at h
    have := length_dropWhile_le Text.isDigit rest
    simp only [← h.2, List.length_cons]
    omega
  split at h
  next hw =>
    have hc := isWordChar_of_isWordStart hw
    unfold scanName at h
    split at h
    next more hmore =>
      split at h
      · simp only [Scan.token.injEq] at h
        have h₁ := length_dropWhile_le isBareChar more
        have h₂ := length_dropWhile_le isSchemeChar (c :: rest)
        rw [hmore] at h₂
        simp only [← h.2, List.length_cons] at *
        omega
      · exact length_of_scanWord hc h
    next => exact length_of_scanWord hc h
  split at h
  next =>
    unfold scanQuoted at h
    split at h <;> simp only [Scan.token.injEq, reduceCtorEq] at h
    next hb =>
      have := length_of_quotedBody? hb
      simp only [← h.2, List.length_cons]
      omega
  split at h
  next =>
    unfold scanBracketUri at h
    split at h <;> simp only [Scan.token.injEq, reduceCtorEq] at h
    next hr =>
      have := length_dropWhile_le isBracketChar rest
      rw [hr] at this
      simp only [← h.2, List.length_cons] at *
      omega
  split at h
  next =>
    split at h <;> simp only [Scan.token.injEq, reduceCtorEq] at h
    simp only [← h.2, List.length_cons]
    omega
  next =>
    split at h <;> simp only [Scan.token.injEq, reduceCtorEq] at h
    simp [← h.2]

/-- The bytes a piece of text takes. -/
def width : List Char → Nat
  | [] => 0
  | c :: rest => c.utf8Size + width rest

/-- The tokens of a text up to the first place where the reader is stuck, and that place. -/
def lexemes (offset : Nat) : List Char → List Lexeme × Option (Nat × String)
  | [] => ([], none)
  | c :: rest =>
    if isSkipped c then lexemes (offset + c.utf8Size) rest
    else
      match h : scan c rest with
      | .stuck text => ([], some (offset, String.ofList text))
      | .token t after =>
        have : after.length < (c :: rest).length := length_of_scan h
        let used := width (c :: rest) - width after
        let (more, stuck) := lexemes (offset + used) after
        (⟨t, offset⟩ :: more, stuck)
termination_by text => text.length
decreasing_by all_goals simp only [List.length_cons] at *; omega

def tokenize (source : String) : List Lexeme × Option (Nat × String) :=
  lexemes 0 source.toList

end LiveGraph.Pattern
