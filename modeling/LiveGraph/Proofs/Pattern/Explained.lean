import LiveGraph.Proofs.Pattern.Grammar

/-!
# What readers answer

A reader takes the phrase at the front of what it is given. If it refuses, then it would refuse the same
with anything after the lexeme it blames, and what stands before that lexeme is the beginning of a phrase.
It blames the end only if all it is given is the beginning of a phrase.
-/

namespace LiveGraph.Pattern

variable {α β : Type}

/-- Phrases, and what they spell. -/
abbrev Phrases (α : Type) :=
  List Token → α → Prop

/-- The rest of the phrases that start with some tokens. -/
def Phrases.after (G : Phrases α) (front : List Token) : Phrases α := fun ts a ↦
  G (front ++ ts) a

/-- Lexemes that some phrase begins with. -/
def Begins (G : Phrases α) (lexemes : List Lexeme) : Prop :=
  ∃ more a, G (tokens lexemes ++ more) a

/-- A refusal blames a lexeme or the end. -/
inductive Blames (last : Nat) (r : List Lexeme → Reading α) (G : Phrases α) (lexemes : List Lexeme) :
    ParseFault → Prop
  | token (before : List Lexeme) (x : Lexeme) (after : List Lexeme) (expected : Expected) :
    lexemes = before ++ x :: after →
    (∀ more, r (before ++ x :: more) = .error (.unexpectedToken x.offset x.token.display expected)) →
    Begins G before →
    Blames last r G lexemes (.unexpectedToken x.offset x.token.display expected)
  | ending (expected : Expected) : Begins G lexemes →
    Blames last r G lexemes (.unexpectedEnd last expected)

/-- What a reader answers is explained by phrases. After what it accepts, it has seen one lexeme at most. -/
structure Explained (last : Nat) (r : List Lexeme → Reading α) (G : Phrases α) (lexemes : List Lexeme) :
    Prop where
  accept : ∀ a rest, r lexemes = .ok (a, rest) → ∃ used, lexemes = used ++ rest ∧ G (tokens used) a ∧
    ∀ rest', rest'.head? = rest.head? → r (used ++ rest') = .ok (a, rest')
  refuse : ∀ fault, r lexemes = .error fault → Blames last r G lexemes fault

/-- A reader that decides by the first lexeme how to go on, or what it would have expected there. -/
def branch (last : Nat) (atEnd : Expected) (next : Token → Except Expected (List Lexeme → Reading α)) :
    List Lexeme → Reading α
  | [] => .error (.unexpectedEnd last atEnd)
  | x :: rest =>
    match next x.token with
    | .ok r => r rest
    | .error expected => .error (.unexpectedToken x.offset x.token.display expected)

/-- One reader after another. -/
def chain (r : List Lexeme → Reading α) (f : α → List Lexeme → Reading β) : List Lexeme → Reading β :=
  fun lexemes ↦
    match r lexemes with
    | .error fault => .error fault
    | .ok (a, rest) => f a rest

variable {last : Nat} {r : List Lexeme → Reading α} {f : α → List Lexeme → Reading β}
variable {G : Phrases α} {G' : Phrases β} {lexemes : List Lexeme} {a : α}

theorem head?_append_congr {front rest rest' : List Lexeme} (h : rest'.head? = rest.head?) :
    (front ++ rest').head? = (front ++ rest).head? := by
  rw [List.head?_append, List.head?_append, h]

namespace Explained

theorem pure (h : G [] a) : Explained last (fun lexemes ↦ .ok (a, lexemes)) G lexemes where
  accept a' rest heq := by
    obtain ⟨rfl, rfl⟩ := Prod.mk.inj (Except.ok.inj heq)
    exact ⟨[], rfl, h, fun _ _ ↦ rfl⟩
  refuse _ heq := nomatch heq

/-- A reader that takes a lexeme and leaves the rest to another one. -/
theorem cons {r' : List Lexeme → Reading α} {x : Lexeme} {rest : List Lexeme}
    (hgo : ∀ more, r (x :: more) = r' more) (h : Explained last r' (G.after [x.token]) rest) :
    Explained last r G (x :: rest) := by
  obtain ⟨haccept, hrefuse⟩ := h
  refine ⟨fun a rest' h ↦ ?_, fun fault h ↦ ?_⟩
  · obtain ⟨used, rfl, hphrase, hsame⟩ := haccept a rest' ((hgo rest).symm.trans h)
    refine ⟨x :: used, rfl, hphrase, fun rest'' hhead ↦ ?_⟩
    rw [List.cons_append, hgo]
    exact hsame rest'' hhead
  · rcases hrefuse fault ((hgo rest).symm.trans h) with
      ⟨before, y, after, expected, rfl, hmore, more, a, hbegins⟩ | ⟨expected, more, a, hbegins⟩
    · refine .token (x :: before) y after expected rfl (fun more ↦ ?_) ⟨more, a, hbegins⟩
      rw [List.cons_append, hgo]
      exact hmore more
    · exact .ending expected ⟨more, a, hbegins⟩

/-- Readers that do the same with all that is not empty. -/
theorem congr_cons {r' : List Lexeme → Reading α} {x : Lexeme} {rest : List Lexeme}
    (heq : ∀ y more, r (y :: more) = r' (y :: more)) (h : Explained last r' G (x :: rest)) :
    Explained last r G (x :: rest) := by
  refine ⟨fun a rest' hr ↦ ?_, fun fault hr ↦ ?_⟩
  · obtain ⟨used, hused, hphrase, hsame⟩ := h.accept a rest' ((heq x rest).symm.trans hr)
    refine ⟨used, hused, hphrase, fun rest'' hhead ↦ ?_⟩
    have hcons : (used ++ rest'').head? = some x := by
      rw [head?_append_congr hhead, ← hused, List.head?_cons]
    obtain ⟨more, hmore⟩ := List.head?_eq_some_iff.mp hcons
    rw [hmore, heq, ← hmore]
    exact hsame rest'' hhead
  · rcases h.refuse fault ((heq x rest).symm.trans hr) with
      ⟨before, y, after, expected, hlexemes, hmore, hbegins⟩ | ⟨expected, hbegins⟩
    · refine .token before y after expected hlexemes (fun more ↦ ?_) hbegins
      obtain ⟨z, zs, hzs⟩ := List.exists_cons_of_ne_nil
        (List.append_ne_nil_of_right_ne_nil before (List.cons_ne_nil y more))
      rw [hzs, heq, ← hzs]
      exact hmore more
    · exact .ending expected hbegins

theorem branch {atEnd : Expected} {next : Token → Except Expected (List Lexeme → Reading α)}
    (hbegins : Begins G [])
    (hnext : ∀ x rest, lexemes = x :: rest → ∀ r, next x.token = .ok r →
      Explained last r (G.after [x.token]) rest) :
    Explained last (Pattern.branch last atEnd next) G lexemes := by
  cases lexemes with
  | nil =>
    constructor
    · intro _ _ h
      cases h
    · intro fault h
      obtain rfl := Except.error.inj h
      exact .ending atEnd hbegins
  | cons x rest =>
    cases hx : next x.token with
    | error expected =>
      have hrefuse (more : List Lexeme) : Pattern.branch last atEnd next (x :: more) =
          .error (.unexpectedToken x.offset x.token.display expected) := by
        rw [Pattern.branch, hx]
      refine ⟨fun a rest' h ↦ ?_, fun fault h ↦ ?_⟩
      · rw [hrefuse] at h
        cases h
      · obtain rfl := Except.error.inj ((hrefuse rest).symm.trans h)
        exact .token [] x rest expected rfl hrefuse hbegins
    | ok r =>
      refine .cons (fun more ↦ ?_) (hnext x rest rfl r hx)
      rw [Pattern.branch, hx]

/-- One reader after another, where each phrase of the first can be continued. -/
theorem chain (h : Explained last r G lexemes)
    (hf : ∀ used rest a, lexemes = used ++ rest → G (tokens used) a →
      Explained last (f a) (G'.after (tokens used)) rest)
    (hgo : ∀ ts a, G ts a → ∃ more b, G' (ts ++ more) b) :
    Explained last (Pattern.chain r f) G' lexemes := by
  cases hr : r lexemes with
  | error fault =>
    have hfault : Pattern.chain r f lexemes = .error fault := by rw [Pattern.chain, hr]
    refine ⟨fun b rest h ↦ ?_, fun fault' h' ↦ ?_⟩
    · exact nomatch hfault.symm.trans h
    · obtain rfl := Except.error.inj (hfault.symm.trans h')
      have hbegins {before : List Lexeme} (hbefore : Begins G before) : Begins G' before := by
        obtain ⟨more, a, hphrase⟩ := hbefore
        obtain ⟨more', b, hphrase'⟩ := hgo _ a hphrase
        exact ⟨more ++ more', b, by rwa [← List.append_assoc]⟩
      rcases h.refuse fault hr with ⟨before, x, after, expected, rfl, hmore, hbefore⟩ | ⟨expected, hall⟩
      · refine .token before x after expected rfl (fun more ↦ ?_) (hbegins hbefore)
        rw [Pattern.chain, hmore]
      · exact .ending expected (hbegins hall)
  | ok read =>
    obtain ⟨a, rest⟩ := read
    obtain ⟨used, rfl, hphrase, hsame⟩ := h.accept a rest hr
    have hthen (rest' : List Lexeme) (hhead : rest'.head? = rest.head?) :
        Pattern.chain r f (used ++ rest') = f a rest' := by
      rw [Pattern.chain, hsame rest' hhead]
    obtain ⟨haccept, hrefuse⟩ := hf used rest a rfl hphrase
    refine ⟨fun b rest' h' ↦ ?_, fun fault h' ↦ ?_⟩
    · obtain ⟨used', rfl, hphrase', hsame'⟩ := haccept b rest' ((hthen rest rfl).symm.trans h')
      refine ⟨used ++ used', (List.append_assoc ..).symm, ?_, fun rest'' hhead ↦ ?_⟩
      · rw [tokens_append]
        exact hphrase'
      · rw [List.append_assoc, hthen _ (head?_append_congr hhead)]
        exact hsame' rest'' hhead
    · rcases hrefuse fault ((hthen rest rfl).symm.trans h') with
        ⟨before, x, after, expected, rfl, hmore, more, b, hbegins⟩ | ⟨expected, more, b, hbegins⟩
      · refine .token (used ++ before) x after expected (List.append_assoc ..).symm (fun more ↦ ?_)
          ⟨more, b, ?_⟩
        · rw [List.append_assoc, hthen (before ++ x :: more) (head?_append_congr rfl)]
          exact hmore more
        · rw [tokens_append, List.append_assoc]
          exact hbegins
      · refine .ending expected ⟨more, b, ?_⟩
        rw [tokens_append, List.append_assoc]
        exact hbegins

theorem map (h : Explained last r G lexemes) (g : α → β) (hg : ∀ ts a, G ts a → G' ts (g a)) :
    Explained last (fun lexemes ↦ (r lexemes).map fun (a, rest) ↦ (g a, rest)) G' lexemes := by
  have hchain : (fun lexemes ↦ (r lexemes).map fun (a, rest) ↦ (g a, rest)) =
      Pattern.chain r fun a rest ↦ .ok (g a, rest) := by
    funext lexemes
    rw [Pattern.chain]
    cases r lexemes <;> rfl
  rw [hchain]
  refine h.chain (fun used rest a _ hphrase ↦ .pure ?_) fun ts a hphrase ↦ ⟨[], g a, ?_⟩
  · rw [Phrases.after, List.append_nil]
    exact hg _ a hphrase
  · rw [List.append_nil]
    exact hg ts a hphrase

end Explained

end LiveGraph.Pattern
