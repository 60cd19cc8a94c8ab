import LiveGraph.Query
import Mathlib.Data.List.TakeWhile

/-!
# Where clauses are split

A clause is split at the earliest place where an operator starts, and there at the longest one that does. So a
field, an operator and a text that are written one after the other are read again, unless the operator runs into
what stands around it.
-/

namespace LiveGraph

/-- Nothing is left of a text after trimming if all of it is blank. -/
theorem Text.trim_eq_nil_iff {text : List Char} : trim text = [] ↔ ∀ c ∈ text, isBlank c = true := by
  simp only [trim, trimRight, trimLeft, List.reverse_eq_nil_iff, List.dropWhile_eq_nil_iff, List.mem_reverse]
  constructor
  · intro h c hc
    rw [← List.takeWhile_append_dropWhile (p := isBlank) (l := text)] at hc
    rcases List.mem_append.mp hc with hc | hc
    · exact List.mem_takeWhile_imp hc
    · exact h c hc
  · intro h c hc
    exact h c ((List.dropWhile_sublist isBlank).mem hc)

namespace CompareOp

/-- The characters that operators are written with. -/
def signs : CompareOp → List Char
  | eq => ['=']
  | ne => ['!', '=']
  | lt => ['<']
  | le => ['<', '=']
  | gt => ['>']
  | ge => ['>', '=']

theorem toList_symbol (op : CompareOp) : op.symbol.toList = op.signs := by
  cases op <;> rfl

theorem length_symbol (op : CompareOp) : op.symbol.length = op.signs.length := by
  cases op <;> rfl

/-- Where an operator starts there is a sign of its own, or an exclamation mark with an equals sign after it. -/
theorem head_cases {op : CompareOp} {c : Char} {rest after : List Char} (h : c :: rest = op.signs ++ after) :
    (c = '=' ∨ c = '<' ∨ c = '>') ∨ c = '!' ∧ rest.head? = some '=' := by
  cases op <;> simp_all [signs]

/-- An operator starts a text, and no longer one does. -/
structure Leads (op : CompareOp) (text after : List Char) : Prop where
  eq : text = op.signs ++ after
  alone : op = .lt ∨ op = .gt → after.head? ≠ some '='

/-- Where an operator starts a text, one leads it. -/
theorem exists_leads (op : CompareOp) (after : List Char) : ∃ op' after', Leads op' (op.signs ++ after) after' := by
  by_cases hlonger : (op = .lt ∨ op = .gt) ∧ after.head? = some '='
  · obtain ⟨hop, hhead⟩ := hlonger
    obtain ⟨rest, rfl⟩ := List.head?_eq_some_iff.mp hhead
    rcases hop with rfl | rfl
    · exact ⟨.le, rest, rfl, by simp⟩
    · exact ⟨.ge, rest, rfl, by simp⟩
  · exact ⟨op, after, rfl, fun hop hhead ↦ hlonger ⟨hop, hhead⟩⟩

/-- Whatever else starts the text is no longer. -/
theorem Leads.length_le {op op' : CompareOp} {text after after' : List Char} (h : op.Leads text after)
    (h' : text = op'.signs ++ after') : op'.signs.length ≤ op.signs.length := by
  obtain ⟨rfl, halone⟩ := h
  have htwo : op'.signs.length ≤ 2 := by cases op' <;> decide
  cases op with
  | ne | le | ge => exact htwo
  | eq => cases op' <;> simp_all [signs]
  | lt => cases op' <;> simp_all [signs]
  | gt => cases op' <;> simp_all [signs]

end CompareOp

namespace Predicate

/-- An operator that a clause is split at, with what stands before it and after it: none starts earlier, and none
that starts there is longer. -/
structure Splits (clause before : List Char) (op : CompareOp) (after : List Char) : Prop where
  eq : clause = before ++ op.symbol.toList ++ after
  earliest : ∀ (before' : List Char) (op' : CompareOp) (after' : List Char),
    clause = before' ++ op'.symbol.toList ++ after' → before.length ≤ before'.length
  longest : ∀ (op' : CompareOp) (after' : List Char),
    clause = before ++ op'.symbol.toList ++ after' → op'.symbol.length ≤ op.symbol.length

variable {c : Char} {clause rest before after : List Char} {op : CompareOp}

/-- A text that an operator leads is split at its beginning. -/
theorem splitClause?_of_leads (h : op.Leads clause after) : splitClause? clause = some ([], op, after) := by
  obtain ⟨rfl, halone⟩ := h
  cases op with
  | eq | ne | le | ge => rfl
  | lt | gt =>
    rw [CompareOp.signs, List.singleton_append, splitClause?]
    rintro rest rfl
    exact halone (by simp) rfl

/-- Where no operator starts, the split is further on. -/
theorem splitClause?_cons (h : ∀ (op : CompareOp) after, c :: rest ≠ op.signs ++ after) :
    splitClause? (c :: rest) = (splitClause? rest).map fun (field, op, text) ↦ (c :: field, op, text) := by
  rw [splitClause?]
  · rintro rest rfl rfl
    exact h .ne rest rfl
  · rintro rest rfl rfl
    exact h .le rest rfl
  · rintro rest rfl rfl
    exact h .ge rest rfl
  · rintro rfl
    exact h .eq rest rfl
  · rintro rfl
    exact h .lt rest rfl
  · rintro rfl
    exact h .gt rest rfl

theorem Splits.of_leads (h : op.Leads clause after) : Splits clause [] op after where
  eq := by rw [op.toList_symbol]; exact h.eq
  earliest _ _ _ _ := Nat.zero_le _
  longest op' after' h' := by
    rw [op'.toList_symbol] at h'
    rw [op'.length_symbol, op.length_symbol]
    exact h.length_le h'

/-- An operator that leads the text is the one that it is split at. -/
theorem Splits.leads (h : Splits clause [] op after) : op.Leads clause after := by
  have heq := h.eq
  rw [op.toList_symbol] at heq
  refine ⟨heq, fun hop hhead ↦ ?_⟩
  obtain ⟨rest, rfl⟩ := List.head?_eq_some_iff.mp hhead
  rcases hop with rfl | rfl
  · exact absurd (h.longest .le rest heq) (by decide)
  · exact absurd (h.longest .ge rest heq) (by decide)

/-- A character in front at which no operator starts. -/
theorem splits_cons_iff (h : ∀ (op : CompareOp) after, c :: rest ≠ op.signs ++ after) :
    Splits (c :: rest) (c :: before) op after ↔ Splits rest before op after := by
  constructor
  · rintro ⟨heq, hearliest, hlongest⟩
    refine ⟨(List.cons.inj heq).2, fun before' op' after' h' ↦ ?_, fun op' after' h' ↦ ?_⟩
    · exact Nat.le_of_succ_le_succ (hearliest (c :: before') op' after' (congrArg (c :: ·) h'))
    · exact hlongest op' after' (congrArg (c :: ·) h')
  · rintro ⟨heq, hearliest, hlongest⟩
    refine ⟨congrArg (c :: ·) heq, fun before' op' after' h' ↦ ?_, fun op' after' h' ↦ ?_⟩
    · cases before' with
      | nil => exact absurd (op'.toList_symbol ▸ h') (h op' after')
      | cons c' before' => exact Nat.succ_le_succ (hearliest before' op' after' (List.cons.inj h').2)
    · exact hlongest op' after' (List.cons.inj h').2

/-- Before the earliest operator none starts. -/
theorem Splits.not_leads {c' : Char} (h : Splits (c :: rest) (c' :: before) op after) (op' : CompareOp)
    (after' : List Char) : c :: rest ≠ op'.signs ++ after' := fun heq ↦
  absurd (h.earliest [] op' after' (by rw [op'.toList_symbol]; exact heq)) (Nat.not_succ_le_zero _)

theorem splitClause?_of_splits (h : Splits clause before op after) :
    splitClause? clause = some (before, op, after) := by
  induction before generalizing clause with
  | nil => exact splitClause?_of_leads h.leads
  | cons c before ih =>
    obtain ⟨rest, rfl⟩ : ∃ rest, clause = c :: rest := ⟨_, h.eq⟩
    have hnone := h.not_leads
    rw [splitClause?_cons hnone, ih ((splits_cons_iff hnone).mp h)]
    rfl

/-- A clause that is split at no operator has none in it. -/
theorem exists_splits_or_not (clause : List Char) : (∃ before op after, Splits clause before op after) ∨
    splitClause? clause = none ∧ ∀ op : CompareOp, ¬op.symbol.toList <:+: clause := by
  induction clause with
  | nil =>
    refine .inr ⟨rfl, fun op hop ↦ ?_⟩
    rw [op.toList_symbol, List.infix_nil] at hop
    cases op <;> exact nomatch hop
  | cons c rest ih =>
    by_cases hstarts : ∃ (op : CompareOp) (after : List Char), c :: rest = op.signs ++ after
    · obtain ⟨op, after, heq⟩ := hstarts
      obtain ⟨op', after', hleads⟩ := op.exists_leads after
      exact .inl ⟨[], op', after', heq ▸ .of_leads hleads⟩
    · have hnone (op : CompareOp) (after : List Char) : c :: rest ≠ op.signs ++ after := fun heq ↦
        hstarts ⟨op, after, heq⟩
      refine ih.imp ?_ ?_
      · rintro ⟨before, op, after, hsplits⟩
        exact ⟨c :: before, op, after, (splits_cons_iff hnone).mpr hsplits⟩
      · rintro ⟨hrest, habsent⟩
        refine ⟨by rw [splitClause?_cons hnone, hrest]; rfl, fun op hop ↦ ?_⟩
        rcases List.infix_cons_iff.mp hop with ⟨after, heq⟩ | hop
        · exact hnone op after (by rw [← heq, op.toList_symbol])
        · exact habsent op hop

/-- A clause is split at the longest operator at the earliest place where one starts. -/
theorem splitClause?_eq_some_iff : splitClause? clause = some (before, op, after) ↔ Splits clause before op after := by
  refine ⟨fun h ↦ ?_, splitClause?_of_splits⟩
  rcases exists_splits_or_not clause with ⟨before', op', after', hsplits⟩ | ⟨hnone, -⟩
  · have hsame := h.symm.trans (splitClause?_of_splits hsplits)
    simp only [Option.some.injEq, Prod.mk.injEq] at hsame
    obtain ⟨rfl, rfl, rfl⟩ := hsame
    exact hsplits
  · exact absurd (h.symm.trans hnone) (Option.some_ne_none _)

theorem ofClause?_of_splits {clause : String} (h : Splits clause.toList before op after) : ofClause? clause =
    if Text.trim before = [] then .error (.unexpectedToken 0 clause .clause)
    else .ok ⟨String.ofList (Text.trim before), op, literal (String.ofList (Text.trim after))⟩ := by
  rw [ofClause?, splitClause?_of_splits h]
  simp only [List.isEmpty_iff]

/-- A field, an operator and a text of which none runs into another. -/
structure Apart (field : String) (op : CompareOp) (text : String) : Prop where
  field_ne : field ≠ ""
  field_trimmed : Text.trim field.toList = field.toList
  no_sign : ∀ c ∈ field.toList, c ≠ '=' ∧ c ≠ '<' ∧ c ≠ '>'
  no_mark : field.toList.getLast? ≠ some '!'
  text_trimmed : Text.trim text.toList = text.toList
  alone : op = .lt ∨ op = .gt → text.toList.head? ≠ some '='

/-- The first operator of what is written is the one that was meant. -/
theorem splits_append {field text : List Char} (hsign : ∀ c ∈ field, c ≠ '=' ∧ c ≠ '<' ∧ c ≠ '>')
    (hmark : field.getLast? ≠ some '!') (halone : op = .lt ∨ op = .gt → text.head? ≠ some '=') :
    Splits (field ++ op.symbol.toList ++ text) field op text := by
  rw [op.toList_symbol]
  induction field with
  | nil => exact .of_leads ⟨rfl, halone⟩
  | cons c field ih =>
    obtain ⟨hc, hfield⟩ := List.forall_mem_cons.mp hsign
    have hmarked (h : field.getLast?.getD c = '!') : False := hmark (by rw [List.getLast?_cons, h])
    have hnone (op' : CompareOp) (after : List Char) : c :: (field ++ op.signs ++ text) ≠ op'.signs ++ after := by
      intro heq
      rcases CompareOp.head_cases heq with (rfl | rfl | rfl) | ⟨rfl, hhead⟩
      · exact hc.1 rfl
      · exact hc.2.1 rfl
      · exact hc.2.2 rfl
      · -- the equals sign would stand in the field, or the exclamation mark at its end
        cases field with
        | nil => exact hmarked rfl
        | cons c' field => exact (hfield c' List.mem_cons_self).1 (Option.some.inj hhead)
    exact (splits_cons_iff hnone).mpr (ih hfield fun h ↦ hmarked (by rw [h]; rfl))

theorem exists_ofClause?_iff (clause : String) : (∃ p, ofClause? clause = .ok p) ↔
    (∃ op : CompareOp, op.symbol.toList <:+: clause.toList) ∧
      ∀ before op after, Splits clause.toList before op after → ∃ c ∈ before, Text.isBlank c = false := by
  constructor
  · rintro ⟨p, hp⟩
    constructor
    · rcases exists_splits_or_not clause.toList with ⟨before, op, after, hsplits⟩ | ⟨hnone, -⟩
      · exact ⟨op, before, after, hsplits.eq.symm⟩
      · rw [ofClause?, hnone] at hp
        exact nomatch hp
    · intro before op after hsplits
      by_contra hblank
      have hempty : Text.trim before = [] := Text.trim_eq_nil_iff.mpr fun c hc ↦
        Bool.not_eq_false _ ▸ fun hnot ↦ hblank ⟨c, hc, hnot⟩
      rw [ofClause?_of_splits hsplits, if_pos hempty] at hp
      exact nomatch hp
  · rintro ⟨⟨op, hop⟩, hsome⟩
    rcases exists_splits_or_not clause.toList with ⟨before, op, after, hsplits⟩ | ⟨-, habsent⟩
    · obtain ⟨c, hc, hnot⟩ := hsome before op after hsplits
      refine ⟨_, (ofClause?_of_splits hsplits).trans (if_neg fun hempty ↦ ?_)⟩
      rw [Text.trim_eq_nil_iff.mp hempty c hc] at hnot
      exact Bool.noConfusion hnot
    · exact absurd hop (habsent op)

theorem ofClause?_eq_ok {clause : String} {p : Predicate} (h : ofClause? clause = .ok p) :
    ∃ before op after, Splits clause.toList before op after ∧
      p = ⟨String.ofList (Text.trim before), op, literal (String.ofList (Text.trim after))⟩ := by
  rcases exists_splits_or_not clause.toList with ⟨before, op, after, hsplits⟩ | ⟨hnone, -⟩
  · refine ⟨before, op, after, hsplits, ?_⟩
    rw [ofClause?_of_splits hsplits] at h
    split at h
    · exact nomatch h
    · exact (Except.ok.inj h).symm
  · rw [ofClause?, hnone] at h
    exact nomatch h

theorem Apart.ofClause?_append {field text : String} (h : Apart field op text) :
    ofClause? (field ++ op.symbol ++ text) = .ok ⟨field, op, literal text⟩ := by
  have hsplits : Splits (field ++ op.symbol ++ text).toList field.toList op text.toList := by
    rw [String.toList_append, String.toList_append]
    exact splits_append h.no_sign h.no_mark h.alone
  have hfield : Text.trim field.toList ≠ [] := by
    rw [h.field_trimmed]
    exact fun hempty ↦ h.field_ne (String.toList_eq_nil_iff.mp hempty)
  rw [ofClause?_of_splits hsplits, if_neg hfield, h.field_trimmed, h.text_trimmed, String.ofList_toList,
    String.ofList_toList]

/-- A clause is read if there is an operator in it and something before the earliest one: the field is what stands
before it, the operator is the longest one there, and the value is what the rest spells. Whatever is written as a
field, an operator and a text that stay apart is read so. -/
theorem clause_splits_first :
    (∀ clause : String, (∃ p, ofClause? clause = .ok p) ↔
      (∃ op : CompareOp, op.symbol.toList <:+: clause.toList) ∧
        ∀ before op after, Splits clause.toList before op after → ∃ c ∈ before, Text.isBlank c = false) ∧
    (∀ clause p, ofClause? clause = .ok p → ∃ before op after, Splits clause.toList before op after ∧
      p = ⟨String.ofList (Text.trim before), op, literal (String.ofList (Text.trim after))⟩) ∧
    ∀ field op text, Apart field op text → ofClause? (field ++ op.symbol ++ text) = .ok ⟨field, op, literal text⟩ :=
  ⟨exists_ofClause?_iff, fun _ _ ↦ ofClause?_eq_ok, fun _ _ _ ↦ Apart.ofClause?_append⟩

/-- It is so of a text that has operators in it itself. -/
theorem clause_splits_first_nested : Apart "name" .eq "a!=b" ∧
    ofClause? ("name" ++ CompareOp.eq.symbol ++ "a!=b") = .ok ⟨"name", .eq, .str "a!=b"⟩ := by
  have hapart : Apart "name" .eq "a!=b" := ⟨by decide, by decide, by simp, by decide, by decide, by decide⟩
  exact ⟨hapart, clause_splits_first.2.2 "name" .eq "a!=b" hapart⟩

end Predicate

end LiveGraph
