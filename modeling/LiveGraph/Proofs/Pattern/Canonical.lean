import LiveGraph.Proofs.Pattern.Blame
import LiveGraph.Proofs.Pattern.Spelling

/-!
# Reading the canonical form

The canonical form of a parsed pattern is read as the same pattern, except for the values that are integers:
they stand bare, and what is read is the integer, without leading zeros and only if a token can hold it. Main
statement: exactly when a parsed pattern is read back from its canonical form.
-/

namespace LiveGraph.Pattern

/-- What digits that stand bare are read as. -/
def rereadDigits? (digits : List Char) : Option String :=
  if Text.natOfDigits digits ≤ maxInt then some (toString (Text.natOfDigits digits)) else none

/-- What a value is read as where it was written; nothing if it cannot be read. -/
def rereadValue? (value : String) : Option String :=
  match value.toList with
  | '-' :: digits => if isPlainDigits digits then (rereadDigits? digits).map ("-" ++ ·) else some value
  | digits => if isPlainDigits digits then rereadDigits? digits else some value

def Condition.reread? (c : Condition) : Option Condition :=
  (rereadValue? c.value).map fun value ↦ { c with value := value }

def Suffix.reread? : Suffix → Option Suffix
  | .relation name => some (.relation name)
  | .filter conditions => (conditions.mapM Condition.reread?).map .filter
  | .index n => some (.index n)

/-- What a pattern is read as where it was written. -/
def reread? (p : LiveGraph.Pattern) : Option LiveGraph.Pattern :=
  (p.suffixes.mapM Suffix.reread?).map fun suffixes ↦ { p with suffixes := suffixes }

/-- A value that is no integer, or one as an integer token would be shown. -/
def IsStable (value : String) : Prop :=
  isPlainInt value.toList = true → ∃ n ≤ maxInt, value = toString n ∨ value = "-" ++ toString n

/-- The values that the conditions of a pattern compare with. -/
def values (p : LiveGraph.Pattern) : List String :=
  p.suffixes.flatMap fun
    | .filter conditions => conditions.map (·.value)
    | .relation _ => []
    | .index _ => []

section Digits

theorem natOfDigits_repr (n : Nat) : Text.natOfDigits n.repr.toList = n := by
  rw [Nat.toList_repr]
  exact Nat.ofDigitChars_ten_toDigits

theorem isPlainDigits_repr (n : Nat) : isPlainDigits n.repr.toList = true := by
  rw [isPlainDigits_iff, Nat.toList_repr]
  refine ⟨Nat.toDigits_ne_nil, fun c hc ↦ ?_⟩
  have hdigit := Nat.isDigit_of_mem_toDigits (by decide) (by decide) hc
  rw [Char.isDigit, Bool.and_eq_true, decide_eq_true_eq, decide_eq_true_eq] at hdigit
  exact isDigit_iff.mpr hdigit

theorem not_isPlainDigits_minus (digits : List Char) : isPlainDigits ('-' :: digits) = false := by
  rw [Bool.eq_false_iff, Ne, isPlainDigits_iff]
  exact fun h ↦ absurd (h.2 '-' List.mem_cons_self) (by decide)

theorem rereadDigits?_repr {n : Nat} (hn : n ≤ maxInt) : rereadDigits? n.repr.toList = some (toString n) := by
  rw [rereadDigits?, natOfDigits_repr, if_pos hn]

theorem rereadDigits?_eq_some_iff {digits : List Char} {value : String} :
    rereadDigits? digits = some value ↔
      Text.natOfDigits digits ≤ maxInt ∧ toString (Text.natOfDigits digits) = value := by
  rw [rereadDigits?]
  split
  · simp_all
  · simp_all

theorem rereadValue?_minus {value : String} {digits : List Char} (h : value.toList = '-' :: digits) :
    rereadValue? value =
      if isPlainDigits digits then (rereadDigits? digits).map ("-" ++ ·) else some value := by
  rw [rereadValue?, h]
  rfl

theorem rereadValue?_plain {value : String} (h : isPlainDigits value.toList = true) :
    rereadValue? value = rereadDigits? value.toList := by
  rw [rereadValue?]
  split
  · rename_i digits heq
    rw [heq, not_isPlainDigits_minus] at h
    exact nomatch h
  · exact if_pos h

theorem rereadValue?_other {value : String} (h : isPlainInt value.toList = false) :
    rereadValue? value = some value := by
  rw [rereadValue?]
  split
  · rename_i digits heq
    rw [heq] at h
    exact if_neg (Bool.eq_false_iff.mp h)
  · rename_i heq
    rw [isPlainInt] at h
    · exact if_neg (Bool.eq_false_iff.mp h)
    · exact heq

theorem isPlainInt_cases {text : List Char} (h : isPlainInt text = true) :
    (∃ digits, text = '-' :: digits ∧ isPlainDigits digits = true) ∨ isPlainDigits text = true := by
  rw [isPlainInt.eq_def] at h
  split at h
  · exact .inl ⟨_, rfl, h⟩
  · exact .inr h

/-- A value is read as it was written if and only if it is stable. -/
theorem rereadValue?_eq_self_iff {value : String} : rereadValue? value = some value ↔ IsStable value := by
  constructor
  · intro h hint
    rcases isPlainInt_cases hint with ⟨digits, hvalue, hdigits⟩ | hdigits
    · rw [rereadValue?_minus hvalue, if_pos hdigits] at h
      obtain ⟨shown, hshown, hshow⟩ := Option.map_eq_some_iff.mp h
      obtain ⟨hn, rfl⟩ := rereadDigits?_eq_some_iff.mp hshown
      exact ⟨_, hn, .inr hshow.symm⟩
    · rw [rereadValue?_plain hdigits] at h
      obtain ⟨hn, hshow⟩ := rereadDigits?_eq_some_iff.mp h
      exact ⟨_, hn, .inl hshow.symm⟩
  · intro h
    cases hint : isPlainInt value.toList with
    | false => exact rereadValue?_other hint
    | true =>
      obtain ⟨n, hn, rfl | rfl⟩ := h hint
      · exact (rereadValue?_plain (isPlainDigits_repr n)).trans (rereadDigits?_repr hn)
      · have hminus : ("-" ++ toString n).toList = '-' :: n.repr.toList := by
          rw [String.toList_append]
          rfl
        rw [rereadValue?_minus hminus, if_pos (isPlainDigits_repr n), rereadDigits?_repr hn]
        rfl

end Digits

section Formed

open Grammar

/-- The URIs that tokens can hold. -/
def IsFormedUri (uri : Uri) : Prop :=
  isBareUri uri.toList = true ∨ uri.toList ≠ [] ∧ ∀ c ∈ uri.toList, isBracketChar c = true

/-- What is known of the parts of a pattern that was read from formed tokens. -/
def Root.IsFormed : Root → Prop
  | .collection name => isPlainWord name.toList = true
  | .anchor role offset => isPlainWord role.toList = true ∧ ∃ ts, Offset ts offset
  | .uri uri => IsFormedUri uri

def Suffix.IsFormed : Suffix → Prop
  | .relation name => isPlainWord name.toList = true
  | .filter conditions => conditions ≠ [] ∧ ∀ c ∈ conditions, isPlainWord c.field.toList = true
  | .index n => n ≤ maxInt

variable {ts : List Token}

theorem isFormed_of_root {root : LiveGraph.Root} (h : Grammar.Root ts root) (hts : ∀ t ∈ ts, t.IsFormed) :
    Root.IsFormed root := by
  cases h with
  | collection name => exact hts _ List.mem_cons_self
  | anchor role hoffset => exact ⟨hts (.word role) (by simp), _, hoffset⟩
  | uri huri =>
    cases huri with
    | bare uri => exact .inl (hts _ List.mem_cons_self)
    | bracket uri => exact .inr (hts _ List.mem_cons_self)

theorem isPlainWord_of_condition {c : LiveGraph.Condition} (h : Grammar.Condition ts c)
    (hts : ∀ t ∈ ts, t.IsFormed) : isPlainWord c.field.toList = true := by
  cases h with
  | mk field _ _ => exact hts _ List.mem_cons_self

theorem isPlainWord_of_conditions {cs : List LiveGraph.Condition} (h : Conditions ts cs)
    (hts : ∀ t ∈ ts, t.IsFormed) : cs ≠ [] ∧ ∀ c ∈ cs, isPlainWord c.field.toList = true := by
  induction h with
  | one hc =>
    refine ⟨List.cons_ne_nil _ _, fun c hmem ↦ ?_⟩
    obtain rfl := List.mem_singleton.mp hmem
    exact isPlainWord_of_condition hc hts
  | more hc _ ih =>
    refine ⟨List.cons_ne_nil _ _, fun c hmem ↦ ?_⟩
    rcases List.mem_cons.mp hmem with rfl | hmem
    · exact isPlainWord_of_condition hc fun t ht ↦ hts t (List.mem_append_left _ ht)
    · exact (ih fun t ht ↦ hts t (List.mem_append_right _ (List.mem_cons_of_mem _ ht))).2 c hmem

theorem isFormed_of_suffix {s : LiveGraph.Suffix} (h : Grammar.Suffix ts s) (hts : ∀ t ∈ ts, t.IsFormed) :
    Suffix.IsFormed s := by
  cases h with
  | relation name => exact hts (.word name) (by simp)
  | filter hcs =>
    exact isPlainWord_of_conditions hcs fun t ht ↦
      hts t (List.mem_cons_of_mem _ (List.mem_append_left _ ht))
  | index n => exact hts (.int n) (by simp)

theorem isFormed_of_suffixes {ss : List LiveGraph.Suffix} (h : Suffixes ts ss)
    (hts : ∀ t ∈ ts, t.IsFormed) : ∀ s ∈ ss, Suffix.IsFormed s := by
  induction h with
  | nil => exact fun _ hs ↦ absurd hs List.not_mem_nil
  | cons hsuffix _ ih =>
    intro s hs
    rcases List.mem_cons.mp hs with rfl | hs
    · exact isFormed_of_suffix hsuffix fun t ht ↦ hts t (List.mem_append_left _ ht)
    · exact ih (fun t ht ↦ hts t (List.mem_append_right _ ht)) s hs

end Formed

section Written

/-- The marks that stand after values, names and suffixes. -/
def stoppers : List Char :=
  ['/', '(', ')', '[', ']', ',', '=', '!']

/-- A text that ends the token before it. -/
def Stops (rest : List Char) : Prop :=
  ∀ c ∈ rest.head?, c ∈ stoppers

theorem Stops.classes {rest : List Char} (h : Stops rest) : ∀ c ∈ rest.head?,
    isWordChar c = false ∧ c ≠ ':' ∧ Text.isDigit c = false ∧ isBareChar c = false := by
  intro c hc
  have hmark := h c hc
  rw [stoppers] at hmark
  simp only [List.mem_cons, List.not_mem_nil, or_false] at hmark
  rcases hmark with rfl | rfl | rfl | rfl | rfl | rfl | rfl | rfl <;> exact ⟨rfl, by decide, rfl, rfl⟩

theorem stops_nil : Stops [] := fun _ hc ↦ nomatch hc

theorem stops_cons {c : Char} (hc : c ∈ stoppers) (rest : List Char) : Stops (c :: rest) :=
  fun _ hd ↦ Option.some.inj hd ▸ hc

/-- A text is read as a phrase, in front of whatever ends it, or cannot be read. -/
def ReadAs {α : Type} (text : List Char) (G : Phrases α) : Option α → Prop
  | some a => ∃ ts, G ts a ∧
    ∀ rest, Stops rest → spelled? (text ++ rest) = (spelled? rest).map (ts ++ ·)
  | none => ∀ rest, Stops rest → spelled? (text ++ rest) = none

namespace ReadAs

variable {α β γ : Type} {text text' : List Char} {G : Phrases α} {G' : Phrases β} {H : Phrases γ}
variable {a? : Option α} {b? : Option β}

theorem mono {K : Phrases α} (h : ReadAs text G a?) (hK : ∀ ts a, G ts a → K ts a) : ReadAs text K a? := by
  cases a? with
  | none => exact h
  | some a =>
    obtain ⟨ts, ha, hread⟩ := h
    exact ⟨ts, hK ts a ha, hread⟩

theorem map (h : ReadAs text G a?) (f : α → β) (hf : ∀ ts a, G ts a → G' ts (f a)) :
    ReadAs text G' (a?.map f) := by
  cases a? with
  | none => exact h
  | some a =>
    obtain ⟨ts, ha, hread⟩ := h
    exact ⟨ts, hf ts a ha, hread⟩

/-- One text after another that ends it. -/
theorem append (h : ReadAs text G a?) (h' : ReadAs text' G' b?) (hstops : ∀ rest, Stops rest → Stops (text' ++ rest))
    (f : α → β → γ) (hf : ∀ ts ts' a b, G ts a → G' ts' b → H (ts ++ ts') (f a b)) :
    ReadAs (text ++ text') H (a?.bind fun a ↦ b?.map (f a)) := by
  cases a? with
  | none =>
    intro rest hrest
    rw [List.append_assoc]
    exact h _ (hstops rest hrest)
  | some a =>
    obtain ⟨ts, ha, hread⟩ := h
    cases b? with
    | none =>
      intro rest hrest
      rw [List.append_assoc, hread _ (hstops rest hrest), h' rest hrest]
      rfl
    | some b =>
      obtain ⟨ts', hb, hread'⟩ := h'
      refine ⟨ts ++ ts', hf ts ts' a b ha hb, fun rest hrest ↦ ?_⟩
      rw [List.append_assoc, hread _ (hstops rest hrest), hread' rest hrest, Option.map_map]
      congr 1
      funext more
      exact (List.append_assoc ts ts' more).symm

/-- A token in front of a text. -/
theorem cons {front : List Char} {t : Token} (h : ReadAs text (G.after [t]) a?)
    (hfront : ∀ rest, spelled? (front ++ (text ++ rest)) = (spelled? (text ++ rest)).map (t :: ·)) :
    ReadAs (front ++ text) G a? := by
  cases a? with
  | none =>
    intro rest hrest
    rw [List.append_assoc, hfront, h rest hrest]
    rfl
  | some a =>
    obtain ⟨ts, ha, hread⟩ := h
    refine ⟨t :: ts, ha, fun rest hrest ↦ ?_⟩
    rw [List.append_assoc, hfront, hread rest hrest, Option.map_map]
    rfl

theorem mark {c : Char} {m : Mark} (hm : mark? c = some m) (h : ReadAs text (G.after [.mark m]) a?) :
    ReadAs (c :: text) G a? := by
  rw [← List.singleton_append]
  exact h.cons fun rest ↦ spelled?_mark hm

/-- A mark after a text, which ends it. -/
theorem close {c : Char} {m : Mark} (h : ReadAs text G a?) (hm : mark? c = some m) (hc : c ∈ stoppers) (f : α → β)
    (hf : ∀ ts a, G ts a → G' (ts ++ [.mark m]) (f a)) : ReadAs (text ++ [c]) G' (a?.map f) := by
  cases a? with
  | none =>
    intro rest _
    rw [List.append_assoc]
    exact h _ (stops_cons hc rest)
  | some a =>
    obtain ⟨ts, ha, hread⟩ := h
    refine ⟨ts ++ [.mark m], hf ts a ha, fun rest _ ↦ ?_⟩
    rw [List.append_assoc, List.singleton_append, hread _ (stops_cons hc rest), spelled?_mark hm,
      Option.map_map]
    congr 1
    funext more
    exact (List.append_assoc ts [_] more).symm

/-- A single token, in front of whatever ends it. -/
theorem token {t : Token} {a : α} (ha : G [t] a)
    (h : ∀ rest, Stops rest → spelled? (text ++ rest) = (spelled? rest).map (t :: ·)) :
    ReadAs text G (some a) :=
  ⟨[t], ha, h⟩

end ReadAs

open Grammar

theorem readAs_int {n : Nat} (hn : n ≤ maxInt) : ReadAs n.repr.toList (fun ts m ↦ ts = [.int m]) (some n) := by
  refine .token rfl fun rest hrest ↦ ?_
  rw [spelled?_digits (isPlainDigits_repr n) fun c hc ↦ (hrest.classes c hc).2.2.1, natOfDigits_repr, if_pos hn]

theorem readAs_digits {text : List Char} (h : isPlainDigits text = true) :
    ReadAs text (fun ts shown ↦ ∃ n, ts = [.int n] ∧ shown = toString n) (rereadDigits? text) := by
  have hdigits {rest : List Char} (hrest : Stops rest) :=
    spelled?_digits h fun c hc ↦ (hrest.classes c hc).2.2.1
  rw [rereadDigits?]
  split
  · rename_i hle
    refine .token ⟨_, rfl, rfl⟩ fun rest hrest ↦ ?_
    rw [hdigits hrest, if_pos hle]
  · rename_i hgt
    intro rest hrest
    rw [hdigits hrest, if_neg hgt]

theorem spelled?_plainWord {name : String} {rest : List Char} (h : isPlainWord name.toList = true)
    (hrest : ∀ c ∈ rest.head?, isWordChar c = false ∧ c ≠ ':') :
    spelled? (name.toList ++ rest) = (spelled? rest).map (.word name :: ·) := by
  rw [spelled?_word h hrest, String.ofList_toList]

theorem Stops.word {rest : List Char} (h : Stops rest) : ∀ c ∈ rest.head?, isWordChar c = false ∧ c ≠ ':' :=
  fun c hc ↦ ⟨(h.classes c hc).1, (h.classes c hc).2.1⟩

theorem writeValue_of_int {value : String} (h : isPlainInt value.toList = true) : writeValue value = value := by
  rw [writeValue, h, Bool.or_true, if_pos rfl]

/-- A value is read as it was written, but for the digits of an integer. -/
theorem readAs_value (value : String) : ReadAs (writeValue value).toList Literal (rereadValue? value) := by
  cases hint : isPlainInt value.toList with
  | true =>
    rw [writeValue_of_int hint]
    rcases isPlainInt_cases hint with ⟨digits, hvalue, hdigits⟩ | hdigits
    · rw [rereadValue?_minus hvalue, if_pos hdigits, hvalue]
      have hnegative : ReadAs digits (Phrases.after Literal [.mark .minus])
          ((rereadDigits? digits).map ("-" ++ ·)) := by
        apply (readAs_digits hdigits).map
        rintro ts shown ⟨n, rfl, rfl⟩
        exact .negative n
      exact hnegative.mark rfl
    · rw [rereadValue?_plain hdigits]
      apply (readAs_digits hdigits).mono
      rintro ts shown ⟨n, rfl, rfl⟩
      exact .int n
  | false =>
    rw [rereadValue?_other hint, writeValue, hint, Bool.or_false]
    split
    · rename_i hword
      exact .token (.word value) fun rest hrest ↦ spelled?_plainWord hword hrest.word
    · refine .token (.quoted value) fun rest _ ↦ ?_
      rw [String.toList_ofList, spelled?_quoted, String.ofList_toList]

/-- What stands between the field and the value of a condition. -/
theorem spelled?_comparison (op : MatchOp) : ∃ t, Comparison t op ∧
    ∀ rest, spelled? ((MatchOp.write op).toList ++ rest) = (spelled? rest).map (t :: ·) := by
  cases op with
  | eq => exact ⟨_, .eq, fun _ ↦ spelled?_mark rfl⟩
  | ne => exact ⟨_, .ne, fun _ ↦ spelled?_ne⟩

theorem readAs_condition {c : LiveGraph.Condition} (h : isPlainWord c.field.toList = true) :
    ReadAs (Condition.write c).toList Grammar.Condition (Condition.reread? c) := by
  obtain ⟨t, ht, hop⟩ := spelled?_comparison c.op
  have hstops (rest : List Char) : Stops ((MatchOp.write c.op).toList ++ rest) := by
    cases c.op with
    | eq => exact stops_cons (by decide) _
    | ne => exact stops_cons (by decide) _
  have hvalue : ReadAs (writeValue c.value).toList
      ((Phrases.after Grammar.Condition [.word c.field]).after [t]) (Condition.reread? c) := by
    apply (readAs_value c.value).map
    exact fun ts value hts ↦ .mk c.field ht hts
  rw [Condition.write, String.toList_append, String.toList_append, List.append_assoc]
  apply (hvalue.cons fun rest ↦ hop _).cons
  intro rest
  rw [List.append_assoc]
  exact spelled?_plainWord h (hstops _).word

theorem readAs_conditions {cs : List LiveGraph.Condition} (hne : cs ≠ [])
    (h : ∀ c ∈ cs, isPlainWord c.field.toList = true) :
    ReadAs (",".intercalate (cs.map Condition.write)).toList Conditions (cs.mapM Condition.reread?) := by
  induction cs with
  | nil => exact absurd rfl hne
  | cons c cs ih =>
    have hc := readAs_condition (h c List.mem_cons_self)
    cases cs with
    | nil =>
      have hone : List.mapM Condition.reread? [c] = (Condition.reread? c).map ([·]) := by
        cases hreread : Condition.reread? c <;> simp [hreread]
      rw [hone]
      have htext : (",".intercalate ([c].map Condition.write)).toList = (Condition.write c).toList := by
        simp
      rw [htext]
      exact hc.map _ fun ts c hts ↦ .one hts
    | cons d cs =>
      have hcs := ih (List.cons_ne_nil _ _) fun c hmem ↦ h c (List.mem_cons_of_mem _ hmem)
      have hmore : List.mapM Condition.reread? (c :: d :: cs) = (Condition.reread? c).bind fun c ↦
          (List.mapM Condition.reread? (d :: cs)).map (c :: ·) := by
        rw [List.mapM_cons]
        cases Condition.reread? c with
        | none => rfl
        | some c => cases List.mapM Condition.reread? (d :: cs) <;> rfl
      have htext : (",".intercalate ((c :: d :: cs).map Condition.write)).toList =
          (Condition.write c).toList ++ (',' :: (",".intercalate ((d :: cs).map Condition.write)).toList) := by
        simp [String.toList_intercalate, List.intercalate]
      rw [hmore, htext]
      have hcomma : ReadAs (',' :: (",".intercalate ((d :: cs).map Condition.write)).toList)
          (fun ts cs ↦ ∃ ts', ts = .mark .comma :: ts' ∧ Conditions ts' cs)
          (List.mapM Condition.reread? (d :: cs)) := by
        apply ReadAs.mark (m := .comma) rfl
        exact hcs.mono fun ts cs hts ↦ ⟨ts, rfl, hts⟩
      apply hc.append hcomma (fun rest _ ↦ stops_cons (by decide) _)
      rintro ts _ c cs hts ⟨ts', rfl, hts'⟩
      exact .more hts hts'

theorem readAs_suffix {s : LiveGraph.Suffix} (h : Suffix.IsFormed s) :
    ReadAs (Suffix.write s).toList Grammar.Suffix (Suffix.reread? s) := by
  cases s with
  | relation name =>
    rw [Suffix.write, String.toList_append]
    have hname : ReadAs name.toList (Phrases.after Grammar.Suffix [.mark .slash]) (some (.relation name)) :=
      .token (.relation name) fun rest hrest ↦ spelled?_plainWord h hrest.word
    exact hname.mark rfl
  | filter conditions =>
    rw [Suffix.write, String.toList_append, String.toList_append, List.append_assoc]
    have hconditions : ReadAs ((",".intercalate (conditions.map Condition.write)).toList ++ [')'])
        (Phrases.after Grammar.Suffix [.mark .openFilter])
        ((conditions.mapM Condition.reread?).map .filter) :=
      (readAs_conditions h.1 h.2).close rfl (by decide) _ fun ts cs hts ↦ .filter hts
    exact hconditions.mark rfl
  | index n =>
    rw [Suffix.write, String.toList_append, String.toList_append, List.append_assoc]
    have hindex : ReadAs (n.repr.toList ++ [']']) (Phrases.after Grammar.Suffix [.mark .openIndex])
        ((some n).map .index) := by
      apply (readAs_int h).close rfl (by decide)
      rintro _ m rfl
      exact .index m
    exact hindex.mark rfl

theorem stops_suffixes (ss : List LiveGraph.Suffix) {rest : List Char} (h : Stops rest) :
    Stops ((String.join (ss.map Suffix.write)).toList ++ rest) := by
  rw [String.toList_join]
  cases ss with
  | nil => exact h
  | cons s ss =>
    rw [List.map_cons, List.flatMap_cons, List.append_assoc]
    cases s with
    | relation name =>
      rw [Suffix.write, String.toList_append]
      exact stops_cons (by decide) _
    | filter conditions =>
      rw [Suffix.write, String.toList_append, String.toList_append]
      exact stops_cons (by decide) _
    | index n =>
      rw [Suffix.write, String.toList_append, String.toList_append]
      exact stops_cons (by decide) _

theorem readAs_suffixes {ss : List LiveGraph.Suffix} (h : ∀ s ∈ ss, Suffix.IsFormed s) :
    ReadAs (String.join (ss.map Suffix.write)).toList Suffixes (ss.mapM Suffix.reread?) := by
  induction ss with
  | nil => exact ⟨[], .nil, fun rest _ ↦ Option.map_id'.symm⟩
  | cons s ss ih =>
    have hs := readAs_suffix (h s List.mem_cons_self)
    have hss := ih fun s hmem ↦ h s (List.mem_cons_of_mem _ hmem)
    have hmapM : List.mapM Suffix.reread? (s :: ss) = (Suffix.reread? s).bind fun s ↦
        (List.mapM Suffix.reread? ss).map (s :: ·) := by
      rw [List.mapM_cons]
      cases Suffix.reread? s with
      | none => rfl
      | some s => cases List.mapM Suffix.reread? ss <;> rfl
    have htext : (String.join ((s :: ss).map Suffix.write)).toList =
        (Suffix.write s).toList ++ (String.join (ss.map Suffix.write)).toList := by
      simp [String.toList_join]
    rw [hmapM, htext]
    apply hs.append hss fun rest hrest ↦ stops_suffixes ss hrest
    exact fun ts ts' s ss hts hts' ↦ .cons hts hts'

theorem readAs_uri {uri : Uri} (h : IsFormedUri uri) :
    ReadAs (writeUri uri).toList (fun ts u ↦ ∃ t, ts = [t] ∧ Grammar.Uri t u) (some uri) := by
  rw [writeUri]
  split
  · rename_i hbare
    refine .token ⟨_, rfl, .bare uri⟩ fun rest hrest ↦ ?_
    rw [spelled?_bareUri hbare fun c hc ↦ (hrest.classes c hc).2.2.2, String.ofList_toList]
  · rename_i hbare
    obtain ⟨hne, hall⟩ := h.resolve_left hbare
    refine .token ⟨_, rfl, .bracket uri⟩ fun rest _ ↦ ?_
    have htext : ("<" ++ uri ++ ">").toList ++ rest = '<' :: uri.toList ++ '>' :: rest := by
      simp
    rw [htext, spelled?_bracketUri hne hall, String.ofList_toList]

section Offsets

variable {n : Nat}

theorem toInt_ofNat_of_le (hn : n ≤ maxOffset) : (Int64.ofInt n).toInt = n :=
  Int64.toInt_ofInt_of_le (by omega) (by rw [maxOffset] at hn; omega)

theorem toInt_neg_of_le (hn : n ≤ maxOffset) : (Int64.ofInt (-n)).toInt = -n :=
  Int64.toInt_ofInt_of_le (by rw [maxOffset] at hn; omega) (by omega)

theorem writeOffset_plus (hn : n + 1 ≤ maxOffset) :
    writeOffset (.ofInt (n + 1 : Nat)) = "+" ++ toString (n + 1) := by
  have hpos : (0 : Int64) < .ofInt (n + 1 : Nat) := by
    rw [Int64.lt_iff_toInt_lt, toInt_ofNat_of_le hn]
    exact Int.natCast_pos.mpr n.succ_pos
  rw [writeOffset, if_pos hpos, toInt_ofNat_of_le hn]
  rfl

theorem writeOffset_minus (hn : n + 1 ≤ maxOffset) :
    writeOffset (.ofInt (-(n + 1 : Nat))) = "-" ++ toString (n + 1) := by
  have hneg : Int64.ofInt (-(n + 1 : Nat)) < 0 := by
    rw [Int64.lt_iff_toInt_lt, toInt_neg_of_le hn]
    exact Int.neg_neg_of_pos (Int.natCast_pos.mpr n.succ_pos)
  have hnot : ¬(0 : Int64) < .ofInt (-(n + 1 : Nat)) := by
    rw [Int64.lt_iff_toInt_lt] at hneg ⊢
    omega
  rw [writeOffset, if_neg hnot, if_pos hneg, toInt_neg_of_le hn]
  rfl

end Offsets

/-- The sign and the distance are read as they were written; where there is nothing to move by, nothing is
written. -/
theorem readAs_offset {ts : List Token} {offset : Int64} (h : Offset ts offset) :
    ReadAs (writeOffset offset).toList Offset (some offset) ∧
      ∀ rest, Stops rest → ∀ c ∈ ((writeOffset offset).toList ++ rest).head?,
        isWordChar c = false ∧ c ≠ ':' := by
  have hzero : ReadAs (writeOffset 0).toList Offset (some 0) ∧ ∀ rest, Stops rest →
      ∀ c ∈ ((writeOffset 0).toList ++ rest).head?, isWordChar c = false ∧ c ≠ ':' :=
    ⟨⟨[], .none, fun rest _ ↦ Option.map_id'.symm⟩, fun rest hrest ↦ hrest.word⟩
  have hle {n : Nat} (hn : n ≤ maxOffset) : n ≤ maxInt := hn.trans (by decide)
  cases h with
  | none => exact hzero
  | plus n hn =>
    cases n with
    | zero => exact hzero
    | succ n =>
      rw [writeOffset_plus hn, String.toList_append]
      have hdistance : ReadAs (n + 1).repr.toList (Phrases.after Offset [.mark .plus])
          ((some (n + 1)).map fun m : Nat ↦ .ofInt m) := by
        refine .token (.plus (n + 1) hn) fun rest hrest ↦ ?_
        rw [spelled?_digits (isPlainDigits_repr _) fun c hc ↦ (hrest.classes c hc).2.2.1, natOfDigits_repr,
          if_pos (hle hn)]
      refine ⟨hdistance.mark rfl, fun rest _ c hc ↦ ?_⟩
      obtain rfl := Option.some.inj hc
      decide
  | minus n hn =>
    cases n with
    | zero => exact hzero
    | succ n =>
      rw [writeOffset_minus hn, String.toList_append]
      have hdistance : ReadAs (n + 1).repr.toList (Phrases.after Offset [.mark .minus])
          (some (.ofInt (-(n + 1 : Nat)))) := by
        refine .token (.minus (n + 1) hn) fun rest hrest ↦ ?_
        rw [spelled?_digits (isPlainDigits_repr _) fun c hc ↦ (hrest.classes c hc).2.2.1, natOfDigits_repr,
          if_pos (hle hn)]
      refine ⟨hdistance.mark rfl, fun rest _ c hc ↦ ?_⟩
      obtain rfl := Option.some.inj hc
      decide

theorem readAs_root {root : LiveGraph.Root} (h : Root.IsFormed root) :
    ReadAs (Root.write root).toList Grammar.Root (some root) := by
  cases root with
  | collection name => exact .token (.collection name) fun rest hrest ↦ spelled?_plainWord h hrest.word
  | anchor role offset =>
    obtain ⟨hrole, ts, hts⟩ := h
    obtain ⟨hread, hends⟩ := readAs_offset hts
    have hoffset : ReadAs (writeOffset offset).toList
        ((Phrases.after Grammar.Root [.mark .at]).after [.word role]) ((some offset).map (.anchor role)) :=
      hread.map _ fun ts offset hts ↦ .anchor role hts
    obtain ⟨ts, hts, hspelled⟩ := hoffset
    have hroot : ReadAs (role.toList ++ (writeOffset offset).toList) (Phrases.after Grammar.Root [.mark .at])
        (some (.anchor role offset)) := by
      refine ⟨.word role :: ts, hts, fun rest hrest ↦ ?_⟩
      rw [List.append_assoc, spelled?_plainWord hrole (hends rest hrest), hspelled rest hrest, Option.map_map]
      rfl
    rw [Root.write, String.toList_append, String.toList_append, List.append_assoc]
    exact hroot.mark rfl
  | uri uri =>
    apply (readAs_uri h).map Root.uri
    rintro ts uri ⟨t, rfl, ht⟩
    exact .uri ht

end Written

section Sources

open Grammar

variable {source : String} {p q : LiveGraph.Pattern}

theorem spelled?_eq_some_iff {ts : List Token} : spelled? source.toList = some ts ↔
    ∃ found, tokenize source = (found, none) ∧ tokens found = ts := by
  rw [spelled?, tokenize]
  split
  · simp_all
  · simp_all

/-- A source is parsed if it is not too long and spells what the grammar derives the pattern from. -/
theorem parse_eq_ok_iff : parse source = .ok p ↔ source.utf8ByteSize ≤ maxPatternLength ∧
    ∃ ts, spelled? source.toList = some ts ∧ Derives ts p := by
  rw [parse]
  split
  · rename_i hlong
    refine iff_of_false (by simp) fun h ↦ ?_
    exact absurd h.1 (Nat.not_le.mpr hlong)
  · rename_i hsize
    split
    · rename_i hstuck
      refine iff_of_false (by simp) ?_
      rintro ⟨-, ts, hts, -⟩
      obtain ⟨found, hfound, -⟩ := spelled?_eq_some_iff.mp hts
      exact Option.some_ne_none _ (congrArg Prod.snd (hstuck.symm.trans hfound))
    · rename_i found hfound
      rw [ofLexemes?_eq_ok_iff]
      constructor
      · exact fun h ↦ ⟨Nat.not_lt.mp hsize, _, spelled?_eq_some_iff.mpr ⟨found, hfound, rfl⟩, h⟩
      · rintro ⟨-, ts, hts, hderives⟩
        obtain ⟨found', hfound', rfl⟩ := spelled?_eq_some_iff.mp hts
        obtain ⟨rfl, -⟩ := Prod.mk.inj (hfound.symm.trans hfound')
        exact hderives

/-- The grammar derives one pattern at most. -/
theorem Grammar.Derives.unique {ts : List Token} (hp : Derives ts p) (hq : Derives ts q) : p = q := by
  obtain ⟨lexemes, rfl⟩ := exists_tokens ts
  have hread : ofLexemes? 0 lexemes = .ok p := ofLexemes?_of_derives hp
  exact Except.ok.inj (hread.symm.trans (ofLexemes?_of_derives hq))

theorem readAs_write (h : parse source = .ok p) : ReadAs (write p).toList Derives (reread? p) := by
  obtain ⟨-, ts, hts, hderives⟩ := parse_eq_ok_iff.mp h
  have hformed := isFormed_of_spelled? hts
  cases hderives with
  | mk hroot hsuffixes =>
    have hroot := readAs_root (isFormed_of_root hroot fun t ht ↦ hformed t (List.mem_append_left _ ht))
    have hsuffixes := readAs_suffixes
      (isFormed_of_suffixes hsuffixes fun t ht ↦ hformed t (List.mem_append_right _ ht))
    rw [write, String.toList_append]
    apply hroot.append hsuffixes fun rest hrest ↦ stops_suffixes _ hrest
    exact fun ts ts' root ss hts hts' ↦ .mk hts hts'

/-- What is read where a parsed pattern was written. -/
theorem parse_write_eq_ok_iff (h : parse source = .ok p) : parse (write p) = .ok q ↔
    (write p).utf8ByteSize ≤ maxPatternLength ∧ reread? p = some q := by
  have hread := readAs_write h
  rw [parse_eq_ok_iff]
  cases hreread : reread? p with
  | none =>
    rw [hreread] at hread
    have hnone := hread [] stops_nil
    rw [List.append_nil] at hnone
    simp [hnone]
  | some p' =>
    rw [hreread] at hread
    obtain ⟨ts, hderives, hspelled⟩ := hread
    have hsome := hspelled [] stops_nil
    rw [List.append_nil, spelled?_nil, Option.map_some, List.append_nil] at hsome
    refine and_congr_right fun _ ↦ ⟨?_, ?_⟩
    · rintro ⟨ts', hts', hderives'⟩
      obtain rfl := Option.some.inj (hsome.symm.trans hts')
      exact congrArg some (hderives.unique hderives')
    · intro heq
      obtain rfl := Option.some.inj heq
      exact ⟨ts, hsome, hderives⟩

theorem mapM_eq_self_iff {α : Type} {f : α → Option α} {l : List α} :
    l.mapM f = some l ↔ ∀ a ∈ l, f a = some a := by
  induction l with
  | nil => simp
  | cons a l ih =>
    rw [List.mapM_cons, List.forall_mem_cons, ← ih]
    cases f a with
    | none => simp
    | some b => cases List.mapM f l <;> simp

theorem Condition.reread?_eq_self_iff {c : LiveGraph.Condition} :
    Condition.reread? c = some c ↔ IsStable c.value := by
  rw [Condition.reread?, ← rereadValue?_eq_self_iff]
  cases rereadValue? c.value with
  | none => simp
  | some value =>
    rw [Option.map_some, Option.some_inj, Option.some_inj]
    exact ⟨congrArg LiveGraph.Condition.value, fun h ↦ by rw [h]⟩

theorem Suffix.reread?_eq_self_iff {s : LiveGraph.Suffix} : Suffix.reread? s = some s ↔
    ∀ value ∈ values ⟨.collection "", [s]⟩, IsStable value := by
  cases s with
  | relation name => simp [Suffix.reread?, values]
  | index n => simp [Suffix.reread?, values]
  | filter conditions =>
    have hfilter : Suffix.reread? (.filter conditions) = some (.filter conditions) ↔
        conditions.mapM Condition.reread? = some conditions := by
      rw [Suffix.reread?]
      cases conditions.mapM Condition.reread? <;> simp
    rw [hfilter, mapM_eq_self_iff]
    simp [Condition.reread?_eq_self_iff, values]

theorem reread?_eq_self_iff : reread? p = some p ↔ ∀ value ∈ values p, IsStable value := by
  have hsuffixes : reread? p = some p ↔ p.suffixes.mapM Suffix.reread? = some p.suffixes := by
    rw [reread?]
    cases p.suffixes.mapM Suffix.reread? with
    | none => simp
    | some suffixes =>
      rw [Option.map_some, Option.some_inj, Option.some_inj]
      exact ⟨congrArg LiveGraph.Pattern.suffixes, fun h ↦ by rw [h]⟩
  rw [hsuffixes, mapM_eq_self_iff]
  simp only [Suffix.reread?_eq_self_iff, values, List.flatMap_cons, List.flatMap_nil, List.append_nil,
    List.mem_flatMap]
  exact ⟨fun h value ⟨s, hs, hvalue⟩ ↦ h s hs value hvalue, fun h s hs value hvalue ↦ h value ⟨s, hs, hvalue⟩⟩

/-- A parsed pattern is read back from its canonical form exactly when that is not too long and each value
that is an integer is written as a token would show it. -/
theorem parse_write_eq_self_iff (h : parse source = .ok p) : parse (write p) = .ok p ↔
    (write p).utf8ByteSize ≤ maxPatternLength ∧ ∀ value ∈ values p, IsStable value := by
  rw [parse_write_eq_ok_iff h, reread?_eq_self_iff]

/-- Leading zeros are lost. -/
example : rereadValue? "-007" = some "-7" := by
  cbv

/-- The first integer that no token can hold. -/
example : rereadValue? "18446744073709551616" = none := by
  cbv

end Sources

end LiveGraph.Pattern
