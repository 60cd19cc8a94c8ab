import LiveGraph.Resolution

/-!
# What a pattern resolves to

A pattern can be worked through with nothing but a list of entities and a mark that says whether the
list stands for one entity; only at the end is the one taken out. That comes to the same as resolving
it, the mark is what the form of the pattern says, and a marked list never holds a second entity, so
none is picked among several.
-/

namespace LiveGraph

/-- The entities a pattern has led to so far, and whether they are to stand for one. -/
structure Candidates where
  found : List EntityRef
  single : Bool

namespace Candidates

/-- The first entity where they stand for one, else all of them. -/
def unwrap (c : Candidates) : Resolution :=
  if c.single then .single c.found.head? else .list c.found

/-- A list that stands for one entity holds no second one. -/
def Settled (c : Candidates) : Prop :=
  c.single = true → c.found.length ≤ 1

end Candidates

namespace Root

def gather (id : StateId) (scope : Option String) : Root → Reads Candidates
  | .collection name => do
    let s ← Reads.peek (·.state id)
    return ⟨← Store.entitiesOf s.store (s.schema.collectionKind name), false⟩
  | .anchor role offset => return ⟨(← Focus.anchored id scope role offset).toList, true⟩
  | .uri place => do
    let s ← Reads.peek (·.state id)
    return ⟨(← Store.lookup s.store place).toList, true⟩

end Root

namespace Suffix

def gather (schema : Schema) (s : StoreId) (c : Candidates) : Suffix → Reads Candidates
  | .relation name => return ⟨← schema.traverse s name c.found [], false⟩
  | .filter conditions => return ⟨← Condition.select conditions c.found, c.single⟩
  | .index n => return ⟨c.found[n]?.toList, true⟩

def gatherAll (schema : Schema) (s : StoreId) : List Suffix → Candidates → Reads Candidates
  | [], c => pure c
  | suffix :: rest, c => do gatherAll schema s rest (← suffix.gather schema s c)

end Suffix

/-- Works a pattern through on a list and a mark. -/
def Pattern.gather (p : Pattern) (id : StateId) (scope : Option String) : Reads Candidates := do
  let c ← p.root.gather id scope
  let s ← Reads.peek (·.state id)
  Suffix.gatherAll s.schema s.store p.suffixes c

namespace Candidates

theorem length_toList_le (e : Option EntityRef) : e.toList.length ≤ 1 := by
  cases e with
  | none => exact Nat.zero_le 1
  | some e => exact Nat.le_refl 1

@[simp] theorem head?_toList (e : Option EntityRef) : e.toList.head? = e := by
  cases e <;> rfl

theorem isSingle_unwrap (c : Candidates) : c.unwrap.isSingle = c.single := by
  unfold unwrap
  cases c.single <;> rfl

/-- Nothing is lost where what stands for one entity is taken out. -/
theorem Settled.toList_unwrap {c : Candidates} (h : c.Settled) : c.unwrap.toList = c.found := by
  unfold unwrap
  by_cases hsingle : c.single = true
  · rw [if_pos hsingle]
    match hfound : c.found with
    | [] => rfl
    | [e] => rfl
    | e :: e' :: rest =>
      have hle := h hsingle
      rw [hfound, List.length_cons, List.length_cons] at hle
      omega
  · rw [if_neg hsingle]
    rfl

end Candidates

/-- Only conditions decide what is selected, so there is never more than before. -/
theorem Condition.length_select_le (cs : List Condition) (w : World) (es : List EntityRef) :
    ((select cs es).value w).length ≤ es.length := by
  induction es with
  | nil => exact Nat.le_refl 0
  | cons e rest ih =>
    rw [select, Reads.value_bind, Reads.value_bind, Reads.value_pure]
    split
    · exact Nat.succ_le_succ ih
    · exact Nat.le_succ_of_le ih

section Work

variable (w : World) (id : StateId) (scope : Option String) (schema : Schema) (s : StoreId)

/-! ## One step -/

theorem Root.settled_gather (root : Root) : ((root.gather id scope).value w).Settled := by
  cases root with
  | collection name => exact fun h ↦ Bool.noConfusion h
  | anchor role offset => exact fun _ ↦ Candidates.length_toList_le _
  | uri place => exact fun _ ↦ Candidates.length_toList_le _

theorem Root.single_gather (root : Root) : ((root.gather id scope).value w).single = root.isSingle := by
  cases root <;> rfl

theorem Root.evaluate_eq_unwrap (root : Root) :
    (root.evaluate id scope).value w = ((root.gather id scope).value w).unwrap := by
  cases root with
  | collection name => rfl
  | anchor role offset => exact congrArg Resolution.single (Candidates.head?_toList _).symm
  | uri place => exact congrArg Resolution.single (Candidates.head?_toList _).symm

variable {c : Candidates} (h : c.Settled)

theorem Suffix.single_gather (suffix : Suffix) (c : Candidates) :
    ((suffix.gather schema s c).value w).single = suffix.isSingle c.single := by
  cases suffix <;> rfl

include h

theorem Suffix.settled_gather (suffix : Suffix) : ((suffix.gather schema s c).value w).Settled := by
  cases suffix with
  | relation name => exact fun hsingle ↦ Bool.noConfusion hsingle
  | filter conditions => exact fun hsingle ↦ Nat.le_trans (Condition.length_select_le conditions w c.found) (h hsingle)
  | index n => exact fun _ ↦ Candidates.length_toList_le _

theorem Suffix.evaluate_eq_unwrap (suffix : Suffix) : (suffix.evaluate schema s c.unwrap).value w =
    ((suffix.gather schema s c).value w).unwrap := by
  have hfound := h.toList_unwrap
  cases suffix with
  | relation name =>
    rw [evaluate, hfound]
    rfl
  | filter conditions =>
    rw [evaluate, hfound]
    change c.unwrap.keep ((Condition.select conditions c.found).value w) = _
    rw [Candidates.unwrap, gather, Candidates.unwrap]
    change _ = if c.single = true then _ else _
    split <;> rfl
  | index n =>
    rw [evaluate, hfound]
    exact congrArg Resolution.single (Candidates.head?_toList _).symm

/-! ## All steps -/

theorem Suffix.settled_gatherAll (suffixes : List Suffix) :
    ((gatherAll schema s suffixes c).value w).Settled := by
  induction suffixes generalizing c with
  | nil => exact h
  | cons suffix rest ih => exact ih (suffix.settled_gather w schema s h)

theorem Suffix.evaluateAll_eq_unwrap (suffixes : List Suffix) :
    (evaluateAll schema s suffixes c.unwrap).value w =
      ((gatherAll schema s suffixes c).value w).unwrap := by
  induction suffixes generalizing c with
  | nil => rfl
  | cons suffix rest ih =>
    calc (evaluateAll schema s (suffix :: rest) c.unwrap).value w
      _ = (evaluateAll schema s rest ((suffix.evaluate schema s c.unwrap).value w)).value w := rfl
      _ = (evaluateAll schema s rest ((suffix.gather schema s c).value w).unwrap).value w := by
        rw [suffix.evaluate_eq_unwrap w schema s h]
      _ = ((gatherAll schema s rest ((suffix.gather schema s c).value w)).value w).unwrap :=
        ih (suffix.settled_gather w schema s h)

omit h

theorem Suffix.single_gatherAll (suffixes : List Suffix) (c : Candidates) :
    ((gatherAll schema s suffixes c).value w).single = suffixes.foldl isSingle c.single := by
  induction suffixes generalizing c with
  | nil => rfl
  | cons suffix rest ih =>
    rw [List.foldl_cons, ← suffix.single_gather w schema s c]
    exact ih _

theorem Suffix.evaluateAll_append (suffixes later : List Suffix) (r : Resolution) :
    (evaluateAll schema s (suffixes ++ later) r).value w =
      (evaluateAll schema s later ((evaluateAll schema s suffixes r).value w)).value w := by
  induction suffixes generalizing r with
  | nil => rfl
  | cons suffix rest ih => exact ih _

end Work

/-! ## Patterns -/

namespace Pattern

/-- A pattern followed by an index. -/
def indexed (p : Pattern) (n : Nat) : Pattern :=
  { p with suffixes := p.suffixes ++ [.index n] }

variable (p : Pattern) (id : StateId) (scope : Option String) (w : World)

theorem value_gather : (p.gather id scope).value w =
    (Suffix.gatherAll (w.state id).schema (w.state id).store p.suffixes
      ((p.root.gather id scope).value w)).value w := by
  rw [gather, Reads.value_bind, Reads.value_bind]
  rfl

theorem value_evaluate : (p.evaluate id scope).value w =
    (Suffix.evaluateAll (w.state id).schema (w.state id).store p.suffixes
      ((p.root.evaluate id scope).value w)).value w := by
  rw [evaluate, Reads.value_bind, Reads.value_bind]
  rfl

theorem single_gather : ((p.gather id scope).value w).single = p.isSingle := by
  rw [value_gather, isSingle, Suffix.single_gatherAll, Root.single_gather]

theorem settled_gather : ((p.gather id scope).value w).Settled := by
  rw [value_gather]
  exact Suffix.settled_gatherAll w _ _ (p.root.settled_gather w id scope) p.suffixes

theorem evaluate_eq_unwrap :
    (p.evaluate id scope).value w = ((p.gather id scope).value w).unwrap := by
  rw [value_evaluate, value_gather, Root.evaluate_eq_unwrap]
  exact Suffix.evaluateAll_eq_unwrap w _ _ (p.root.settled_gather w id scope) p.suffixes

theorem evaluate_indexed (n : Nat) : ((p.indexed n).evaluate id scope).value w =
    .single ((p.evaluate id scope).value w).toList[n]? := by
  rw [value_evaluate, value_evaluate, indexed, Suffix.evaluateAll_append]
  rfl

end Pattern

/-- One entity alone is found exactly where it is all that is found. -/
theorem Resolution.one?_eq_some_iff (r : Resolution) (e : EntityRef) :
    r.one? = some e ↔ r.toList = [e] := by
  cases r with
  | single found => cases found <;> simp [one?, toList]
  | list es =>
    match es with
    | [] => simp [one?, toList]
    | [e'] => simp [one?, toList]
    | e' :: e'' :: rest => simp [one?, toList]

/-- Resolving never picks one entity among several. A pattern resolves to what it leads to, taken for
one entity exactly if the form of the pattern says so, and then it leads to one at most. A text
resolves to one entity exactly if that is all it resolves to. An index takes the entity that stands
there in what the pattern before it resolves to. -/
theorem resolve_neverGuesses (id : StateId) (scope : Option String) (w : World) :
    (∀ p : Pattern,
      (p.evaluate id scope).value w = ((p.gather id scope).value w).unwrap ∧
        ((p.gather id scope).value w).Settled ∧
        ((p.evaluate id scope).value w).isSingle = p.isSingle ∧
        ∀ n, ((p.indexed n).evaluate id scope).value w =
          .single ((p.evaluate id scope).value w).toList[n]?) ∧
      ∀ text e, ((resolve id scope text).value w).map Resolution.one? = .ok (some e) ↔
        ((resolve id scope text).value w).map Resolution.toList = .ok [e] := by
  refine ⟨fun p ↦ ?_, fun text e ↦ ?_⟩
  · have hunwrap := p.evaluate_eq_unwrap id scope w
    have hsingle : ((p.evaluate id scope).value w).isSingle = p.isSingle :=
      calc ((p.evaluate id scope).value w).isSingle
        _ = ((p.gather id scope).value w).single := by rw [hunwrap, Candidates.isSingle_unwrap]
        _ = p.isSingle := p.single_gather id scope w
    exact ⟨hunwrap, p.settled_gather id scope w, hsingle, p.evaluate_indexed id scope w⟩
  · cases (resolve id scope text).value w with
    | error why => simp [Except.map]
    | ok r =>
      rw [Except.map, Except.map, Except.ok.injEq, Except.ok.injEq]
      exact r.one?_eq_some_iff e

end LiveGraph
