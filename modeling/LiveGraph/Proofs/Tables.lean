import LiveGraph.World.Basic
import Mathlib.Algebra.GroupWithZero.Nat
import Mathlib.Data.List.Nodup

/-!
# Tables

The values of a table, a table some entries of which are replaced, and how many entries the tables in
a table have together.
-/

namespace LiveGraph.Tables

open Std

variable {α β γ : Type} [Ord α] [Ord γ]

theorem values_eq_map (m : TreeMap α β) : m.values = m.toList.map (·.2) :=
  calc
    m.values = m.foldr (fun _ v vs ↦ v :: vs) [] := rfl
    _ = m.toList.foldr (fun a vs ↦ a.2 :: vs) [] := TreeMap.foldr_eq_foldr_toList
    _ = m.toList.map (·.2) := List.map_eq_foldr.symm

/-- The keys of the tables in a table, one table after the other. -/
def innerKeys (m : TreeMap α (TreeMap γ β)) : List γ :=
  m.toList.flatMap fun (_, inner) ↦ inner.keys

theorem length_innerKeys [TransOrd γ] (m : TreeMap α (TreeMap γ β)) :
    (innerKeys m).length = (m.toList.map fun p ↦ p.2.size).sum := by
  rw [innerKeys, List.length_flatMap]
  congr 1
  exact List.map_congr_left fun p _ ↦ TreeMap.length_keys

variable [TransOrd α] [LawfulEqOrd α]

theorem mem_values (m : TreeMap α β) (v : β) : v ∈ m.values ↔ ∃ k : α, m[k]? = some v := by
  rw [values_eq_map, List.mem_map]
  constructor
  · rintro ⟨⟨k, v⟩, hmem, rfl⟩
    exact ⟨k, TreeMap.mem_toList_iff_getElem?_eq_some.mp hmem⟩
  · rintro ⟨k, hk⟩
    exact ⟨(k, v), TreeMap.mem_toList_iff_getElem?_eq_some.mpr hk, rfl⟩

/-- A table that has no value twice lists none twice. -/
theorem nodup_values (m : TreeMap α β)
    (h : ∀ (k k' : α) (v : β), m[k]? = some v → m[k']? = some v → k = k') : m.values.Nodup := by
  rw [values_eq_map, List.Nodup, List.pairwise_map]
  refine m.distinct_keys_toList.imp_of_mem fun {a b} ha hb hab heq ↦ ?_
  rw [TreeMap.mem_toList_iff_getElem?_eq_some] at ha hb
  rw [heq] at ha
  exact hab (LawfulEqOrd.compare_eq_iff_eq.mpr (h _ _ _ ha hb))

/-- What is listed for one key of a table alone. -/
theorem flatMap_toList {δ : Type} (m : TreeMap α β) (k : α) (f : α × β → List δ) (hf : ∀ p, p.1 ≠ k → f p = []) :
    m.toList.flatMap f = (m.get? k).elim [] fun v ↦ f (k, v) := by
  cases hk : m.get? k with
  | none =>
    refine List.flatMap_eq_nil_iff.mpr fun p hp ↦ hf p fun heq ↦ ?_
    rw [TreeMap.mem_toList_iff_getElem?_eq_some, heq, ← TreeMap.get?_eq_getElem?, hk] at hp
    exact Option.some_ne_none p.2 hp.symm
  | some v =>
    have hmem : (k, v) ∈ m.toList := TreeMap.mem_toList_iff_getElem?_eq_some.mpr hk
    obtain ⟨before, after, hsplit⟩ := List.append_of_mem hmem
    have hdistinct := m.distinct_keys_toList
    rw [hsplit, List.pairwise_append, List.pairwise_cons] at hdistinct
    obtain ⟨-, ⟨hafter, -⟩, hbefore⟩ := hdistinct
    have hnone : ∀ l : List (α × β), (∀ p ∈ l, p.1 ≠ k) → l.flatMap f = [] := fun l hl ↦
      List.flatMap_eq_nil_iff.mpr fun p hp ↦ hf p (hl p hp)
    rw [hsplit, List.flatMap_append, List.flatMap_cons, hnone before fun p hp heq ↦ ?_, hnone after fun p hp heq ↦ ?_]
    · exact (List.nil_append _).trans (List.append_nil _)
    · exact hafter p hp (heq ▸ ReflCmp.compare_self)
    · exact hbefore p hp (k, v) List.mem_cons_self (heq ▸ ReflCmp.compare_self)

/-- Some entries of a table as they are to be from now on. -/
def replacements (f : α → β → Option β) (entries : List (α × β)) : List (α × β) :=
  entries.filterMap fun (k, v) ↦ (f k v).map (k, ·)

omit [Ord α] [TransOrd α] [LawfulEqOrd α] in
theorem replacements_cons_none {f : α → β → Option β} {k : α} {v : β} (entries : List (α × β))
    (h : f k v = none) : replacements f ((k, v) :: entries) = replacements f entries :=
  List.filterMap_cons_none (by simp [h])

omit [Ord α] [TransOrd α] [LawfulEqOrd α] in
theorem replacements_cons_some {f : α → β → Option β} {k : α} {v v' : β} (entries : List (α × β))
    (h : f k v = some v') :
    replacements f ((k, v) :: entries) = (k, v') :: replacements f entries :=
  List.filterMap_cons_some (by simp [h])

theorem getElem?_insert_others {f : α → β → Option β} {k : α} (entries : List (α × β))
    (m : TreeMap α β) (hnone : ∀ v, (k, v) ∈ entries → f k v = none) :
    ((replacements f entries).foldl (fun m (k, v) ↦ m.insert k v) m)[k]? = m[k]? := by
  induction entries generalizing m with
  | nil => rfl
  | cons a rest ih =>
    obtain ⟨k', v⟩ := a
    have hrest := fun m ↦ ih m fun v hv ↦ hnone v (List.mem_cons_of_mem _ hv)
    cases hf : f k' v with
    | none =>
      rw [replacements_cons_none rest hf]
      exact hrest m
    | some v' =>
      rw [replacements_cons_some rest hf, List.foldl_cons]
      have hne : compare k' k ≠ .eq := fun heq ↦ by
        obtain rfl := LawfulEqOrd.compare_eq_iff_eq.mp heq
        rw [hnone v List.mem_cons_self] at hf
        exact nomatch hf
      refine (hrest (m.insert k' v')).trans ?_
      rw [TreeMap.getElem?_insert, if_neg hne]

theorem getElem?_insert_mem {f : α → β → Option β} {k : α} {v v' : β} (entries : List (α × β))
    (m : TreeMap α β) (hdistinct : entries.Pairwise fun a b ↦ ¬compare a.1 b.1 = .eq)
    (hmem : (k, v) ∈ entries) (hf : f k v = some v') :
    ((replacements f entries).foldl (fun m (k, v) ↦ m.insert k v) m)[k]? = some v' := by
  induction entries generalizing m with
  | nil => exact absurd hmem List.not_mem_nil
  | cons a rest ih =>
    obtain ⟨hhead, hrest⟩ := List.pairwise_cons.mp hdistinct
    obtain ⟨k', w⟩ := a
    rcases List.mem_cons.mp hmem with heq | hlater
    · obtain ⟨rfl, rfl⟩ := Prod.mk.inj heq
      rw [replacements_cons_some rest hf, List.foldl_cons]
      have hothers : ∀ u, (k, u) ∈ rest → f k u = none := fun u hu ↦
        absurd ReflCmp.compare_self (hhead (k, u) hu)
      exact (getElem?_insert_others rest (m.insert k v') hothers).trans TreeMap.getElem?_insert_self
    · cases hw : f k' w with
      | none =>
        rw [replacements_cons_none rest hw]
        exact ih m hrest hlater
      | some w' =>
        rw [replacements_cons_some rest hw, List.foldl_cons]
        exact ih (m.insert k' w') hrest hlater

/-- A table in which the entries that change are replaced, one after the other. -/
theorem getElem?_replace (f : α → β → Option β) (m : TreeMap α β) (k : α) :
    ((replacements f m.toList).foldl (fun m (k, v) ↦ m.insert k v) m)[k]? =
      m[k]?.map fun v ↦ (f k v).getD v := by
  cases hk : m[k]? with
  | none =>
    refine (getElem?_insert_others _ m fun v hv ↦ ?_).trans hk
    rw [TreeMap.mem_toList_iff_getElem?_eq_some, hk] at hv
    exact nomatch hv
  | some v =>
    have hmem := TreeMap.mem_toList_iff_getElem?_eq_some.mpr hk
    rw [Option.map_some]
    cases hf : f k v with
    | none =>
      refine (getElem?_insert_others _ m fun v' hv' ↦ ?_).trans hk
      rw [TreeMap.mem_toList_iff_getElem?_eq_some, hk] at hv'
      rw [← Option.some.inj hv', hf]
    | some v' => exact getElem?_insert_mem _ m m.distinct_keys_toList hmem hf

variable [TransOrd γ] [LawfulEqOrd γ]

theorem mem_innerKeys (m : TreeMap α (TreeMap γ β)) (k : γ) :
    k ∈ innerKeys m ↔ ∃ (a : α) (inner : TreeMap γ β), m[a]? = some inner ∧ k ∈ inner := by
  simp only [innerKeys, List.mem_flatMap, Prod.exists, TreeMap.mem_toList_iff_getElem?_eq_some,
    TreeMap.mem_keys]

theorem nodup_innerKeys (m : TreeMap α (TreeMap γ β))
    (h : ∀ (a a' : α) (inner inner' : TreeMap γ β) (k : γ), m[a]? = some inner →
      m[a']? = some inner' → k ∈ inner → k ∈ inner' → a = a') : (innerKeys m).Nodup := by
  rw [innerKeys, List.nodup_flatMap]
  refine ⟨fun p _ ↦ p.2.nodup_keys, ?_⟩
  refine m.distinct_keys_toList.imp_of_mem fun {p q} hp hq hpq ↦ ?_
  rw [TreeMap.mem_toList_iff_getElem?_eq_some] at hp hq
  refine List.disjoint_left.mpr fun k hkp hkq ↦ hpq (LawfulEqOrd.compare_eq_iff_eq.mpr ?_)
  exact h _ _ _ _ k hp hq (TreeMap.mem_keys.mp hkp) (TreeMap.mem_keys.mp hkq)

end LiveGraph.Tables
