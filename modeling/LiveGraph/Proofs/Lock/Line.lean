import LiveGraph.Task.Lock
import Mathlib.Data.List.Basic

/-!
# The line for a lock

Who joins stands at the end of the line for his key, who leaves stands there no more, and other lines stay as
they are. The line stands at one mutex, so the lock is held by the first in it.
-/

namespace LiveGraph

namespace Claimant

variable {key : String} {claim : Nat} {c x : Claimant} {claimants : List Claimant}

theorem has_iff : c.has key claim = true ↔ c.claim = claim ∧ c.place.key = key :=
  decide_eq_true_iff

theorem line_cons : line (x :: claimants) key =
    if x.place.key = key then x.claim :: line claimants key else line claimants key := by
  rw [line, List.filter_cons]
  simp only [decide_eq_true_eq]
  split <;> rfl

theorem line_append (claimants' : List Claimant) :
    line (claimants ++ claimants') key = line claimants key ++ line claimants' key := by
  rw [line, List.filter_append, List.map_append]
  rfl

/-- Whoever came for a key with a claim stands in its line. -/
theorem mem_line_iff : claim ∈ line claimants key ↔ ∃ c ∈ claimants, c.has key claim = true := by
  rw [line, List.mem_map]
  constructor
  · rintro ⟨c, hc, hclaim⟩
    obtain ⟨hc, hkey⟩ := List.mem_filter.mp hc
    exact ⟨c, hc, has_iff.mpr ⟨hclaim, of_decide_eq_true hkey⟩⟩
  · rintro ⟨c, hc, hhas⟩
    obtain ⟨hclaim, hkey⟩ := has_iff.mp hhas
    exact ⟨c, List.mem_filter.mpr ⟨hc, decide_eq_true hkey⟩, hclaim⟩

theorem head?_line : (line claimants key).head? = (claimants.find? (·.place.key = key)).map (·.claim) := by
  rw [line, List.head?_map, List.head?_filter]

/-- The first of a claim is taken out of the line of its key, and out of no other. -/
theorem line_erase (h : claimants.find? (has key claim) = some c) (key' : String) :
    line (claimants.erase c) key' =
      if key = key' then (line claimants key).erase claim else line claimants key' := by
  induction claimants with
  | nil => exact absurd h.symm (Option.some_ne_none c)
  | cons x rest ih =>
    by_cases hx : x.has key claim = true
    · rw [List.find?_cons_of_pos hx] at h
      obtain rfl := Option.some.inj h
      obtain ⟨rfl, rfl⟩ := has_iff.mp hx
      rw [List.erase_cons_head, line_cons, line_cons, if_pos rfl, List.erase_cons_head]
      split
      · rename_i heq
        rw [heq]
      · rfl
    · rw [List.find?_cons_of_neg hx] at h
      have hne : x ≠ c := fun heq ↦ hx (heq ▸ List.find?_some (p := has key claim) h)
      rw [List.erase_cons_tail (by simpa using hne), line_cons, line_cons, line_cons, ih h]
      by_cases hkey : key = key'
      · subst hkey
        rw [if_pos rfl, if_pos rfl]
        split
        · rename_i hx'
          have hclaim : x.claim ≠ claim := fun hclaim ↦ hx (has_iff.mpr ⟨hclaim, hx'⟩)
          rw [List.erase_cons_tail (by simpa using hclaim)]
        · rfl
      · rw [if_neg hkey, if_neg hkey]

end Claimant

namespace KeyedMutex

variable (m : KeyedMutex) (key : String) (claim : Nat) (key' : String)

theorem line_join : (m.join key claim).line key' =
    if key = key' then m.line key ++ [claim] else m.line key' := by
  rw [line, join, Claimant.line_append, Claimant.line_cons]
  split
  · rename_i heq
    subst heq
    rfl
  · exact List.append_nil _

/-- Who is not there cannot leave, and then the line stays as it is. -/
theorem line_leave : (m.leave key claim).line key' =
    if key = key' then (m.line key).erase claim else m.line key' := by
  unfold leave
  split
  · rename_i hnone
    have habsent : claim ∉ m.line key := fun hmem ↦ by
      obtain ⟨c, hc, hhas⟩ := Claimant.mem_line_iff.mp hmem
      exact List.find?_eq_none.mp hnone c hc hhas
    split
    · rename_i heq
      rw [List.erase_of_not_mem habsent, heq]
    · rfl
  · rename_i c hsome
    exact Claimant.line_erase hsome key'

/-- The first at the mutex of a key is the first in the line of the key. -/
theorem isHolder_iff : m.isHolder key claim = true ↔ (m.line key).head? = some claim := by
  unfold isHolder
  split
  · rename_i hnone
    refine iff_of_false Bool.false_ne_true fun hfirst ↦ ?_
    obtain ⟨c, hc, hhas⟩ := Claimant.mem_line_iff.mp (List.mem_of_head? hfirst)
    exact List.find?_eq_none.mp hnone c hc hhas
  · rename_i c hsome
    have hc : c ∈ m.claimants := List.mem_of_find?_eq_some hsome
    obtain ⟨-, hkey⟩ := Claimant.has_iff.mp (List.find?_some (p := Claimant.has key claim) hsome)
    have hsame : m.claimants.find? (·.place.mutex = c.place.mutex) = m.claimants.find? (·.place.key = key) := by
      rw [← List.head?_filter, ← List.head?_filter]
      refine congrArg List.head? (List.filter_congr fun x hx ↦ decide_eq_decide.mpr ?_)
      rw [← hkey]
      exact m.suits.mutex_eq_iff (List.mem_map_of_mem hx) (List.mem_map_of_mem hc)
    rw [hsame, line, Claimant.head?_line]
    exact decide_eq_true_iff

end KeyedMutex

end LiveGraph
