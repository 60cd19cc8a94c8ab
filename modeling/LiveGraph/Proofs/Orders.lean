import LiveGraph.World.Basic

/-!
# The orders of values and clock keys

Both are compared by their form first and their content second, which is a linear order as far as
the contents are.
-/

namespace LiveGraph

open Std

namespace Value

theorem compare_bool (a b : Bool) : compare (bool a) (bool b) = compare a b :=
  Ordering.then_eq

theorem compare_int (a b : Int64) : compare (int a) (int b) = compare a b :=
  Ordering.then_eq

theorem compare_str (a b : String) : compare (str a) (str b) = compare a b :=
  Ordering.then_eq

instance : OrientedOrd Value where
  eq_swap {a b} := by
    cases a <;> cases b
    case bool.bool a b =>
      rw [compare_bool, compare_bool]
      exact OrientedCmp.eq_swap
    case int.int a b =>
      rw [compare_int, compare_int]
      exact OrientedCmp.eq_swap
    case str.str a b =>
      rw [compare_str, compare_str]
      exact OrientedCmp.eq_swap
    all_goals rfl

instance : TransOrd Value where
  isLE_trans {a b c} hab hbc := by
    cases a <;> cases b <;> cases c
    case bool.bool.bool a b c =>
      rw [compare_bool] at *
      exact TransCmp.isLE_trans hab hbc
    case int.int.int a b c =>
      rw [compare_int] at *
      exact TransCmp.isLE_trans hab hbc
    case str.str.str a b c =>
      rw [compare_str] at *
      exact TransCmp.isLE_trans hab hbc
    all_goals first
      | rfl
      | exact Bool.noConfusion (show false = true from hab)
      | exact Bool.noConfusion (show false = true from hbc)

instance : LawfulEqOrd Value where
  eq_of_compare {a b} h := by
    cases a <;> cases b
    case bool.bool a b => rw [LawfulEqOrd.eq_of_compare ((compare_bool a b).symm.trans h)]
    case int.int a b => rw [LawfulEqOrd.eq_of_compare ((compare_int a b).symm.trans h)]
    case str.str a b => rw [LawfulEqOrd.eq_of_compare ((compare_str a b).symm.trans h)]
    all_goals first
      | rfl
      | exact Ordering.noConfusion (show Ordering.lt = .eq from h)
      | exact Ordering.noConfusion (show Ordering.gt = .eq from h)

end Value

end LiveGraph
