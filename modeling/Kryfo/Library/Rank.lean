import Mathlib

/-!
# The `k`-th largest of a list

A value is the `k`-th largest when fewer than `k` are larger and at least `k` are as large.  More
values can only raise it, and values no larger than it can be left out.
-/

namespace Kryfo.Library

open List

variable {α : Type*} [LinearOrder α] {k : Nat} {xs ys : List α} {v w : α}

structure IsKth (k : Nat) (xs : List α) (v : α) : Prop where
  above : xs.countP (fun x => decide (v < x)) < k
  atLeast : k ≤ xs.countP fun x => decide (v ≤ x)

namespace IsKth

theorem perm (isKth : IsKth k xs v) (perm : xs.Perm ys) : IsKth k ys v := by
  obtain ⟨above, atLeast⟩ := isKth
  rw [perm.countP_eq] at above atLeast
  exact ⟨above, atLeast⟩

theorem le_of_append (isKth : IsKth k xs v) (isKth' : IsKth k (xs ++ ys) w) : v ≤ w := by
  by_contra lower
  have fewer : xs.countP (fun x => decide (v ≤ x)) ≤ xs.countP fun x => decide (w < x) := by
    apply countP_mono_left
    intro x _ large
    exact decide_eq_true (lt_of_lt_of_le (not_le.mp lower) (of_decide_eq_true large))
  have above := isKth'.above
  rw [countP_append] at above
  have atLeast := isKth.atLeast
  omega

theorem unique (isKth : IsKth k xs v) (isKth' : IsKth k xs w) : v = w := by
  have self : ∀ {u : α}, IsKth k xs u → IsKth k (xs ++ []) u := by
    intro u isKth
    rw [append_nil]
    exact isKth
  exact le_antisymm (isKth.le_of_append (self isKth')) (isKth'.le_of_append (self isKth))

theorem append_low (isKth : IsKth k xs v) (low : ∀ y ∈ ys, y ≤ v) : IsKth k (xs ++ ys) v := by
  have none' : ys.countP (fun x => decide (v < x)) = 0 := by
    rw [countP_eq_zero]
    intro y inside larger
    exact absurd (low y inside) (not_le.mpr (of_decide_eq_true larger))
  refine ⟨?_, ?_⟩
  · rw [countP_append, none']
    exact isKth.above
  · rw [countP_append]
    exact le_trans isKth.atLeast (Nat.le_add_right _ _)

theorem filter_le (isKth : IsKth k xs v) : IsKth k (xs.filter fun x => decide (v ≤ x)) v := by
  refine ⟨lt_of_le_of_lt ?_ isKth.above, ?_⟩
  · exact filter_sublist.countP_le
  · rw [countP_filter]
    refine le_trans isKth.atLeast (le_of_eq (countP_congr ?_))
    simp

end IsKth

end Kryfo.Library
