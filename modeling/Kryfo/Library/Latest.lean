import Mathlib.Data.Set.Insert

/-!
# A register that holds what was written last

A write carries its time, and one older than the write held is left out.  In whatever order
writes come, and however often, the register holds the one written last.
-/

namespace Kryfo.Library

structure Latest (τ β : Type*) where
  stamp : Option τ
  value : β

namespace Latest

variable {τ β : Type*} [LinearOrder τ] {own v : β} {taken : Set (τ × β)} {r : Latest τ β} {w : τ}

def put (r : Latest τ β) (w : τ) (v : β) : Latest τ β :=
  if r.stamp.any (w < ·) then r else ⟨some w, v⟩

theorem put_of_older (older : r.stamp.any (w < ·)) : r.put w v = r := if_pos older

theorem put_of_not_older (newer : ¬ r.stamp.any (w < ·)) : r.put w v = ⟨some w, v⟩ := if_neg newer

/-- The register holds the last of some writes, or its own value when there are none. -/
inductive Holds (own : β) (taken : Set (τ × β)) : Latest τ β → Prop
  | own (empty : taken = ∅) : Holds own taken ⟨none, own⟩
  | last {w : τ} {v : β} (isTaken : (w, v) ∈ taken) (most : ∀ x ∈ taken, x.1 ≤ w) :
      Holds own taken ⟨some w, v⟩

theorem Holds.put (holds : Holds own taken r) (w : τ) (v : β) :
    Holds own (insert (w, v) taken) (r.put w v) := by
  cases holds with
  | own empty =>
    subst empty
    exact .last (Set.mem_insert _ _) (by simp)
  | @last held value isTaken most =>
    by_cases older : w < held
    · rw [put_of_older (by simpa using older)]
      refine .last (Set.mem_insert_of_mem _ isTaken) ?_
      rintro x (rfl | inside)
      · exact older.le
      · exact most x inside
    · rw [put_of_not_older (by simpa using older)]
      refine .last (Set.mem_insert _ _) ?_
      rintro x (rfl | inside)
      · exact le_rfl
      · exact (most x inside).trans (not_lt.mp older)

/-- Where writes of one time say the same, the register holds what the last of them says. -/
theorem Holds.eq_of_last (holds : Holds own taken r)
    (agree : ∀ x ∈ taken, ∀ y ∈ taken, x.1 = y.1 → x.2 = y.2) (isTaken : (w, v) ∈ taken)
    (most : ∀ x ∈ taken, x.1 ≤ w) : r.value = v := by
  cases holds with
  | own empty =>
    rw [empty] at isTaken
    exact isTaken.elim
  | last isHeld mostHeld =>
    exact agree _ isHeld _ isTaken (le_antisymm (most _ isHeld) (mostHeld _ isTaken))

theorem Holds.eq_own (holds : Holds own taken r) (empty : taken = ∅) : r.value = own := by
  cases holds with
  | own empty => rfl
  | last isTaken most =>
    rw [empty] at isTaken
    exact isTaken.elim

end Latest

end Kryfo.Library
