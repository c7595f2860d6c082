import Mathlib.Data.List.GetD

/-!
# Lists written over in place

A stretch of a list is written over by a list of the same length.
-/

namespace Kryfo.Library

variable {α : Type*}

/-- The list with `data` written over it from `pos` on. -/
def patch (b : List α) (pos : Nat) (data : List α) : List α :=
  b.take pos ++ data ++ b.drop (pos + data.length)

variable {data : List α}

theorem patch_append (before old after : List α) (sameLength : data.length = old.length) :
    patch (before ++ old ++ after) before.length data = before ++ data ++ after := by
  have first : (before ++ old ++ after).take before.length = before := by
    rw [List.append_assoc, List.take_left]
  have last : (before ++ old ++ after).drop (before.length + data.length) = after := by
    rw [sameLength, ← List.length_append, List.drop_left]
  rw [patch, first, last]

end Kryfo.Library
