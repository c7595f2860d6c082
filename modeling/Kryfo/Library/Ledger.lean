import Mathlib.Data.List.Count

/-!
# A ledger of what is owned

Of each key it is counted how often it is owed and how often it waits for a last entry after it has
been given up.  A ledger is sound when each key is counted once at most and the owned keys are the
owed ones.
-/

namespace Kryfo.Library

variable {κ : Type*}

structure Ledger (owned : κ → Prop) (owed waiting : κ → Nat) : Prop where
  once : ∀ k, owed k + waiting k ≤ 1
  owned_iff : ∀ k, owned k ↔ 0 < owed k

namespace Ledger

variable {owned owned' : κ → Prop} {owed owed' waiting waiting' : κ → Nat}

/-- A key nobody owns, and that does not wait, may be taken. -/
theorem take [BEq κ] [LawfulBEq κ] (ledger : Ledger owned owed waiting) {key : κ}
    (unowned : ¬ owned key) (quiet : waiting key = 0)
    (owed_eq : ∀ k, owed' k = owed k + [key].count k)
    (waiting_eq : ∀ k, waiting' k = waiting k)
    (owned_eq : ∀ k, owned' k ↔ owned k ∨ k = key) : Ledger owned' owed' waiting' where
  once k := by
    have before := ledger.once k
    rw [owed_eq, waiting_eq]
    by_cases same : key = k
    · subst same
      have notOwed : owed key = 0 := by
        have := (ledger.owned_iff key).not.mp unowned
        omega
      simp [notOwed, quiet]
    · simpa [same] using before
  owned_iff k := by
    rw [owned_eq, owed_eq, ledger.owned_iff]
    by_cases same : key = k
    · simp [same]
    · simp [same, Ne.symm same]

/-- Owed keys may go, some of them to wait, and waiting keys may be settled. -/
theorem settle [BEq κ] [LawfulBEq κ] (ledger : Ledger owned owed waiting)
    {out refused settled : List κ}
    (owed_eq : ∀ k, owed k = owed' k + out.count k)
    (waiting_eq : ∀ k, waiting k + refused.count k = waiting' k + settled.count k)
    (part : ∀ k, refused.count k ≤ out.count k)
    (owned_eq : ∀ k, owned' k ↔ owned k ∧ k ∉ out ∧ k ∉ settled) :
    Ledger owned' owed' waiting' where
  once k := by
    have := ledger.once k
    have := owed_eq k
    have := waiting_eq k
    have := part k
    omega
  owned_iff k := by
    have := ledger.once k
    have := owed_eq k
    have := waiting_eq k
    have := part k
    rw [owned_eq, ledger.owned_iff, ← List.count_eq_zero, ← List.count_eq_zero]
    omega

end Ledger

end Kryfo.Library
