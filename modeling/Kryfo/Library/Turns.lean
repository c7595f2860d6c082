import Mathlib.Algebra.Order.BigOperators.Group.Finset
import Mathlib.Algebra.BigOperators.Group.Finset.Piecewise
import Mathlib.Tactic.Ring
import Mathlib.Tactic.Linarith

/-!
# Weighted turns

Everyone who asks is paid their weight, and the one who then has most gets the turn and pays all
that was paid out.  Any `s` of `n` together have at most `s * (n - s) / 2` times the total weight:
when one outside them gets the turn, those of them who asked have no more each than that one.
-/

namespace Kryfo.Turns

open Finset

variable {ι : Type*} [DecidableEq ι]

structure Turn (weight credit credit' : ι → ℤ) (asking : Finset ι) (best : ι) : Prop where
  asks : best ∈ asking
  most : ∀ i ∈ asking, credit i + weight i ≤ credit best + weight best
  pays : ∀ i, credit' i = credit i + (if i ∈ asking then weight i else 0) -
    if i = best then ∑ j ∈ asking, weight j else 0

section Sum

variable {weight credit credit' : ι → ℤ} {asking s : Finset ι} {best i : ι}

theorem Turn.sum_eq (turn : Turn weight credit credit' asking best) (s : Finset ι) :
    ∑ i ∈ s, credit' i = ∑ i ∈ s, credit i + ∑ i ∈ s ∩ asking, weight i -
      if best ∈ s then ∑ j ∈ asking, weight j else 0 := by
  simp only [turn.pays, sum_sub_distrib, sum_add_distrib, sum_ite_mem, sum_ite_eq']

theorem Turn.credit_eq_of_ne (turn : Turn weight credit credit' asking best) (asks : i ∈ asking)
    (waits : best ≠ i) : credit' i = credit i + weight i := by
  rw [turn.pays, if_pos asks, if_neg waits.symm, sub_zero]

variable [Fintype ι]

structure Balanced (weight credit : ι → ℤ) : Prop where
  zero : ∑ i, credit i = 0
  group : ∀ s : Finset ι, 2 * ∑ i ∈ s, credit i ≤ s.card * (Fintype.card ι - s.card) * ∑ i, weight i

omit [DecidableEq ι] in
theorem balanced_zero (nonneg : ∀ i, 0 ≤ weight i) : Balanced weight 0 where
  zero := by simp
  group s := by
    have few : (s.card : ℤ) ≤ Fintype.card ι := by exact_mod_cast card_le_univ s
    simpa using mul_nonneg (mul_nonneg (by simp) (sub_nonneg.mpr few))
      (sum_nonneg fun i _ => nonneg i)

/-- A group is still bounded when one outside it gets the turn. -/
theorem Turn.group_of_notMem (turn : Turn weight credit credit' asking best)
    (nonneg : ∀ i, 0 ≤ weight i) (balanced : Balanced weight credit) (outside : best ∉ s) :
    2 * ∑ i ∈ s, credit' i ≤ s.card * (Fintype.card ι - s.card) * ∑ i, weight i := by
  have most : ∑ i ∈ s ∩ asking, (credit i + weight i) ≤
      (s ∩ asking).card * (credit best + weight best) := by
    exact sum_le_card_nsmul _ _ _ fun i isIn => turn.most i (mem_inter.mp isIn).2
  have withBest := balanced.group (insert best s)
  have rest := balanced.group (s \ asking)
  have paid : ∑ i ∈ s ∩ asking, weight i + weight best ≤ ∑ i, weight i := by
    rw [add_comm, ← sum_insert fun isIn => outside (mem_inter.mp isIn).1]
    exact sum_le_univ_sum_of_nonneg nonneg
  have parts := sum_inter_add_sum_sdiff s asking credit
  have sizes : ((s ∩ asking).card : ℤ) + (s \ asking).card = s.card := by
    exact_mod_cast card_inter_add_card_sdiff s asking
  rw [sum_insert outside, card_insert_of_notMem outside] at withBest
  rw [sum_add_distrib] at most
  rw [turn.sum_eq, if_neg outside, sub_zero]
  have grown : ((s ∩ asking).card + 1) *
        (2 * (∑ i ∈ s, credit i + ∑ i ∈ s ∩ asking, weight i)) ≤
      ((s ∩ asking).card + 1) * (s.card * (Fintype.card ι - s.card) * ∑ i, weight i) := by
    have few : (0 : ℤ) ≤ (s ∩ asking).card := by positivity
    have twice := mul_le_mul_of_nonneg_left withBest few
    have given := mul_le_mul_of_nonneg_left paid few
    have gap : (0 : ℤ) ≤ (s ∩ asking).card * ((s ∩ asking).card - 1) * ∑ i, weight i := by
      refine mul_nonneg ?_ (sum_nonneg fun i _ => nonneg i)
      obtain none | some := Nat.eq_zero_or_pos (s ∩ asking).card
      · simp [none]
      · exact mul_nonneg few (by omega)
    rw [eq_sub_of_add_eq' sizes] at rest
    push_cast at twice
    linarith
  exact le_of_mul_le_mul_left grown (by positivity)

theorem Turn.balanced (turn : Turn weight credit credit' asking best)
    (nonneg : ∀ i, 0 ≤ weight i) (balanced : Balanced weight credit) : Balanced weight credit' where
  zero := by
    simp [turn.sum_eq, balanced.zero]
  group s := by
    by_cases isIn : best ∈ s
    · have part := sum_le_sum_of_subset_of_nonneg (inter_subset_right : s ∩ asking ⊆ asking)
        fun i _ _ => nonneg i
      rw [turn.sum_eq, if_pos isIn]
      exact le_trans (by omega) (balanced.group s)
    · exact turn.group_of_notMem nonneg balanced isIn

theorem Balanced.two_mul_abs_le (balanced : Balanced weight credit) (i : ι) :
    2 * |credit i| ≤ (Fintype.card ι - 1) * ∑ j, weight j := by
  have one := balanced.group {i}
  have others := balanced.group {i}ᶜ
  have parts := sum_add_sum_compl {i} credit
  rw [card_compl, card_singleton, Nat.cast_pred (Fintype.card_pos_iff.mpr ⟨i⟩)] at others
  rw [balanced.zero, sum_singleton] at parts
  rw [card_singleton, sum_singleton] at one
  obtain ⟨same, -⟩ | ⟨same, -⟩ := abs_cases (credit i) <;> rw [same] <;> push_cast at one <;> linarith

end Sum

/-- Who asks at enough rounds in a row gets a turn among them. -/
theorem Balanced.exists_turn [Fintype ι] {weight : ι → ℤ} {credit : ℕ → ι → ℤ}
    {asking : ℕ → Finset ι} {best : ℕ → ι} {rounds : ℕ} {i : ι} (nonneg : ∀ i, 0 ≤ weight i)
    (balanced : Balanced weight (credit 0))
    (turns : ∀ k < rounds, Turn weight (credit k) (credit (k + 1)) (asking k) (best k))
    (asks : ∀ k < rounds, i ∈ asking k)
    (enough : (Fintype.card ι - 1) * ∑ j, weight j < rounds * weight i) :
    ∃ k < rounds, best k = i := by
  by_contra never
  push Not at never
  have waited (k : ℕ) (within : k ≤ rounds) :
      Balanced weight (credit k) ∧ credit k i = credit 0 i + k * weight i := by
    induction k with
    | zero => exact ⟨balanced, by simp⟩
    | succ k induction =>
      obtain ⟨before, grown⟩ := induction (by omega)
      refine ⟨(turns k within).balanced nonneg before, ?_⟩
      rw [(turns k within).credit_eq_of_ne (asks k within) (never k within), grown]
      push_cast
      ring
  obtain ⟨after, grown⟩ := waited rounds le_rfl
  have first := balanced.two_mul_abs_le i
  have last := after.two_mul_abs_le i
  rw [grown] at last
  have lower := neg_abs_le (credit 0 i)
  have upper := le_abs_self (credit 0 i + rounds * weight i)
  linarith

end Kryfo.Turns
