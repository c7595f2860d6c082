import Kryfo.Library.Turns
import Mathlib.Data.Fintype.Fin
import Mathlib.Data.Fin.VecNotation

/-!
# Turns between the lanes of a push server

Real knocks to one server wait in lanes by the age of the endpoint.  An older lane gets more
turns, and the newest never none.
-/

namespace Kryfo.Knock

open Kryfo.Turns List

def knockTiers : Nat := 4

def knockTierWeight : Fin knockTiers → Int := ![1, 2, 3, 4]

/-- What `nextLane` reads and writes of a server; `EP` is the type of endpoints. -/
structure KnockDomain (EP : Type) where
  lanes : Fin knockTiers → List EP
  credit : Fin knockTiers → Int

structure Looked where
  credit : Fin knockTiers → Int
  total : Int
  best : Option (Fin knockTiers)

variable {EP : Type}

def look (lanes : Fin knockTiers → List EP) (s : Looked) (t : Fin knockTiers) : Looked :=
  if (lanes t).isEmpty then s
  else
    let credit := Function.update s.credit t (s.credit t + knockTierWeight t)
    { credit
      total := s.total + knockTierWeight t
      best := match s.best with
        | none => some t
        | some best => if credit best < credit t then some t else some best }

def nextLane (d : KnockDomain EP) : KnockDomain EP × Option (Fin knockTiers) :=
  let s := (List.finRange knockTiers).foldl (look d.lanes) ⟨d.credit, 0, none⟩
  match s.best with
  | none => ({ d with credit := s.credit }, none)
  | some best =>
    ({ d with credit := Function.update s.credit best (s.credit best - s.total) }, some best)

def asking (lanes : Fin knockTiers → List EP) : Finset (Fin knockTiers) :=
  Finset.univ.filter fun t => (lanes t).isEmpty = false

/-! ## One turn -/

structure Seen (d : KnockDomain EP) (seen : List (Fin knockTiers)) (s : Looked) : Prop where
  credit : ∀ t, s.credit t =
    d.credit t + if t ∈ seen ∧ t ∈ asking d.lanes then knockTierWeight t else 0
  total : s.total = ((seen.filter (· ∈ asking d.lanes)).map knockTierWeight).sum
  none : s.best = none → ∀ t ∈ seen, t ∉ asking d.lanes
  some : ∀ best ∈ s.best, best ∈ seen ∧ best ∈ asking d.lanes ∧
    ∀ t ∈ seen, t ∈ asking d.lanes → s.credit t ≤ s.credit best

variable {d : KnockDomain EP}

theorem mem_asking {lanes : Fin knockTiers → List EP} {t : Fin knockTiers} :
    t ∈ asking lanes ↔ (lanes t).isEmpty = false := by
  simp [asking]

theorem Seen.look {seen : List (Fin knockTiers)} {s : Looked} {t : Fin knockTiers}
    (before : Seen d seen s) (new : t ∉ seen) : Seen d (seen ++ [t]) (look d.lanes s t) := by
  obtain ⟨credit, total, none, some⟩ := before
  by_cases asks : t ∈ asking d.lanes
  · have notEmpty : ¬(d.lanes t).isEmpty = true := by simpa using mem_asking.mp asks
    rw [Knock.look, if_neg notEmpty]
    constructor
    · grind
    · simp [total, asks]
    · grind
    · grind
  · have isEmpty : (d.lanes t).isEmpty = true := by simpa using mem_asking.not.mp asks
    rw [Knock.look, if_pos isEmpty]
    constructor
    · grind
    · simp [total, asks]
    · grind
    · grind

theorem seen_foldl {seen : List (Fin knockTiers)} (nodup : seen.Nodup) :
    Seen d seen (seen.foldl (look d.lanes) ⟨d.credit, 0, none⟩) := by
  induction seen using List.reverseRecOn with
  | nil => exact ⟨by simp, by simp, by simp, by simp⟩
  | append_singleton seen t induction =>
    rw [foldl_concat]
    rw [nodup_append] at nodup
    exact (induction nodup.1).look fun again => nodup.2.2 t again t (by simp) rfl

theorem sum_asking (lanes : Fin knockTiers → List EP) :
    (((List.finRange knockTiers).filter (· ∈ asking lanes)).map knockTierWeight).sum =
      ∑ t ∈ asking lanes, knockTierWeight t := by
  rw [← sum_toFinset _ ((nodup_finRange _).filter _)]
  simp

theorem nextLane_turn {best : Fin knockTiers} (picks : (nextLane d).2 = some best) :
    Turn knockTierWeight d.credit (nextLane d).1.credit (asking d.lanes) best := by
  obtain ⟨credit, total, -, some⟩ := @seen_foldl EP d _ (nodup_finRange knockTiers)
  simp only [mem_finRange, true_and, true_imp_iff, sum_asking] at credit total some
  simp only [nextLane] at picks ⊢
  split at picks
  · cases picks
  · next isBest =>
    cases picks
    obtain ⟨asks, most⟩ := some best isBest
    refine ⟨asks, fun i isIn => ?_, fun i => ?_⟩
    · simpa [credit, isIn, asks] using most i isIn
    · split_ifs with isBest' <;> simp_all

theorem nextLane_none (picks : (nextLane d).2 = none) :
    (nextLane d).1.credit = d.credit ∧ asking d.lanes = ∅ := by
  obtain ⟨credit, -, none, -⟩ := @seen_foldl EP d _ (nodup_finRange knockTiers)
  simp only [mem_finRange, true_imp_iff] at credit none
  simp only [nextLane] at picks ⊢
  split at picks
  · next noBest =>
    have nobody := none noBest
    exact ⟨funext fun t => by simp [credit, nobody], Finset.eq_empty_of_forall_notMem nobody⟩
  · cases picks

/-! ## Every pattern of empty lanes -/

/-- The credits before the pick `k`, where the lanes hold `pattern k` at that pick. -/
def credits (pattern : ℕ → Fin knockTiers → List EP) : ℕ → Fin knockTiers → Int
  | 0 => fun _ => 0
  | k + 1 => (nextLane ⟨pattern k, credits pattern k⟩).1.credit

def picked (pattern : ℕ → Fin knockTiers → List EP) (k : ℕ) : Option (Fin knockTiers) :=
  (nextLane ⟨pattern k, credits pattern k⟩).2

theorem knockTierWeight_pos (t : Fin knockTiers) : 0 < knockTierWeight t := by
  revert t
  decide

theorem credits_balanced (pattern : ℕ → Fin knockTiers → List EP) (k : ℕ) :
    Balanced knockTierWeight (credits pattern k) := by
  have nonneg := fun t => (knockTierWeight_pos t).le
  induction k with
  | zero => exact balanced_zero nonneg
  | succ k induction =>
    cases picks : picked pattern k with
    | none =>
      rw [credits, (nextLane_none picks).1]
      exact induction
    | some best => exact (nextLane_turn picks).balanced nonneg induction

/-- The credits sum to zero and stay within fifteen, and a lane that has knocks at thirty-one
picks in a row is picked at one of them. -/
theorem lanes_fair (pattern : ℕ → Fin knockTiers → List EP) :
    (∀ k, ∑ t, credits pattern k t = 0 ∧ ∀ t, |credits pattern k t| ≤ 15) ∧
      ∀ t start, (∀ k < 31, pattern (start + k) t ≠ []) →
        ∃ k < 31, picked pattern (start + k) = some t := by
  have sum : ∑ t, knockTierWeight t = 10 := by decide
  refine ⟨fun k => ⟨(credits_balanced pattern k).zero, fun t => ?_⟩, fun t start filled => ?_⟩
  · have bound := (credits_balanced pattern k).two_mul_abs_le t
    rw [sum, Fintype.card_fin, knockTiers] at bound
    omega
  · have asks (k : ℕ) (within : k < 31) : t ∈ asking (pattern (start + k)) := by
      simpa [mem_asking] using filled k within
    have picks (k : ℕ) (within : k < 31) : ∃ best, picked pattern (start + k) = some best := by
      refine Option.isSome_iff_exists.mp (Option.isSome_iff_ne_none.mpr fun none => ?_)
      exact Finset.notMem_empty t ((nextLane_none none).2 ▸ asks k within)
    have turns (k : ℕ) (within : k < 31) : Turn knockTierWeight (credits pattern (start + k))
        (credits pattern (start + (k + 1))) (asking (pattern (start + k)))
        ((picked pattern (start + k)).getD t) := by
      obtain ⟨best, isBest⟩ := picks k within
      rw [isBest]
      exact nextLane_turn isBest
    have enough : (Fintype.card (Fin knockTiers) - 1) * ∑ t, knockTierWeight t <
        (31 : ℕ) * knockTierWeight t := by
      have := knockTierWeight_pos t
      rw [sum, Fintype.card_fin, knockTiers]
      omega
    obtain ⟨k, within, served⟩ := Balanced.exists_turn (fun t => (knockTierWeight_pos t).le)
      (credits_balanced pattern start) turns asks enough
    obtain ⟨best, isBest⟩ := picks k within
    rw [isBest] at served
    exact ⟨k, within, isBest.trans (congrArg some served)⟩

/-- All lanes always have knocks. -/
theorem lanes_fair_filled : ∃ k < 31, picked (fun _ _ => [()]) (0 + k) = some ⟨0, by decide⟩ :=
  (lanes_fair fun _ _ => [()]).2 ⟨0, by decide⟩ 0 fun _ _ => by simp

end Kryfo.Knock
