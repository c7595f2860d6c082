import Mathlib.Data.List.Basic
import Mathlib.Tactic.Ring
import Mathlib.Tactic.NormNum

/-!
# Byte strings

Numbers, the most significant byte first, and a byte string cut into
pieces of one size.
-/

namespace Kryfo.Library

open List

abbrev Bytes := List UInt8

instance lawfulBEq_bytes : LawfulBEq (List UInt8) := inferInstance

def be32 (n : Nat) : Bytes :=
  [UInt8.ofNat (n / 2 ^ 24), UInt8.ofNat (n / 2 ^ 16), UInt8.ofNat (n / 2 ^ 8), UInt8.ofNat n]

def u16 (b : Bytes) : Nat := (b.getD 0 0).toNat * 2 ^ 8 + (b.getD 1 0).toNat

def u32 (b : Bytes) : Nat :=
  (u16 b * 2 ^ 8 + (b.getD 2 0).toNat) * 2 ^ 8 + (b.getD 3 0).toNat

@[simp] theorem length_be32 (n : Nat) : (be32 n).length = 4 := rfl

theorem u32_be32 (n : Nat) : u32 (be32 n) = n % 2 ^ 32 := by
  simp only [u32, u16, be32, getD_cons_zero, getD_cons_succ, UInt8.toNat_ofNat']
  omega

theorem be32_u32 {b : Bytes} (four : b.length = 4) : be32 (u32 b) = b := by
  match b, four with
  | [b0, b1, b2, b3], _ =>
    have h0 := b0.toNat_lt
    have h1 := b1.toNat_lt
    have h2 := b2.toNat_lt
    have h3 := b3.toNat_lt
    simp only [be32, u32, u16, getD_cons_zero, getD_cons_succ, List.cons.injEq, and_true]
    refine ⟨?_, ?_, ?_, ?_⟩
    all_goals
      apply UInt8.toNat.inj
      rw [UInt8.toNat_ofNat']
      omega

variable {α : Type*}

/-- The data cut into pieces of `size`, the last of them shorter. -/
def pieces (size : Nat) (data : List α) : List (List α) :=
  if size = 0 ∨ data = [] then []
  else data.take size :: pieces size (data.drop size)
termination_by data.length
decreasing_by
  rename_i some
  rw [not_or] at some
  have := length_pos_of_ne_nil some.2
  rw [length_drop]
  omega

theorem pieces_nil (size : Nat) : pieces size ([] : List α) = [] := by
  rw [pieces, if_pos (.inr rfl)]

theorem pieces_of_ne_nil {size : Nat} (positive : 0 < size) {data : List α} (some : data ≠ []) :
    pieces size data = data.take size :: pieces size (data.drop size) := by
  rw [pieces, if_neg]
  rintro (zero | none)
  · omega
  · exact some none

theorem length_le_of_mem_pieces {size : Nat} {data piece : List α}
    (inside : piece ∈ pieces size data) : piece.length ≤ size := by
  induction data using pieces.induct size with
  | case1 data none =>
    rw [pieces, if_pos none] at inside
    exact absurd inside not_mem_nil
  | case2 data some ih =>
    rw [pieces, if_neg some] at inside
    rcases mem_cons.mp inside with rfl | inside
    · exact length_take_le size data
    · exact ih inside

theorem length_pieces {size : Nat} (positive : 0 < size) (data : List α) :
    (pieces size data).length = (data.length + size - 1) / size := by
  induction data using pieces.induct size with
  | case1 data none =>
    have empty : data = [] := none.resolve_left (by omega)
    rw [empty, pieces_nil, length_nil, length_nil]
    exact (Nat.div_eq_of_lt (by omega)).symm
  | case2 data some ih =>
    have some := (not_or.mp some).2
    have nonempty := length_pos_of_ne_nil some
    rw [pieces_of_ne_nil positive some, length_cons, ih, length_drop]
    by_cases last : data.length ≤ size
    · have one : (data.length + size - 1) / size = 1 := by
        refine Nat.div_eq_of_lt_le ?_ ?_
        · omega
        · omega
      have none : (data.length - size + size - 1) / size = 0 := Nat.div_eq_of_lt (by omega)
      rw [one, none]
    · have split : data.length + size - 1 = data.length - size + size - 1 + size := by omega
      rw [split, Nat.add_div_right _ positive]

end Kryfo.Library
