import Kryfo.Library.Bytes
import Mathlib.Data.List.GetD

/-!
# Numbers with the least significant byte first
-/

namespace Kryfo.Library

open List

def le16 (n : Nat) : Bytes := [UInt8.ofNat n, UInt8.ofNat (n / 2 ^ 8)]

def le32 (n : Nat) : Bytes :=
  [UInt8.ofNat n, UInt8.ofNat (n / 2 ^ 8), UInt8.ofNat (n / 2 ^ 16), UInt8.ofNat (n / 2 ^ 24)]

def read16 (b : Bytes) : Nat := (b.getD 0 0).toNat + (b.getD 1 0).toNat * 2 ^ 8

@[irreducible] def read32 (b : Bytes) : Nat :=
  (b.getD 0 0).toNat + (b.getD 1 0).toNat * 2 ^ 8 + (b.getD 2 0).toNat * 2 ^ 16 +
    (b.getD 3 0).toNat * 2 ^ 24

theorem read16_le16 {n : Nat} (small : n < 2 ^ 16) (rest : Bytes) : read16 (le16 n ++ rest) = n := by
  simp only [read16, le16, cons_append, getD_cons_zero, getD_cons_succ, UInt8.toNat_ofNat']
  omega

theorem read32_le32 (n : Nat) (rest : Bytes) : read32 (le32 n ++ rest) = n % 2 ^ 32 := by
  simp only [read32, le32, cons_append, getD_cons_zero, getD_cons_succ, UInt8.toNat_ofNat']
  omega

theorem read32_append {a : Bytes} (long : 4 ≤ a.length) (b : Bytes) :
    read32 (a ++ b) = read32 a := by
  simp only [read32]
  rw [getD_append _ _ _ _ (by omega), getD_append _ _ _ _ (by omega),
    getD_append _ _ _ _ (by omega), getD_append _ _ _ _ (by omega)]

theorem read32_lt (b : Bytes) : read32 b < 2 ^ 32 := by
  have h0 := (b.getD 0 0).toNat_lt
  have h1 := (b.getD 1 0).toNat_lt
  have h2 := (b.getD 2 0).toNat_lt
  have h3 := (b.getD 3 0).toNat_lt
  simp only [read32]
  omega

theorem le32_read32 {b : Bytes} (four : b.length = 4) : le32 (read32 b) = b := by
  match b, four with
  | [b0, b1, b2, b3], _ =>
    have value : read32 [b0, b1, b2, b3] = u32 [b3, b2, b1, b0] := by
      simp only [read32, u32, u16, getD_cons_zero, getD_cons_succ]
      omega
    have turned := congrArg List.reverse (be32_u32 (b := [b3, b2, b1, b0]) rfl)
    rwa [← value] at turned

end Kryfo.Library
