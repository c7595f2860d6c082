import Kryfo.Library.Bytes
import Mathlib.Data.Nat.Log

/-!
# Padded rows

A row is sealed at the size of its bucket: a header with the length, the bytes, and zeros.  A row
sealed before that has no header, and both are read by one function.
-/

namespace Kryfo.Vault

open Library List

def vaultPadMagic : Bytes := [0, 0x4B, 0x56, 0x31]

def vaultPadHead : Nat := 8

def vaultPadMin : Nat := 1024

def vaultPadStep : Nat := 65536

/-- The loop of `vaultBucket`, from `b` on. -/
def doubled (n b : Nat) (positive : 0 < b) : Nat :=
  if b < n ∧ b < vaultPadStep then doubled n (2 * b) (by omega) else b
termination_by vaultPadStep - b

def vaultBucket (n : Nat) : Nat :=
  let b := doubled n vaultPadMin (by decide)
  if n ≤ b then b else (n + vaultPadStep - 1) / vaultPadStep * vaultPadStep

def vaultPad (plain : Bytes) : Bytes :=
  let size := vaultPadHead + plain.length
  vaultPadMagic ++ be32 plain.length ++ plain ++ List.replicate (vaultBucket size - size) 0

def vaultUnpad (b : Bytes) : Bytes :=
  if b.length < vaultPadHead ∨ b.take 4 ≠ vaultPadMagic then b
  else
    let n := u32 (b.drop 4)
    if b.length - vaultPadHead < n ∨ vaultBucket (vaultPadHead + n) ≠ b.length then b
    else if ∃ c ∈ b.drop (vaultPadHead + n), c ≠ 0 then b
    else (b.drop vaultPadHead).take n

/-! ## Buckets -/

theorem doubled_pow (n : Nat) {i : Nat} (small : i ≤ 16) :
    doubled n (2 ^ i) (Nat.two_pow_pos i) = 2 ^ max i (min 16 (Nat.clog 2 n)) := by
  induction left : 16 - i generalizing i with
  | zero =>
    obtain rfl : i = 16 := by omega
    rw [doubled, if_neg (by simp [vaultPadStep])]
    congr 1
    omega
  | succ left ih =>
    have below : 2 ^ i < vaultPadStep := Nat.pow_lt_pow_right (by decide) (by omega : i < 16)
    rw [doubled]
    split_ifs with more
    · have exponent : i < Nat.clog 2 n := (Nat.lt_clog_iff_pow_lt (by decide)).mpr more.1
      have next := @ih (i + 1) (by omega) (by omega)
      simp only [pow_succ'] at next
      rw [next]
      congr 1
      omega
    · have exponent : Nat.clog 2 n ≤ i := Nat.clog_le_of_le_pow (by omega)
      congr 1
      omega

/-- A bucket is a power of two up to the step, and a number of steps past it. -/
theorem vaultBucket_eq (n : Nat) : vaultBucket n =
    if n ≤ 2 ^ 16 then 2 ^ max 10 (Nat.clog 2 n) else (n + 65535) / 65536 * 65536 := by
  have loop := doubled_pow n (i := 10) (by decide)
  have exponent : Nat.clog 2 n ≤ 16 ↔ n ≤ 2 ^ 16 := Nat.clog_le_iff_le_pow (by decide)
  change (if n ≤ doubled n (2 ^ 10) _ then doubled n (2 ^ 10) _ else _) = _
  rw [loop]
  by_cases small : n ≤ 2 ^ 16
  · rw [if_pos small, min_eq_right (exponent.mpr small), if_pos]
    exact (Nat.le_pow_clog (by decide) n).trans (Nat.pow_le_pow_right (by decide) (le_max_right ..))
  · rw [if_neg small, min_eq_left (by omega), if_neg (by simpa using small)]
    rfl

theorem le_vaultBucket (n : Nat) : n ≤ vaultBucket n := by
  rw [vaultBucket_eq]
  split_ifs
  · exact (Nat.le_pow_clog (by decide) n).trans (Nat.pow_le_pow_right (by decide) (le_max_right ..))
  · omega

theorem pow_le_step {n : Nat} (small : n ≤ 2 ^ 16) : 2 ^ max 10 (Nat.clog 2 n) ≤ 2 ^ 16 :=
  Nat.pow_le_pow_right (by decide) (max_le (by decide) (Nat.clog_le_of_le_pow small))

theorem vaultBucket_mono : Monotone vaultBucket := by
  intro n m below
  by_cases small : m ≤ 2 ^ 16
  · rw [vaultBucket_eq, vaultBucket_eq, if_pos small, if_pos (below.trans small)]
    exact Nat.pow_le_pow_right (by decide) (max_le_max_left 10 (Nat.clog_mono_right 2 below))
  · have enough := le_vaultBucket m
    rw [vaultBucket_eq n]
    split_ifs with fits
    · have step := pow_le_step fits
      omega
    · rw [vaultBucket_eq, if_neg small]
      omega

theorem vaultBucket_vaultBucket (n : Nat) : vaultBucket (vaultBucket n) = vaultBucket n := by
  rw [vaultBucket_eq n]
  split_ifs with small
  · rw [vaultBucket_eq, if_pos (pow_le_step small), Nat.clog_pow 2 _ (by decide)]
    congr 1
    omega
  · rw [vaultBucket_eq, if_neg (by omega)]
    omega

/-! ## Rows -/

theorem length_vaultPad (plain : Bytes) :
    (vaultPad plain).length = vaultBucket (vaultPadHead + plain.length) := by
  have enough := le_vaultBucket (vaultPadHead + plain.length)
  have four : vaultPadMagic.length = 4 := rfl
  simp only [vaultPad, length_append, length_replicate, length_be32]
  simp only [vaultPadHead] at enough ⊢
  omega

theorem parts_vaultPad (plain : Bytes) :
    (vaultPad plain).take 4 = vaultPadMagic ∧
      u32 ((vaultPad plain).drop 4) = plain.length % 2 ^ 32 ∧
      (vaultPad plain).drop vaultPadHead = plain ++
        List.replicate (vaultBucket (vaultPadHead + plain.length) -
          (vaultPadHead + plain.length)) 0 := by
  refine ⟨rfl, ?_, rfl⟩
  rw [← u32_be32]
  rfl

theorem vaultUnpad_vaultPad {plain : Bytes} (short : plain.length < 2 ^ 32) :
    vaultUnpad (vaultPad plain) = plain := by
  obtain ⟨magic, told, rest⟩ := parts_vaultPad plain
  have enough := le_vaultBucket (vaultPadHead + plain.length)
  rw [Nat.mod_eq_of_lt short] at told
  have zeros : ¬∃ c ∈ (vaultPad plain).drop (vaultPadHead + plain.length), c ≠ 0 := by
    rw [← drop_drop, rest]
    simp +contextual
  rw [vaultUnpad, if_neg, told]
  · rw [if_neg, if_neg zeros, rest, take_left]
    rw [length_vaultPad]
    omega
  · rw [length_vaultPad]
    simp only [magic, ne_eq, not_true_eq_false, or_false]
    omega

/-- A row past four gigabytes has a length in its header that is not its own. -/
theorem vaultUnpad_vaultPad_of_ne {plain : Bytes}
    (other : vaultBucket (vaultPadHead + plain.length % 2 ^ 32) ≠
      vaultBucket (vaultPadHead + plain.length)) :
    vaultUnpad (vaultPad plain) = vaultPad plain := by
  obtain ⟨magic, told, -⟩ := parts_vaultPad plain
  rw [vaultUnpad, told, length_vaultPad]
  rw [if_pos (Or.inr other), ite_self]

theorem be32_u32_eq_take {b : Bytes} (long : 4 ≤ b.length) : be32 (u32 b) = b.take 4 := by
  have same : u32 (b.take 4) = u32 b := by simp [u32, u16, getD_eq_getElem?_getD]
  rw [← same, be32_u32 (by simpa using long)]

/-- What is not read as it stands is what the bytes read from it are padded to. -/
theorem vaultUnpad_cases (b : Bytes) : vaultUnpad b = b ∨ b = vaultPad (vaultUnpad b) := by
  unfold vaultUnpad
  dsimp only
  generalize told : u32 (b.drop 4) = n
  split_ifs with plain odd filled
  · exact .inl rfl
  · exact .inl rfl
  · exact .inl rfl
  right
  rw [not_or, not_not, not_lt] at plain odd
  have head : be32 n = (b.drop 4).take 4 := by
    rw [← told]
    refine be32_u32_eq_take ?_
    have long : 8 ≤ b.length := plain.1
    simp only [length_drop]
    omega
  have body : ((b.drop vaultPadHead).take n).length = n := by
    rw [length_take, length_drop]
    exact min_eq_left odd.1
  have zeros : b.drop (vaultPadHead + n) = List.replicate (b.length - (vaultPadHead + n)) 0 := by
    refine eq_replicate_iff.mpr ⟨length_drop, fun c inside => ?_⟩
    by_contra other
    exact filled ⟨c, inside, other⟩
  simp only [vaultPad]
  rw [body, odd.2, ← zeros, ← plain.2, head, append_assoc, ← drop_drop,
    take_append_drop, append_assoc]
  have eight : b.drop vaultPadHead = (b.drop 4).drop 4 := by rw [drop_drop]; rfl
  rw [eight, take_append_drop, take_append_drop]

/-- The header holds a length below four gigabytes; short of that what was padded is read
back, and whatever the row, nothing is read from it that it was not padded from. -/
theorem padding_unambiguous :
    (∀ p : Bytes, p.length < 2 ^ 32 → vaultUnpad (vaultPad p) = p) ∧
      (∀ b, vaultUnpad b = b ∨ b = vaultPad (vaultUnpad b)) ∧
      (∀ n, n ≤ vaultBucket n) ∧ Monotone vaultBucket ∧
      (∀ n, vaultBucket (vaultBucket n) = vaultBucket n) ∧
      ∀ p, (vaultPad p).length = vaultBucket (vaultPadHead + p.length) :=
  ⟨fun _ => vaultUnpad_vaultPad, vaultUnpad_cases, le_vaultBucket, vaultBucket_mono,
    vaultBucket_vaultBucket, length_vaultPad⟩

theorem padding_unambiguous_twoBytes :
    [7, 9].length < 2 ^ 32 ∧ vaultUnpad (vaultPad [7, 9]) = [7, 9] :=
  ⟨by decide, padding_unambiguous.1 [7, 9] (by decide)⟩

theorem fourGigabytes_not_readBack :
    vaultUnpad (vaultPad (List.replicate (2 ^ 32) 0)) ≠ List.replicate (2 ^ 32) 0 := by
  intro same
  rw [vaultUnpad_vaultPad_of_ne] at same
  · have long := congrArg List.length same
    have enough := le_vaultBucket (vaultPadHead + 2 ^ 32)
    rw [length_vaultPad, length_replicate] at long
    simp only [vaultPadHead] at long enough
    omega
  · have enough := le_vaultBucket (vaultPadHead + 2 ^ 32)
    have least : vaultBucket (vaultPadHead + 2 ^ 32 % 2 ^ 32) = 1024 := by
      rw [vaultBucket_eq]
      decide
    rw [length_replicate]
    omega

end Kryfo.Vault
