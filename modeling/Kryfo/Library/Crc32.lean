import Kryfo.Library.Bytes

/-!
# CRC-32

The checksum by its shift register, one bit at a time, and by a table, one byte at a time.
The two agree, and a checksum may be taken up again where it was left.
-/

namespace Kryfo.Library

namespace Crc32

def polynomial : BitVec 32 := 0xEDB88320#32

def shift (c : BitVec 32) : BitVec 32 :=
  if c.getLsbD 0 then polynomial ^^^ (c >>> 1) else c >>> 1

def shifts : Nat → BitVec 32 → BitVec 32
  | 0, c => c
  | n + 1, c => shifts n (shift c)

def feed (c : BitVec 32) (byte : UInt8) : BitVec 32 := shifts 8 (c ^^^ byte.toBitVec.setWidth 32)

end Crc32

open Crc32

def crc32 (data : Bytes) : BitVec 32 := data.foldl feed (BitVec.allOnes 32) ^^^ BitVec.allOnes 32

namespace Crc32

def table (n : BitVec 8) : BitVec 32 := shifts 8 (n.setWidth 32)

def feedTable (c : BitVec 32) (byte : UInt8) : BitVec 32 :=
  table ((c ^^^ byte.toBitVec.setWidth 32).setWidth 8) ^^^ (c >>> 8)

theorem shift_xor (c d : BitVec 32) : shift (c ^^^ d) = shift c ^^^ shift d := by
  unfold shift
  rw [BitVec.getLsbD_xor, BitVec.ushiftRight_xor_distrib]
  cases c.getLsbD 0 <;> cases d.getLsbD 0 <;> simp only [Bool.xor_true, Bool.xor_false,
    Bool.not_true, Bool.not_false, if_true, if_false, Bool.false_eq_true]
  · ac_rfl
  · ac_rfl
  · rw [show polynomial ^^^ c >>> 1 ^^^ (polynomial ^^^ d >>> 1) =
      (polynomial ^^^ polynomial) ^^^ (c >>> 1 ^^^ d >>> 1) by ac_rfl, BitVec.xor_self,
      BitVec.zero_xor]

theorem shifts_xor (n : Nat) (c d : BitVec 32) :
    shifts n (c ^^^ d) = shifts n c ^^^ shifts n d := by
  induction n generalizing c d with
  | zero => rfl
  | succ n ih => rw [shifts, shift_xor, ih, shifts, shifts]

theorem shifts_of_high (n : Nat) {c : BitVec 32} (high : ∀ i < n, c.getLsbD i = false) :
    shifts n c = c >>> n := by
  induction n generalizing c with
  | zero => simp [shifts]
  | succ n ih =>
    have first : shift c = c >>> 1 := by
      rw [shift, high 0 (Nat.succ_pos n)]
      rfl
    rw [shifts, first, ih, ← BitVec.shiftRight_add, add_comm]
    intro i low
    rw [BitVec.getLsbD_ushiftRight]
    exact high (1 + i) (by omega)

theorem split_byte (c : BitVec 32) : c = (c.setWidth 8).setWidth 32 ^^^ ((c >>> 8) <<< 8) := by
  refine BitVec.eq_of_getLsbD_eq fun i bound => ?_
  by_cases low : i < 8
  · simp [low, bound]
  · have back : 8 + (i - 8) = i := by omega
    simp [low, bound, back]

theorem feed_eq_feedTable (c : BitVec 32) (byte : UInt8) : feed c byte = feedTable c byte := by
  have upper : (c ^^^ byte.toBitVec.setWidth 32) >>> 8 = c >>> 8 := by
    refine BitVec.eq_of_getLsbD_eq fun i bound => ?_
    simp
  have back : ((c >>> 8) <<< 8) >>> 8 = c >>> 8 := by
    refine BitVec.eq_of_getLsbD_eq fun i bound => ?_
    by_cases inside : 8 + i < 32
    · simp [inside]
    · simp [BitVec.getLsbD_of_ge c (8 + i) (by omega)]
  have high : ∀ i < 8, ((c >>> 8) <<< 8).getLsbD i = false := by
    intro i low
    simp [low]
  rw [feed, split_byte (c ^^^ _), shifts_xor, upper, shifts_of_high 8 high, back]
  rfl

/-- The checksum over the table, taken up from an earlier one. -/
def resume (crc : BitVec 32) (data : Bytes) : BitVec 32 :=
  data.foldl feedTable (crc ^^^ BitVec.allOnes 32) ^^^ BitVec.allOnes 32

theorem resume_nil (crc : BitVec 32) : resume crc [] = crc := by
  rw [resume, List.foldl_nil, BitVec.xor_assoc, BitVec.xor_self, BitVec.xor_zero]

theorem resume_append (crc : BitVec 32) (data more : Bytes) :
    resume crc (data ++ more) = resume (resume crc data) more := by
  unfold resume
  rw [List.foldl_append, BitVec.xor_assoc (List.foldl _ _ data), BitVec.xor_self, BitVec.xor_zero]

/-- A checksum taken up block by block is that of all the blocks. -/
theorem foldl_resume (blocks : List Bytes) (crc : BitVec 32) :
    blocks.foldl resume crc = resume crc blocks.flatten := by
  induction blocks generalizing crc with
  | nil => exact (resume_nil crc).symm
  | cons block blocks ih =>
    rw [List.foldl_cons, ih, List.flatten_cons, resume_append]

theorem resume_zero (data : Bytes) : resume 0#32 data = crc32 data := by
  have same : feedTable = feed := by
    funext c byte
    exact (feed_eq_feedTable c byte).symm
  rw [resume, crc32, same, BitVec.zero_xor]

end Crc32

end Kryfo.Library
