import Kryfo.Library.Bytes
import Kryfo.Library.Text

/-!
# Byte strings in hexadecimal

Two digits for each byte, and what a text of digits stands for.
-/

namespace Kryfo.Library

def hexText (b : Bytes) : List Char := b.flatMap fun x => hexOf 2 x.toNat

/-- None for an odd length or a character that is no digit. -/
def unhexText : List Char → Option Bytes
  | [] => some []
  | [_] => none
  | high :: low :: text =>
    match hexVal high, hexVal low, unhexText text with
    | some h, some l, some rest => some (UInt8.ofNat (h * 16 + l) :: rest)
    | _, _, _ => none

theorem unhexText_hexOf_append (x : UInt8) (text : List Char) :
    unhexText (hexOf 2 x.toNat ++ text) = (unhexText text).map (x :: ·) := by
  have small := x.toNat_lt
  have high : hexVal (Nat.digitChar (x.toNat / 16 % 16)) = some (x.toNat / 16 % 16) :=
    hexVal_digitChar (Nat.mod_lt _ (by decide))
  have low : hexVal (Nat.digitChar (x.toNat % 16)) = some (x.toNat % 16) :=
    hexVal_digitChar (Nat.mod_lt _ (by decide))
  have whole : x.toNat / 16 % 16 * 16 + x.toNat % 16 = x.toNat := by omega
  have split : hexOf 2 x.toNat ++ text =
      Nat.digitChar (x.toNat / 16 % 16) :: Nat.digitChar (x.toNat % 16) :: text := rfl
  rw [split, unhexText, high, low]
  cases unhexText text with
  | none => rfl
  | some rest => simp only [whole, UInt8.ofNat_toNat, Option.map_some]

@[simp] theorem unhexText_hexText (b : Bytes) : unhexText (hexText b) = some b := by
  induction b with
  | nil => rfl
  | cons x b ih =>
    have split : hexText (x :: b) = hexOf 2 x.toNat ++ hexText b := rfl
    rw [split, unhexText_hexOf_append, ih, Option.map_some]

end Kryfo.Library
