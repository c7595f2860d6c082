import Mathlib.Data.List.Basic

/-!
# Text as UTF-16 code units

A text is a list of code units, which need not pair up.  Its runes are its code points, an
unpaired surrogate standing for itself; UTF-8 writes the replacement character for it.
-/

namespace Kryfo.Library.Utf16

abbrev Text := List UInt16

def isHigh (u : UInt16) : Bool := 0xD800 ≤ u && u ≤ 0xDBFF

def isLow (u : UInt16) : Bool := 0xDC00 ≤ u && u ≤ 0xDFFF

def pairRune (high low : UInt16) : Nat :=
  0x10000 + (high.toNat - 0xD800) * 0x400 + (low.toNat - 0xDC00)

def runes : Text → List Nat
  | [] => []
  | [u] => [u.toNat]
  | u :: v :: rest =>
    if isHigh u && isLow v then pairRune u v :: runes rest else u.toNat :: runes (v :: rest)

/-- The text does not end in the first half of a pair. -/
def EndsWhole (a : Text) : Prop := ∀ u, a.getLast? = some u → isHigh u = false

theorem runes_append {a : Text} (whole : EndsWhole a) (b : Text) :
    runes (a ++ b) = runes a ++ runes b := by
  induction a using runes.induct with
  | case1 => rfl
  | case2 u =>
    have notHigh : isHigh u = false := whole u rfl
    cases b with
    | nil => rfl
    | cons v rest =>
      show runes (u :: v :: rest) = [u.toNat] ++ runes (v :: rest)
      rw [runes, notHigh]
      rfl
  | case3 u v rest paired ih =>
    have rest' : EndsWhole rest := by
      intro w last
      exact whole w (by rw [List.getLast?_cons, List.getLast?_cons, last]; rfl)
    show runes (u :: v :: (rest ++ b)) = runes (u :: v :: rest) ++ runes b
    rw [runes, runes, if_pos paired, if_pos paired, ih rest', List.cons_append]
  | case4 u v rest unpaired ih =>
    have rest' : EndsWhole (v :: rest) := by
      intro w last
      exact whole w (by rw [List.getLast?_cons, last]; rfl)
    show runes (u :: v :: (rest ++ b)) = runes (u :: v :: rest) ++ runes b
    rw [runes, runes, if_neg unpaired, if_neg unpaired]
    exact congrArg (u.toNat :: ·) (ih rest')

/-! ## UTF-8 -/

def utf8Bytes (r : Nat) : List Nat :=
  if r < 0x80 then [r]
  else if r < 0x800 then [0xC0 + r / 64, 0x80 + r % 64]
  else if 0xD800 ≤ r ∧ r ≤ 0xDFFF then [0xEF, 0xBF, 0xBD]
  else if r < 0x10000 then [0xE0 + r / 4096, 0x80 + r / 64 % 64, 0x80 + r % 64]
  else [0xF0 + r / 262144, 0x80 + r / 4096 % 64, 0x80 + r / 64 % 64, 0x80 + r % 64]

def utf8Encode (s : Text) : List Nat := (runes s).flatMap utf8Bytes

/-- The code units of a character: two past the first plane. -/
def encode (c : Char) : Text :=
  if c.toNat < 0x10000 then [c.toNat.toUInt16]
  else [(0xD7C0 + c.toNat / 0x400).toUInt16, (0xDC00 + c.toNat % 0x400).toUInt16]

def units (s : String) : Text := s.toList.map fun c => c.toNat.toUInt16

end Kryfo.Library.Utf16
