import Kryfo.Library.Bytes

/-!
# Base64

What a text in the standard alphabet, with its padding, stands for.  Line breaks in
it are passed over.
-/

namespace Kryfo.Library

def base64Val (c : Char) : Option Nat :=
  if 'A' ≤ c ∧ c ≤ 'Z' then some (c.toNat - 65)
  else if 'a' ≤ c ∧ c ≤ 'z' then some (c.toNat - 71)
  else if '0' ≤ c ∧ c ≤ '9' then some (c.toNat + 4)
  else if c = '+' then some 62
  else if c = '/' then some 63
  else none

/-- Four characters at a time, the last four with up to two of padding. -/
def base64Groups : List Char → Option Bytes
  | [] => some []
  | [a, b, '=', '='] =>
    match base64Val a, base64Val b with
    | some x, some y => some [UInt8.ofNat (x * 4 + y / 16)]
    | _, _ => none
  | [a, b, c, '='] =>
    match base64Val a, base64Val b, base64Val c with
    | some x, some y, some z =>
      some [UInt8.ofNat (x * 4 + y / 16), UInt8.ofNat (y % 16 * 16 + z / 4)]
    | _, _, _ => none
  | a :: b :: c :: d :: text =>
    match base64Val a, base64Val b, base64Val c, base64Val d, base64Groups text with
    | some x, some y, some z, some w, some rest =>
      some (UInt8.ofNat (x * 4 + y / 16) :: UInt8.ofNat (y % 16 * 16 + z / 4) ::
        UInt8.ofNat (z % 4 * 64 + w) :: rest)
    | _, _, _, _, _ => none
  | _ => none

def base64Decode (text : List Char) : Option Bytes :=
  base64Groups (text.filter fun c => c ≠ '\r' && c ≠ '\n')

example : base64Decode "AgAA\nAw==".toList = some [2, 0, 0, 3] := by decide

end Kryfo.Library
