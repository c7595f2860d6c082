import Kryfo.Library.Text
import Mathlib.Data.BitVec

/-!
# Events of the relay protocol

A stamp is an integer number of seconds and an event is named by thirty-two bytes.  The content
enters only where a wrap is opened.
-/

namespace Kryfo

/-- `nostr.ID`: thirty-two bytes, the first byte the most significant. -/
abbrev ID := BitVec 256

def hex (id : ID) : List Char := Library.hexOf 64 id.toNat

@[simp] theorem length_hex (id : ID) : (hex id).length = 64 := Library.length_hexOf ..

@[simp] theorem unhex_hex (id : ID) : Library.unhex (hex id) = some id.toNat := by
  rw [hex, Library.unhex_hexOf, Nat.mod_eq_of_lt]
  exact lt_of_lt_of_eq id.isLt (by norm_num)

structure Event where
  id : ID
  createdAt : Int
deriving DecidableEq, Repr

end Kryfo
