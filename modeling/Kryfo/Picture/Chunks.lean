import Kryfo.Library.Bytes
import Kryfo.Library.Cutter
import Mathlib.Data.List.GetD

/-!
# Pictures made of chunks

A picture is a head and chunks up to a last one.  Some of the chunks are kept, and what follows
the last one is left out.
-/

namespace Kryfo.Picture

open Library List

def latin1 (s : String) : Bytes := s.toList.map fun c => UInt8.ofNat c.toNat

/-- The four bytes at a position that name a chunk or a box. -/
def tag (b : Bytes) (i : Nat) : Bytes := (b.drop i).take 4

theorem u32_append {a : Bytes} (long : 4 ≤ a.length) (b : Bytes) : u32 (a ++ b) = u32 a := by
  simp only [u32, u16]
  rw [getD_append _ _ _ _ (by omega), getD_append _ _ _ _ (by omega),
    getD_append _ _ _ _ (by omega), getD_append _ _ _ _ (by omega)]

section

variable (k : Cutter UInt8) (last keeps : Bytes → Bool)

/-- The picture with the chunks that are kept, and the picture itself where all of it is. -/
def keepChunks (head : Nat) (src : Bytes) : Option Bytes :=
  match k.cut last (src.drop head) with
  | none => none
  | some (chunks, rest) =>
    if chunks.any (!keeps ·) || rest != [] then
      some (src.take head ++ (chunks.filter keeps).flatten)
    else some src

variable {k last keeps}

theorem keepChunks_of_cut {head : Nat} {src : Bytes} {chunks : List Bytes} {rest : Bytes}
    (isCut : k.cut last (src.drop head) = some (chunks, rest)) :
    keepChunks k last keeps head src = some (src.take head ++ (chunks.filter keeps).flatten) := by
  rw [keepChunks, isCut]
  dsimp only
  split
  next => rfl
  next nothing =>
    rw [Bool.or_eq_true, not_or, any_eq_true] at nothing
    obtain ⟨all, none'⟩ := nothing
    have noRest : rest = [] := by simpa using none'
    have filtered : chunks.filter keeps = chunks := by
      rw [filter_eq_self]
      intro c inside
      by_contra out
      exact all ⟨c, inside, by simpa using out⟩
    have eq := (Cutter.chain_of_cut isCut).2
    rw [noRest, append_nil] at eq
    rw [filtered, ← eq, take_append_drop]

theorem keepChunks_eq_some {head : Nat} {src out : Bytes}
    (made : keepChunks k last keeps head src = some out) :
    ∃ chunks rest, k.Chain last chunks ∧ src.drop head = chunks.flatten ++ rest ∧
      out = src.take head ++ (chunks.filter keeps).flatten := by
  cases isCut : k.cut last (src.drop head) with
  | none =>
    rw [keepChunks, isCut] at made
    cases made
  | some found =>
    obtain ⟨chunks, rest⟩ := found
    rw [keepChunks_of_cut isCut] at made
    cases made
    obtain ⟨chain, eq⟩ := Cutter.chain_of_cut isCut
    exact ⟨chunks, rest, chain, eq, rfl⟩

theorem keepChunks_again (keepsLast : ∀ chunk, last chunk = true → keeps chunk = true)
    {chunks : List Bytes} (chain : k.Chain last chunks) (head : Bytes) :
    keepChunks k last keeps head.length (head ++ (chunks.filter keeps).flatten) =
      some (head ++ (chunks.filter keeps).flatten) := by
  have isCut : k.cut last ((head ++ (chunks.filter keeps).flatten).drop head.length) =
      some (chunks.filter keeps, []) := by
    rw [drop_left, ← append_nil (List.flatten _)]
    exact Cutter.cut_flatten (chain.filter keepsLast) []
  rw [keepChunks_of_cut isCut, take_left, filter_filter]
  simp only [Bool.and_self]

end

end Kryfo.Picture
