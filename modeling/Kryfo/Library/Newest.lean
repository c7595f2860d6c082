import Mathlib.Data.List.Sort
import Mathlib.Data.List.Count
import Mathlib.Tactic.Linarith

/-!
# Newest-first selections of stamped items

A store that answers newest first and stops at a limit hands over a front of its items: nothing
it leaves out is newer than anything it sends.
-/

namespace Kryfo.Library

open List

variable {α : Type*}

/-- What `front` leaves out of `items` is no newer than anything in it. -/
def IsFront (stamp : α → Int) (front items : List α) : Prop :=
  ∃ rest, items.Perm (front ++ rest) ∧ ∀ f ∈ front, ∀ r ∈ rest, stamp r ≤ stamp f

/-- The `limit` newest of `items`, or all of them when there are fewer. -/
def IsNewest (stamp : α → Int) (limit : Nat) (front items : List α) : Prop :=
  IsFront stamp front items ∧ front.length = min limit items.length

variable {stamp : α → Int} {items front : List α}

theorem IsFront.subset (isFront : IsFront stamp front items) : front ⊆ items := by
  obtain ⟨rest, perm, -⟩ := isFront
  intro item member
  exact perm.mem_iff.mpr (mem_append_left rest member)

theorem IsFront.mem_of_lt (isFront : IsFront stamp front items) {item sent : α}
    (sentMem : sent ∈ front) (itemMem : item ∈ items) (newer : stamp sent < stamp item) :
    item ∈ front := by
  obtain ⟨rest, perm, older⟩ := isFront
  rcases mem_append.mp (perm.mem_iff.mp itemMem) with inFront | inRest
  · exact inFront
  · have := older sent sentMem item inRest
    omega

theorem IsNewest.older_of_not_mem {limit : Nat} (newest : IsNewest stamp limit front items)
    {item : α} (itemMem : item ∈ items) (leftOut : item ∉ front) :
    front.length = limit ∧ ∀ sent ∈ front, stamp item ≤ stamp sent := by
  obtain ⟨isFront, size⟩ := newest
  constructor
  · obtain ⟨rest, perm, -⟩ := isFront
    have inRest : item ∈ rest := by
      rcases mem_append.mp (perm.mem_iff.mp itemMem) with inFront | inRest
      · exact (leftOut inFront).elim
      · exact inRest
    have restPositive : 0 < rest.length := length_pos_of_mem inRest
    have total := perm.length_eq
    rw [length_append] at total
    omega
  · intro sent sentMem
    by_contra newer
    exact leftOut (isFront.mem_of_lt sentMem itemMem (by omega))

theorem IsNewest.mem_of_short {limit : Nat} (newest : IsNewest stamp limit front items)
    (short : front.length < limit) {item : α} (itemMem : item ∈ items) : item ∈ front := by
  by_contra leftOut
  have := (newest.older_of_not_mem itemMem leftOut).1
  omega

section Sorting

def newestFirst (stamp : α → Int) (items : List α) : List α :=
  items.insertionSort (fun first second => stamp second ≤ stamp first)

theorem newestFirst_perm (stamp : α → Int) (items : List α) :
    (newestFirst stamp items).Perm items :=
  perm_insertionSort _ items

@[simp]
theorem newestFirst_length (stamp : α → Int) (items : List α) :
    (newestFirst stamp items).length = items.length :=
  (newestFirst_perm stamp items).length_eq

theorem newestFirst_pairwise (stamp : α → Int) (items : List α) :
    (newestFirst stamp items).Pairwise
      (fun first second => stamp second ≤ stamp first) := by
  exact pairwise_insertionSort _ items

theorem isFront_take (stamp : α → Int) (items : List α) (count : Nat) :
    IsFront stamp ((newestFirst stamp items).take count) items := by
  refine ⟨(newestFirst stamp items).drop count, ?_, ?_⟩
  · rw [take_append_drop]
    exact (newestFirst_perm stamp items).symm
  · have sorted := newestFirst_pairwise stamp items
    rw [← take_append_drop count (newestFirst stamp items)] at sorted
    exact (pairwise_append.mp sorted).2.2

theorem isNewest_take (stamp : α → Int) (items : List α) (limit : Nat) :
    IsNewest stamp limit ((newestFirst stamp items).take limit) items :=
  ⟨isFront_take stamp items limit, by simp⟩

end Sorting

section Rank

theorem countP_lt_of_sorted {values : List Int} (sorted : values.Pairwise (· ≤ ·)) {place : Nat}
    (inside : place < values.length) :
    values.countP (fun value => values[place] < value) < values.length - place := by
  have split := take_append_drop (place + 1) values
  have lowPart : (values.take (place + 1)).countP
      (fun value => values[place] < value) = 0 := by
    rw [countP_eq_zero]
    intro value member
    obtain ⟨index, indexLt, rfl⟩ := mem_iff_getElem.mp member
    rw [length_take] at indexLt
    have indexLe : index ≤ place := by omega
    have valueLe : values[index] ≤ values[place] := by
      rcases Nat.lt_or_eq_of_le indexLe with before | same
      · exact pairwise_iff_getElem.mp sorted index place (by omega) inside before
      · subst same
        exact le_rfl
    simpa using valueLe
  have highPart := countP_le_length
    (p := fun value => decide (values[place] < value)) (l := values.drop (place + 1))
  rw [length_drop] at highPart
  calc
    values.countP (fun value => values[place] < value) =
        (values.take (place + 1) ++ values.drop (place + 1)).countP
          (fun value => values[place] < value) := by rw [split]
    _ = (values.drop (place + 1)).countP (fun value => values[place] < value) := by
        rw [countP_append, lowPart, zero_add]
    _ < values.length - place := by omega

end Rank

end Kryfo.Library
