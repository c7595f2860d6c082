import Kryfo.Catchup.Coverage
import Kryfo.Library.Rank

/-!
# Answers followed while they come

What is stamped below the `limit`-th newest of a page is dropped as the page comes in, and the
list of an answer's stamps is cut back at twice the limit.  Since more events can only raise the
`limit`-th newest stamp, neither drops anything the whole answer needs.
-/

namespace Kryfo.Catchup

open Library List

/-- `Newest`: the events stamped at the `limit`-th newest or above, in order. -/
def newest (evs : List Event) (limit : Nat) : List Event :=
  if limit = 0 ∨ evs.length ≤ limit then evs
  else evs.filter fun ev => below (evs.map Event.createdAt) limit ≤ ev.createdAt

/-- The loop of `relayPage`: each event is put last and the page cut back. -/
def streamed (limit : Nat) (evs : List Event) : List Event :=
  evs.foldl (fun out ev => newest (out ++ [ev]) limit) []

def Answer.fed (limit : Nat) (stamps : List Int) : Answer := stamps.foldl Answer.add (newAnswer limit)

section

variable {limit : Nat} {stamps : List Int}

theorem le_of_mem_drop {values : List Int} (sorted : values.Pairwise (· ≤ ·)) {place : Nat}
    (inside : place < values.length) {value : Int} (member : value ∈ values.drop place) :
    values[place] ≤ value := by
  rw [drop_eq_getElem_cons inside] at member
  rcases mem_cons.mp member with rfl | later
  · exact Int.le_refl _
  · have ordered := sorted.sublist (drop_sublist place values)
    rw [drop_eq_getElem_cons inside] at ordered
    exact (pairwise_cons.mp ordered).1 value later

theorem le_of_mem_take {values : List Int} (sorted : values.Pairwise (· ≤ ·)) {place : Nat}
    (inside : place < values.length) {value : Int} (member : value ∈ values.take place) :
    value ≤ values[place] := by
  rw [← take_append_drop place values, pairwise_append] at sorted
  apply sorted.2.2 value member
  rw [drop_eq_getElem_cons inside]
  exact mem_cons_self

theorem isKth_drop {values : List Int} (sorted : values.Pairwise (· ≤ ·)) {place : Nat}
    (inside : place < values.length) :
    IsKth (values.length - place) (values.drop place) values[place] := by
  have size : (values.drop place).length = values.length - place := length_drop
  refine ⟨?_, ?_⟩
  · rw [drop_eq_getElem_cons inside, countP_cons_of_neg (by simp)]
    refine lt_of_le_of_lt countP_le_length ?_
    rw [length_drop]
    omega
  · have every : ∀ x ∈ values.drop place, decide (values[place] ≤ x) = true := fun x member =>
      decide_eq_true (le_of_mem_drop sorted inside member)
    rw [countP_eq_length.mpr every, size]

theorem below_eq_getElem (positive : 0 < limit) (full : limit ≤ stamps.length) :
    ∃ inside : stamps.length - limit < (stamps.insertionSort (· ≤ ·)).length,
      below stamps limit = (stamps.insertionSort (· ≤ ·))[stamps.length - limit] := by
  have sortedLength := length_insertionSort (· ≤ ·) stamps
  refine ⟨by omega, ?_⟩
  rw [below, if_neg (by omega)]
  rw [if_pos ⟨positive, by omega⟩, getD_eq_getElem _ _ (by omega)]
  simp only [sortedLength]

theorem isKth_below (positive : 0 < limit) (full : limit ≤ stamps.length) :
    IsKth limit stamps (below stamps limit) := by
  obtain ⟨inside, value⟩ := below_eq_getElem positive full
  have sortedLength := length_insertionSort (· ≤ ·) stamps
  have last := isKth_drop (pairwise_insertionSort _ _) inside
  have count : (stamps.insertionSort (· ≤ ·)).length - (stamps.length - limit) = limit := by omega
  rw [count] at last
  have perm : ((stamps.insertionSort (· ≤ ·)).drop (stamps.length - limit) ++
      (stamps.insertionSort (· ≤ ·)).take (stamps.length - limit)).Perm stamps := by
    refine perm_append_comm.trans ?_
    rw [take_append_drop]
    exact perm_insertionSort _ _
  rw [value]
  exact (last.append_low fun y member => le_of_mem_take (pairwise_insertionSort _ _) inside member).perm
    perm

theorem below_eq_of_isKth {v : Int} (positive : 0 < limit) (isKth : IsKth limit stamps v) :
    below stamps limit = v := by
  have full : limit ≤ stamps.length := le_trans isKth.atLeast countP_le_length
  exact (isKth_below positive full).unique isKth

/-! ## Pages -/

variable {evs : List Event}

theorem map_filter_createdAt (low : Int) (evs : List Event) :
    (evs.filter fun ev => low ≤ ev.createdAt).map Event.createdAt =
      (evs.map Event.createdAt).filter fun x => low ≤ x := by
  rw [filter_map]
  rfl

theorem filter_eq_self_of_length_eq {v : Int} (isKth : IsKth limit (evs.map Event.createdAt) v)
    (size : evs.length ≤ limit) : (evs.filter fun ev => v ≤ ev.createdAt) = evs := by
  have all : (evs.map Event.createdAt).countP (fun x => decide (v ≤ x)) =
      (evs.map Event.createdAt).length := by
    have most := countP_le_length (p := fun x => decide (v ≤ x)) (l := evs.map Event.createdAt)
    have := isKth.atLeast
    rw [length_map] at most ⊢
    omega
  rw [filter_eq_self]
  intro ev inside
  exact countP_eq_length.mp all ev.createdAt (mem_map_of_mem inside)

theorem isKth_of_kept {v w : Int} {more : List Int} (isKth : IsKth limit stamps v)
    (isKth' : IsKth limit ((stamps.filter fun x => v ≤ x) ++ more) w) :
    v ≤ w ∧ IsKth limit (stamps ++ more) w := by
  have raised : v ≤ w := isKth.filter_le.le_of_append isKth'
  refine ⟨raised, ?_⟩
  have low : ∀ y ∈ stamps.filter (fun x => !decide (v ≤ x)), y ≤ w := by
    intro y inside
    have := (mem_filter.mp inside).2
    simp only [Bool.not_eq_true', decide_eq_false_iff_not] at this
    omega
  have perm : ((stamps.filter fun x => v ≤ x) ++ more ++ stamps.filter fun x => !decide (v ≤ x)).Perm
      (stamps ++ more) := by
    have parts := filter_append_perm (fun x => decide (v ≤ x)) stamps
    rw [append_assoc]
    refine (List.Perm.append_left _ perm_append_comm).trans ?_
    rw [← append_assoc]
    exact parts.append_right more
  exact (isKth'.append_low low).perm perm

/-- A page followed while it comes is left with the events stamped at the limit-th newest stamp or
above, in the order they came; with all of them when they are fewer. -/
theorem streamed_eq (positive : 0 < limit) (evs : List Event) :
    streamed limit evs = if evs.length < limit then evs
      else evs.filter fun ev => below (evs.map Event.createdAt) limit ≤ ev.createdAt := by
  induction evs using List.reverseRecOn with
  | nil => exact (if_pos positive).symm
  | append_singleton evs ev ih =>
    have step : streamed limit (evs ++ [ev]) = newest (streamed limit evs ++ [ev]) limit := by
      rw [streamed, foldl_append]
      rfl
    rw [step, ih]
    by_cases few : evs.length < limit
    · rw [if_pos few, newest, if_pos (.inr (by rw [length_append]; exact few))]
      by_cases fewer : (evs ++ [ev]).length < limit
      · rw [if_pos fewer]
      · rw [if_neg fewer]
        have size : (evs ++ [ev]).length = limit := by
          rw [length_append, length_singleton] at fewer ⊢
          omega
        have full : limit ≤ ((evs ++ [ev]).map Event.createdAt).length := by
          rw [length_map, size]
        exact (filter_eq_self_of_length_eq (isKth_below positive full) (le_of_eq size)).symm
    · have isKth : IsKth limit (evs.map Event.createdAt) (below (evs.map Event.createdAt) limit) := by
        apply isKth_below positive
        rw [length_map]
        omega
      have many : ¬(evs ++ [ev]).length < limit := by
        rw [length_append]
        omega
      rw [if_neg few, if_neg many]
      generalize below (evs.map Event.createdAt) limit = v at isKth
      have size : limit ≤ (evs.filter fun ev => decide (v ≤ ev.createdAt)).length := by
        have enough := le_trans isKth.filter_le.atLeast countP_le_length
        rw [← map_filter_createdAt, length_map] at enough
        exact enough
      have isKth' : IsKth limit
          (((evs.filter fun ev => decide (v ≤ ev.createdAt)) ++ [ev]).map Event.createdAt)
          (below (((evs.filter fun ev => decide (v ≤ ev.createdAt)) ++ [ev]).map Event.createdAt)
            limit) := by
        apply isKth_below positive
        rw [length_map, length_append]
        omega
      rw [newest, if_neg (by rw [length_append, length_singleton]; omega)]
      generalize below (((evs.filter fun ev => decide (v ≤ ev.createdAt)) ++ [ev]).map
        Event.createdAt) limit = w at isKth'
      rw [map_append, map_filter_createdAt] at isKth'
      obtain ⟨raised, isKthAll⟩ := isKth_of_kept isKth isKth'
      have low : below ((evs ++ [ev]).map Event.createdAt) limit = w := by
        apply below_eq_of_isKth positive
        rw [map_append]
        exact isKthAll
      rw [low, filter_append, filter_append, filter_filter]
      congr 1
      apply filter_congr
      intro e _
      by_cases high : w ≤ e.createdAt
      · rw [decide_eq_true high, decide_eq_true (by omega), Bool.true_and]
      · rw [decide_eq_false high, Bool.false_and]

/-! ## Stamps -/

theorem below_perm {stamps' : List Int} (perm : stamps.Perm stamps') (limit : Nat) :
    below stamps limit = below stamps' limit := by
  have sorted : stamps.insertionSort (· ≤ ·) = stamps'.insertionSort (· ≤ ·) := by
    apply List.Perm.eq_of_pairwise' (pairwise_insertionSort _ _) (pairwise_insertionSort _ _)
    exact (perm_insertionSort _ _).trans (perm.trans (perm_insertionSort _ _).symm)
  rw [below, below, sorted, perm.length_eq]

/-- What an answer has let go is no newer than the limit-th newest stamp it holds. -/
structure Answer.Follows (limit : Nat) (all : List Int) (a : Answer) : Prop where
  asked : a.limit = limit
  size : a.stamps.length < 2 * limit
  rest : ∃ dropped, all.Perm (a.stamps ++ dropped) ∧
    (dropped ≠ [] → limit ≤ a.stamps.length ∧ ∀ d ∈ dropped, d ≤ Catchup.below a.stamps limit)

theorem Answer.Follows.below {all : List Int} {a : Answer} (positive : 0 < limit)
    (follows : a.Follows limit all) : a.below = Catchup.below all limit := by
  obtain ⟨dropped, perm, low⟩ := follows.rest
  rw [Answer.below, follows.asked, below_perm perm]
  by_cases nothing : dropped = []
  · rw [nothing, append_nil]
  · obtain ⟨full, older⟩ := low nothing
    exact (below_eq_of_isKth positive ((isKth_below positive full).append_low older)).symm


theorem Answer.Follows.add {all : List Int} {a : Answer} (positive : 0 < limit)
    (follows : a.Follows limit all) (ts : Int) : (a.add ts).Follows limit (all ++ [ts]) := by
  obtain ⟨asked, size, dropped, perm, low⟩ := follows
  have perm' : (all ++ [ts]).Perm ((a.stamps ++ [ts]) ++ dropped) := by
    refine (perm.append_right [ts]).trans ?_
    rw [append_assoc, append_assoc]
    exact perm_append_comm.append_left _
  have older : ∀ d ∈ dropped, limit ≤ (a.stamps ++ [ts]).length ∧
      d ≤ Catchup.below (a.stamps ++ [ts]) limit := by
    intro d inside
    obtain ⟨full, older⟩ := low (ne_nil_of_mem inside)
    have full' : limit ≤ (a.stamps ++ [ts]).length := by
      rw [length_append]
      omega
    have raised := (isKth_below positive full).le_of_append (isKth_below positive full')
    exact ⟨full', le_trans (older d inside) raised⟩
  unfold Answer.add
  dsimp only
  rw [asked]
  by_cases cut : 0 < limit ∧ 2 * limit ≤ (a.stamps ++ [ts]).length
  · rw [if_pos cut]
    generalize a.stamps ++ [ts] = stamps at *
    have full : limit ≤ stamps.length := by omega
    obtain ⟨inside, value⟩ := below_eq_getElem positive full
    have sortedLength := length_insertionSort (· ≤ ·) stamps
    have last := isKth_drop (pairwise_insertionSort _ _) inside
    have count : (stamps.insertionSort (· ≤ ·)).length - (stamps.length - limit) = limit := by omega
    rw [count, ← value] at last
    have kept := below_eq_of_isKth positive last
    rw [sortedLength]
    refine ⟨rfl, ?_, (stamps.insertionSort (· ≤ ·)).take (stamps.length - limit) ++ dropped, ?_, ?_⟩
    · rw [length_drop]
      omega
    · refine perm'.trans ?_
      rw [← append_assoc]
      refine List.Perm.append_right _ ?_
      refine List.Perm.trans ?_ perm_append_comm
      rw [take_append_drop]
      exact (perm_insertionSort _ _).symm
    · intro _
      refine ⟨by rw [length_drop, count], ?_⟩
      intro d member
      rw [kept]
      rcases mem_append.mp member with now | before
      · rw [value]
        exact le_of_mem_take (pairwise_insertionSort _ _) inside now
      · exact (older d before).2
  · rw [if_neg cut]
    refine ⟨rfl, by show (a.stamps ++ [ts]).length < 2 * limit; omega, dropped, perm', ?_⟩
    intro some'
    obtain ⟨d, inside⟩ := exists_mem_of_ne_nil dropped some'
    exact ⟨(older d inside).1, fun d inside => (older d inside).2⟩

theorem follows_fed (positive : 0 < limit) (stamps : List Int) :
    (Answer.fed limit stamps).Follows limit stamps := by
  induction stamps using List.reverseRecOn with
  | nil =>
    refine ⟨rfl, ?_, [], List.Perm.refl _, fun some' => absurd rfl some'⟩
    show 0 < 2 * limit
    omega
  | append_singleton stamps ts ih =>
    have step : Answer.fed limit (stamps ++ [ts]) = (Answer.fed limit stamps).add ts := by
      rw [Answer.fed, foldl_append]
      rfl
    rw [step]
    exact ih.add positive ts

/-- A page followed while it comes keeps the events stamped at the limit-th newest stamp of all or
above, and an answer fed the same stamps knows that stamp, with fewer than twice the limit kept. -/
theorem streaming_keeps (positive : 0 < limit) (evs : List Event) :
    (streamed limit evs = if evs.length < limit then evs
        else evs.filter fun ev => below (evs.map Event.createdAt) limit ≤ ev.createdAt) ∧
      (Answer.fed limit (evs.map Event.createdAt)).below = below (evs.map Event.createdAt) limit ∧
      (Answer.fed limit (evs.map Event.createdAt)).stamps.length < 2 * limit := by
  have follows := follows_fed positive (evs.map Event.createdAt)
  exact ⟨streamed_eq positive evs, follows.below positive, follows.size⟩

end

/-- Three events, of which the two newest are kept. -/
theorem streaming_keeps_two :
    0 < 2 ∧ streamed 2 [⟨0, 3⟩, ⟨1, 1⟩, ⟨2, 2⟩] = [⟨0, 3⟩, ⟨2, 2⟩] ∧
      (Answer.fed 2 [3, 1, 2]).below = 2 := by
  have keeps := @streaming_keeps 2 (by decide) [⟨0, 3⟩, ⟨1, 1⟩, ⟨2, 2⟩]
  exact ⟨by decide, keeps.1.trans (by decide), keeps.2.1.trans (by decide)⟩

end Kryfo.Catchup
