import Kryfo.Seen.Lines

/-!
# The id ring keeps the newest ids

`idRing` is a map and an array that is written round and round.  It goes through the same states
as the bounded queue of the library.
-/

namespace Kryfo.Seen

open Library List

/-- `idRing`, with the capacity of its slice. -/
structure IdRing where
  ids : Finset ID
  ring : List ID
  cap : Nat
  next : Nat
  deriving DecidableEq

def newIDRing (max : Nat) : IdRing := ⟨∅, [], max, 0⟩

namespace IdRing

def has (r : IdRing) (id : ID) : Bool := decide (id ∈ r.ids)

def add (r : IdRing) (id : ID) : IdRing :=
  if r.has id then r
  else if r.ring.length < r.cap then
    { r with ring := r.ring ++ [id], ids := insert id r.ids }
  else
    { r with
      ids := insert id (r.ring[r.next]?.elim r.ids r.ids.erase)
      ring := r.ring.set r.next id
      next := (r.next + 1) % r.ring.length }

def len (r : IdRing) : Nat := r.ring.length

/-- What is inserted as `ids` are added: an add of an id that is present inserts nothing. -/
def inserted (r : IdRing) : List ID → List ID
  | [] => []
  | id :: ids => if r.has id then r.inserted ids else id :: (r.add id).inserted ids

end IdRing

variable {cap : Nat}

def toIdRing (r : Ring ID cap) : IdRing := ⟨r.ids, r.ring, cap, r.next⟩

theorem add_toIdRing (r : Ring ID cap) (id : ID) : (toIdRing r).add id = toIdRing (r.add id) := by
  unfold IdRing.add Ring.add IdRing.has toIdRing
  by_cases present : id ∈ r.ids
  · simp [present]
  by_cases room : r.ring.length < cap
  · simp [present, room]
  · have inside : r.next < r.ring.length := by
      have := r.next_lt
      omega
    simp [present, room, inside]

theorem foldl_add_toIdRing (r : Ring ID cap) (adds : List ID) :
    adds.foldl IdRing.add (toIdRing r) = toIdRing (adds.foldl Ring.add r) := by
  induction adds generalizing r with
  | nil => rfl
  | cons id adds ih => rw [foldl_cons, add_toIdRing, ih, foldl_cons]

/-- What a run inserts is put behind what was inserted before it. -/
theorem queue_of_inserted (positive : 0 < cap) {r : Ring ID cap} (log : List ID)
    (newest : r.queue = log.rtake cap) (adds : List ID) :
    (adds.foldl Ring.add r).queue = (log ++ (toIdRing r).inserted adds).rtake cap := by
  induction adds generalizing r log with
  | nil => simpa [IdRing.inserted] using newest
  | cons id adds ih =>
    have has : (toIdRing r).has id = r.has id := rfl
    rw [foldl_cons, IdRing.inserted, has]
    split
    next present =>
      have same : r.add id = r := by
        rw [Ring.add, dif_pos (of_decide_eq_true present)]
      rw [same]
      exact ih log newest
    next absent =>
      rw [Ring.has_iff, newest] at absent
      have pushed : (r.add id).queue = (log ++ [id]).rtake cap := by
        rw [Ring.queue_add, newest, push_rtake positive absent]
      rw [ih _ pushed, add_toIdRing, append_assoc, singleton_append]

/-- After any adds the map has the ids of the ring, the ring has each once and
not more than its capacity, and read from `next` on it is the end of what was
inserted. -/
theorem foldl_add_newIDRing (max : Nat) (positive : 1 ≤ max) (adds : List ID) :
    let r := adds.foldl IdRing.add (newIDRing max)
    (∀ id, r.has id = true ↔ id ∈ r.ring) ∧ r.ring.Nodup ∧ r.len ≤ max ∧
      r.ring.rotate r.next = ((newIDRing max).inserted adds).rtake max := by
  have begins : newIDRing max = toIdRing (Ring.new positive) := rfl
  have run := queue_of_inserted positive [] ((Ring.queue_new positive).trans (rtake_nil _).symm) adds
  rw [begins, foldl_add_toIdRing]
  generalize adds.foldl Ring.add (Ring.new positive) = r at run
  refine ⟨fun id => ?_, r.nodup, r.length_le, run⟩
  simp [IdRing.has, toIdRing, r.ids_eq]

/-- The first id goes when a third comes, and comes back as the newest. -/
theorem foldl_add_newIDRing_two :
    let r := [1, 2, 1, 3, 1].foldl IdRing.add (newIDRing 2)
    r.ids = {1, 3} ∧ r.ring.rotate r.next = [3, 1] :=
  ⟨by decide, (foldl_add_newIDRing 2 (by decide) [1, 2, 1, 3, 1]).2.2.2.trans (by decide)⟩

end Kryfo.Seen
