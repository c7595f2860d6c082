import Mathlib.Data.List.DropRight
import Mathlib.Data.List.Rotate
import Mathlib.Data.Finset.Card

/-!
# A bounded queue of distinct items

Items are kept in the order they came, each once, and past the capacity the oldest goes.  `push`
is the queue on lists, `Ring` the same queue as an array with a place to write next.
-/

namespace Kryfo.Library

open List

variable {α : Type*} [DecidableEq α]

def push (cap : Nat) (queue : List α) (x : α) : List α :=
  if x ∈ queue then queue
  else if queue.length < cap then queue ++ [x]
  else queue.tail ++ [x]

def pushAll (cap : Nat) (queue items : List α) : List α := items.foldl (push cap) queue

section Push

variable {cap : Nat} {queue items : List α}

theorem push_subset (cap : Nat) (queue : List α) (x : α) : push cap queue x ⊆ x :: queue := by
  intro y member
  unfold push at member
  split_ifs at member
  · exact mem_cons_of_mem _ member
  · simpa [or_comm] using member
  · rcases mem_append.mp member with old | isNew
    · exact mem_cons_of_mem _ (mem_of_mem_tail old)
    · simpa using .inl (mem_singleton.mp isNew)

theorem pushAll_subset (cap : Nat) (queue items : List α) :
    pushAll cap queue items ⊆ queue ++ items := by
  induction items generalizing queue with
  | nil => simp [pushAll]
  | cons x items ih =>
    intro y member
    have := ih (push cap queue x) member
    rcases mem_append.mp this with old | later
    · rcases mem_cons.mp (push_subset cap queue x old) with rfl | before
      · simp
      · exact mem_append_left _ before
    · simp [later]

theorem nodup_push (nodup : queue.Nodup) (x : α) : (push cap queue x).Nodup := by
  unfold push
  split_ifs with present
  · exact nodup
  · exact nodup.append (nodup_singleton x) (by simpa using present)
  · refine (nodup.tail).append (nodup_singleton x) ?_
    simpa using fun member => present (mem_of_mem_tail member)

theorem nodup_pushAll (cap : Nat) (nodup : queue.Nodup) (items : List α) :
    (pushAll cap queue items).Nodup := by
  induction items generalizing queue with
  | nil => exact nodup
  | cons x items ih => exact ih (nodup_push nodup x)

theorem length_push_le (positive : 0 < cap) (fits : queue.length ≤ cap) (x : α) :
    (push cap queue x).length ≤ cap := by
  unfold push
  split_ifs with present room
  · exact fits
  · simp only [length_append, length_singleton]
    omega
  · simp only [length_append, length_tail, length_singleton]
    omega

theorem length_pushAll_le (positive : 0 < cap) (fits : queue.length ≤ cap) (items : List α) :
    (pushAll cap queue items).length ≤ cap := by
  induction items generalizing queue with
  | nil => exact fits
  | cons x items ih => exact ih (length_push_le positive fits x)

theorem push_of_length_lt {x : α} (short : (push cap queue x).length < cap) :
    queue.length < cap ∧ ∀ y, y ∈ push cap queue x ↔ y ∈ queue ∨ y = x := by
  unfold push at short ⊢
  split_ifs at short ⊢ with present room
  · exact ⟨short, fun y => ⟨.inl, by rintro (old | rfl) <;> assumption⟩⟩
  · exact ⟨room, by simp⟩
  · simp at short
    omega

theorem mem_pushAll_of_length_lt (short : (pushAll cap queue items).length < cap) :
    queue.length < cap ∧ ∀ y, y ∈ pushAll cap queue items ↔ y ∈ queue ∨ y ∈ items := by
  induction items generalizing queue with
  | nil => exact ⟨short, by simp [pushAll]⟩
  | cons x items ih =>
    obtain ⟨here, later⟩ := ih short
    obtain ⟨before, one⟩ := push_of_length_lt here
    refine ⟨before, fun y => ?_⟩
    change y ∈ pushAll cap (push cap queue x) items ↔ _
    rw [later, one, mem_cons, or_assoc]

theorem mem_pushAll_of_subset {few : List α} (part : items ⊆ few) (short : few.length < cap) :
    ∀ y, y ∈ pushAll cap [] items ↔ y ∈ items := by
  have inFew : pushAll cap [] items ⊆ few :=
    List.Subset.trans (pushAll_subset cap [] items) (by simpa using part)
  have few_le := ((nodup_pushAll cap nodup_nil items).subperm inFew).length_le
  intro y
  rw [(mem_pushAll_of_length_lt (few_le.trans_lt short)).2]
  simp

theorem mem_pushAll_of_length_le (fits : queue.length + items.length ≤ cap) :
    ∀ y, y ∈ pushAll cap queue items ↔ y ∈ queue ∨ y ∈ items := by
  induction items generalizing queue with
  | nil => simp [pushAll]
  | cons x items ih =>
    intro y
    simp only [length_cons] at fits
    have one : (push cap queue x).length ≤ queue.length + 1 ∧
        ∀ y, y ∈ push cap queue x ↔ y ∈ queue ∨ y = x := by
      unfold push
      split_ifs with present room
      · exact ⟨by omega, fun y => ⟨.inl, by rintro (old | rfl) <;> assumption⟩⟩
      · simp
      · omega
    change y ∈ pushAll cap (push cap queue x) items ↔ _
    rw [ih (by omega), one.2, mem_cons, or_assoc]

theorem pushAll_of_nodup (positive : 0 < cap) (fits : queue.length ≤ cap)
    (nodup : (queue ++ items).Nodup) :
    pushAll cap queue items = (queue ++ items).drop (queue.length + items.length - cap) := by
  induction items generalizing queue with
  | nil => simp [pushAll, Nat.sub_eq_zero_of_le fits]
  | cons x items ih =>
    have outside : x ∉ queue := fun member => by
      have := disjoint_of_nodup_append nodup member
      simp at this
    change pushAll cap (push cap queue x) items = _
    rw [push]
    split_ifs with room
    · rw [ih (by simpa [Nat.succ_le_iff] using room) (by simpa using nodup)]
      simp only [append_assoc, length_append, length_cons, length_nil]
      congr 1
      omega
    · cases queue with
      | nil => simp at room; omega
      | cons first queue =>
        have rest : (queue ++ [x] ++ items).Nodup := by
          have := nodup.tail
          simpa using this
        have full : queue.length + 1 = cap := by
          simp only [length_cons] at fits room
          omega
        rw [tail_cons, ih (by simp [full]) rest]
        have more : (first :: queue).length + (x :: items).length - cap =
            ((queue ++ [x]).length + items.length - cap) + 1 := by
          simp only [length_cons, length_append, length_nil]
          omega
        rw [more]
        simp

/-- A queue that has the end of what was put in has it after one more. -/
theorem push_rtake (positive : 0 < cap) {x : α} (absent : x ∉ items.rtake cap) :
    push cap (items.rtake cap) x = (items ++ [x]).rtake cap := by
  have length : (items.rtake cap).length = items.length - (items.length - cap) := length_drop
  rw [push, if_neg absent, length]
  unfold rtake
  split_ifs with room
  · rw [length_append, length_singleton, Nat.sub_eq_zero_of_le (by omega : items.length ≤ cap),
      Nat.sub_eq_zero_of_le (by omega : items.length + 1 ≤ cap)]
    rfl
  · have more : (items ++ [x]).length - cap = items.length - cap + 1 := by
      rw [length_append, length_singleton]
      omega
    rw [more, tail_drop, drop_append_of_le_length (by omega)]

/-- A queue keeps the same of a sequence as of a part no longer than its capacity, exactly when all
it keeps is in that part. -/
theorem pushAll_same_iff {last : List α} (positive : 0 < cap) (part : last ⊆ items)
    (short : last.length ≤ cap) :
    (∀ y, y ∈ pushAll cap [] items ↔ y ∈ pushAll cap [] last) ↔ pushAll cap [] items ⊆ last := by
  have whole : ∀ y, y ∈ pushAll cap [] last ↔ y ∈ ([] : List α) ∨ y ∈ last :=
    mem_pushAll_of_length_le (by simpa using short)
  have fits : (pushAll cap [] items).length ≤ cap :=
    length_pushAll_le positive (Nat.zero_le _) items
  simp only [whole, not_mem_nil, false_or]
  refine ⟨fun same y => (same y).mp, fun kept y => ⟨fun member => kept member, fun member => ?_⟩⟩
  rcases fits.lt_or_eq with room | full
  · exact ((mem_pushAll_of_length_lt room).2 y).mpr (.inr (part member))
  · have equal : (pushAll cap [] items).toFinset = last.toFinset := by
      refine Finset.eq_of_subset_of_card_le (fun z => by simpa using @kept z) ?_
      rw [toFinset_card_of_nodup (nodup_pushAll cap nodup_nil items), full]
      exact (toFinset_card_le last).trans short
    simpa [← equal] using mem_toFinset.mpr member

end Push

/-- The queue as an array that is written round and round. -/
structure Ring (α : Type*) [DecidableEq α] (cap : Nat) where
  ids : Finset α
  ring : List α
  next : Nat
  ids_eq : ids = ring.toFinset
  nodup : ring.Nodup
  length_le : ring.length ≤ cap
  next_lt : next < cap
  next_zero : ring.length < cap → next = 0

namespace Ring

variable {cap : Nat}

def new (positive : 0 < cap) : Ring α cap where
  ids := ∅
  ring := []
  next := 0
  ids_eq := rfl
  nodup := nodup_nil
  length_le := Nat.zero_le _
  next_lt := positive
  next_zero := fun _ => rfl

variable (r : Ring α cap)

def has (x : α) : Bool := decide (x ∈ r.ids)

omit [DecidableEq α] in
private theorem set_split {ring : List α} {next : Nat} (inside : next < ring.length) (x : α) :
    ring.set next x = ring.take next ++ x :: ring.drop (next + 1) ∧
      ring = ring.take next ++ ring[next] :: ring.drop (next + 1) :=
  ⟨by rw [set_eq_take_append_cons_drop, if_pos inside], by simp⟩

def add (x : α) : Ring α cap :=
  if present : x ∈ r.ids then r
  else if room : r.ring.length < cap then
    { ids := insert x r.ids
      ring := r.ring ++ [x]
      next := r.next
      ids_eq := by rw [r.ids_eq, toFinset_append]; ext; simp
      nodup := by
        refine r.nodup.append (nodup_singleton x) ?_
        simpa [r.ids_eq] using present
      length_le := by rw [length_append]; exact room
      next_lt := r.next_lt
      next_zero := fun _ => r.next_zero room }
  else
    have inside : r.next < r.ring.length := by have := r.next_lt; omega
    { ids := insert x (r.ids.erase r.ring[r.next])
      ring := r.ring.set r.next x
      next := (r.next + 1) % r.ring.length
      ids_eq := by
        obtain ⟨after, before⟩ := set_split inside x
        have nodup := r.nodup
        rw [before] at nodup
        have apart := nodup_middle.mp nodup
        rw [r.ids_eq, after]
        ext y
        simp only [Finset.mem_insert, Finset.mem_erase, mem_toFinset, mem_append, mem_cons]
        nth_rewrite 2 [before]
        simp only [mem_append, mem_cons]
        have outside := (nodup_cons.mp apart).1
        constructor
        · rintro (rfl | ⟨other, left | rfl | right⟩)
          · simp
          · simp [left]
          · exact absurd rfl other
          · simp [right]
        · rintro (left | rfl | right)
          · exact Or.inr ⟨fun same => outside (by simp [← same, left]), Or.inl left⟩
          · simp
          · exact Or.inr ⟨fun same => outside (by simp [← same, right]), Or.inr (Or.inr right)⟩
      nodup := r.nodup.set (by simpa [r.ids_eq] using present)
      length_le := by simpa using r.length_le
      next_lt := lt_of_lt_of_le (Nat.mod_lt _ (by omega)) r.length_le
      next_zero := by simpa using fun short => absurd short room }

def queue : List α := r.ring.rotate r.next

theorem has_iff (x : α) : r.has x = true ↔ x ∈ r.queue := by
  simp [has, queue, r.ids_eq]

@[simp] theorem queue_new (positive : 0 < cap) : (new positive : Ring α cap).queue = [] := rfl

theorem queue_add (x : α) : (r.add x).queue = push cap r.queue x := by
  have present : x ∈ r.ids ↔ x ∈ r.queue := by rw [← has_iff, has, decide_eq_true_iff]
  have length : r.queue.length = r.ring.length := length_rotate ..
  unfold add push
  rw [length]
  by_cases isIn : x ∈ r.ids
  · rw [dif_pos isIn, if_pos (present.mp isIn)]
  · rw [if_neg fun member => isIn (present.mpr member)]
    split_ifs with room
    · simp [queue, r.next_zero room]
    · have inside : r.next < r.ring.length := by have := r.next_lt; omega
      have tail : r.queue.tail = r.ring.drop (r.next + 1) ++ r.ring.take r.next := by
        rw [queue, rotate_eq_drop_append_take inside.le, tail_append_of_ne_nil, tail_drop]
        simpa using inside
      have written : (r.ring.set r.next x).rotate (r.next + 1) =
          r.ring.drop (r.next + 1) ++ (r.ring.take r.next ++ [x]) := by
        rw [rotate_eq_drop_append_take (by rw [length_set]; exact inside),
          drop_set_of_lt (by omega), take_add_one, take_set_of_le le_rfl]
        simp [inside]
      rw [tail, append_assoc, ← written]
      change (r.ring.set r.next x).rotate ((r.next + 1) % r.ring.length) = _
      rw [← rotate_mod (r.ring.set r.next x) (r.next + 1), length_set]

theorem queue_foldl_add (items : List α) :
    (items.foldl add r).queue = pushAll cap r.queue items := by
  induction items generalizing r with
  | nil => rfl
  | cons x items ih =>
    rw [foldl_cons, ih, queue_add]
    rfl

theorem has_of_foldl_add {r : Ring α cap} {items : List α} {x : α}
    (member : (items.foldl add r).has x = true) : r.has x = true ∨ x ∈ items := by
  rw [has_iff, queue_foldl_add] at member
  rw [has_iff]
  exact mem_append.mp (pushAll_subset cap _ _ member)

end Ring

end Kryfo.Library
