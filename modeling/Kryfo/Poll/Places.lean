import Kryfo.Library.Ledger
import Kryfo.Poll.Inbox

/-!
# Where a line can be

A line is in the inbox, in a batch in flight, or in the hands of an ack that is still at work.
Each operation says here what it does to the number of lines of an id in these places.
-/

namespace Kryfo.Seen.SeenIDs

open Library

theorem claim_eq (s : SeenIDs) (id : ID) :
    (s.claim id).1 = true ∧ id ∉ s.queued ∧
        (s.claim id).2 = { s with queued := insert id s.queued } ∨
      (s.claim id).1 = false ∧ (s.claim id).2 = s := by
  unfold claim
  split_ifs with seen kept queued
  · exact .inr ⟨rfl, rfl⟩
  · exact .inr ⟨rfl, rfl⟩
  · exact .inr ⟨rfl, rfl⟩
  · exact .inl ⟨rfl, queued, rfl⟩

theorem hold_queued (digest : List Char → BitVec 64) (s : SeenIDs) (id : ID) (stamp : Int64)
    (name : List Char) (now : Int) (reachFrom reachUntil : Int64) :
    (s.hold digest id stamp name now reachFrom reachUntil).2.queued = s.queued.erase id ∧
      (s.hold digest id stamp name now reachFrom reachUntil).2.opened = s.opened := by
  unfold hold
  dsimp only
  split_ifs <;> exact ⟨rfl, rfl⟩

theorem mem_handedOver_queued (s : SeenIDs) (ids : List ID) (id : ID) :
    id ∈ (s.handedOver ids).queued ↔ id ∈ s.queued ∧ id ∉ ids := by
  unfold handedOver
  induction ids generalizing s with
  | nil => simp
  | cons first ids ih =>
    rw [List.foldl_cons, ih]
    simp only [handOver, Finset.mem_erase, List.mem_cons]
    tauto

theorem handedOver_opened (s : SeenIDs) (ids : List ID) :
    (s.handedOver ids).opened = ids.foldl Ring.add s.opened := by
  unfold handedOver
  induction ids generalizing s with
  | nil => rfl
  | cons first ids ih =>
    rw [List.foldl_cons, ih]
    rfl

end Kryfo.Seen.SeenIDs

namespace Kryfo.Poll

open Library Seen List

variable {ι π : Type*}

/-- The lines an ack has still to deal with, those it could not hold apart. -/
def Hand.lines (h : Hand ι) : List (Item ι) := h.holds.map Prod.fst ++ h.stale ++ h.kept

namespace Sys

def lines (s : Sys ι π) : List (Item ι) :=
  s.inbox ++ s.inflight.flatMap Prod.snd ++ s.hands.flatMap Hand.lines

/-- The lines a hold had no room for, on their way to be marked as kept. -/
def tookLines (s : Sys ι π) : List (Item ι) := s.hands.flatMap Hand.took

def Queued (s : Sys ι π) (k : ι × ID) : Prop := k.2 ∈ (s.sets k.1).queued

end Sys

/-- What has become of the lines that are nowhere any more. -/
def Log.left (l : Log ι) : List (ι × ID) := l.kept ++ l.held ++ l.released.map Item.key

@[simp] theorem Item.key_retried (x : Item ι) : x.retried.key = x.key := rfl

theorem map_key_retried (xs : List (Item ι)) :
    (xs.map Item.retried).map Item.key = xs.map Item.key := by simp

namespace Sys

variable [DecidableEq ι] (s : Sys ι π)

/-- How often an id is owed: it is being opened, or has a line. -/
def owed (k : ι × ID) : Nat := s.opening.count k + (s.lines.map Item.key).count k

/-- How often an id waits to be marked as kept although it is no longer queued. -/
def waiting (k : ι × ID) : Nat := (s.tookLines.map Item.key).count k

/-- The takes so far, finished or not, against where their ids are. -/
def Balanced : Prop :=
  ∀ k, s.log.taken.count k + s.opening.count k = s.owed k + s.waiting k + s.log.left.count k

/-! ## The floor of the anchor -/

theorem floor_le (i : ι) (xs : List (Item ι)) (low : Option Int64) :
    (∀ l ∈ low, ∃ f ∈ xs.foldl (fun low x =>
        if x.done.set = i ∧ low.all (x.done.stamp < ·) then some x.done.stamp else low) low,
      f ≤ l) ∧
    ∀ x ∈ xs, x.done.set = i → ∃ f ∈ xs.foldl (fun low x =>
        if x.done.set = i ∧ low.all (x.done.stamp < ·) then some x.done.stamp else low) low,
      f ≤ x.done.stamp := by
  induction xs generalizing low with
  | nil => exact ⟨fun l isLow => ⟨l, isLow, Int64.le_refl l⟩, by simp⟩
  | cons x xs ih =>
    obtain ⟨before, later⟩ := ih
      (if x.done.set = i ∧ low.all (x.done.stamp < ·) then some x.done.stamp else low)
    refine ⟨fun l isLow => ?_, fun y inside mine => ?_⟩
    · obtain rfl : low = some l := isLow
      by_cases lower : x.done.set = i ∧ x.done.stamp < l
      · obtain ⟨f, isFloor, le⟩ := before x.done.stamp (by simp [lower])
        exact ⟨f, isFloor, Int64.le_trans le (Int64.le_of_lt lower.2)⟩
      · exact before l (by simp [lower])
    · obtain rfl | inside := mem_cons.mp inside
      · cases low with
        | none => exact before y.done.stamp (by simp [mine])
        | some l =>
          by_cases lower : y.done.stamp < l
          · exact before y.done.stamp (by simp [mine, lower])
          · obtain ⟨f, isFloor, le⟩ := before l (by simp [lower])
            exact ⟨f, isFloor, Int64.le_trans le (Int64.not_lt.mp lower)⟩
      · exact later y inside mine

theorem owedFloor_le {x : Item ι} (waits : x ∈ s.inbox ++ s.inflight.flatMap Prod.snd) :
    ∃ f ∈ s.owedFloor x.done.set, f ≤ x.done.stamp :=
  (floor_le x.done.set _ none).2 x waits rfl

/-! ## Offering again -/

theorem releaseAll_apply (sets : ι → SeenIDs) (xs : List (Item ι)) (i : ι) :
    releaseAll sets xs i = { sets i with
      queued := (sets i).queued.filter fun id => (i, id) ∉ xs.map Item.key } := by
  unfold releaseAll
  induction xs generalizing sets with
  | nil => simp
  | cons x xs ih =>
    rw [foldl_cons, ih]
    by_cases same : x.done.set = i
    · subst same
      rw [Function.update_self]
      refine congrArg (fun q => { sets x.done.set with queued := q }) ?_
      ext id
      simp only [SeenIDs.release, Finset.mem_filter, Finset.mem_erase, map_cons,
        mem_cons, Item.key, Prod.mk.injEq]
      tauto
    · simp [Item.key, Ne.symm same]

theorem requeue_requeue (xs ys : List (Item ι)) :
    (s.requeue xs).requeue ys = s.requeue (ys ++ xs) := by
  have spent_append : spent (ys ++ xs) = spent ys ++ spent xs := by simp [spent]
  have sets : releaseAll (releaseAll s.sets (spent xs)) (spent ys) =
      releaseAll s.sets (spent (ys ++ xs)) := by
    funext i
    rw [releaseAll_apply, releaseAll_apply, releaseAll_apply]
    refine congrArg (fun q => { s.sets i with queued := q }) ?_
    ext id
    simp only [Finset.mem_filter, spent_append, map_append, mem_append]
    tauto
  simp only [requeue, sets, spent_append, onceMore, map_append, filter_append, append_assoc]

theorem requeueAll_eq :
    s.requeueAll = { s with inflight := [] }.requeue
      ((s.inflight.insertionSort fun b c : Nat × List (Item ι) => b.1 ≤ c.1).flatMap
        Prod.snd) := by
  unfold requeueAll
  generalize (s.inflight.insertionSort fun b c : Nat × List (Item ι) => b.1 ≤ c.1) = batches
  induction batches with
  | nil => rfl
  | cons b batches ih => rw [foldr_cons, ih, requeue_requeue, flatMap_cons]

theorem queued_requeue (xs : List (Item ι)) (k : ι × ID) :
    (s.requeue xs).Queued k ↔ s.Queued k ∧ k ∉ (spent xs).map Item.key := by
  simp [Queued, requeue, releaseAll_apply]

omit [DecidableEq ι] in
theorem perm_spent (xs : List (Item ι)) :
    ((onceMore xs).map Item.key ++ (spent xs).map Item.key).Perm (xs.map Item.key) := by
  rw [← map_append, ← map_key_retried xs]
  exact (perm_append_comm.trans (filter_append_perm _ _)).map _

theorem count_requeue (xs : List (Item ι)) (k : ι × ID) :
    ((s.requeue xs).lines.map Item.key).count k + ((spent xs).map Item.key).count k =
      (s.lines.map Item.key).count k + (xs.map Item.key).count k := by
  have parts := (perm_spent xs).count_eq k
  simp only [count_append] at parts
  simp only [lines, requeue, map_append, count_append]
  omega

/-! ## What a step does to the places -/

/-- Some ids are no longer owed, of which the refused ones wait, and some that
waited are settled. -/
structure Settles (s s' : Sys ι π) (out refused settled : List (ι × ID)) : Prop where
  owed : ∀ k, s.owed k = s'.owed k + out.count k
  waiting : ∀ k, s.waiting k + refused.count k = s'.waiting k + settled.count k
  part : ∀ k, refused.count k ≤ out.count k
  queued : ∀ k, s'.Queued k ↔ s.Queued k ∧ k ∉ out ∧ k ∉ settled
  balance : ∀ k, s'.log.taken.count k + s'.opening.count k +
      (s.owed k + s.waiting k + s.log.left.count k) =
    s.log.taken.count k + s.opening.count k + (s'.owed k + s'.waiting k + s'.log.left.count k)

structure Still (s s' : Sys ι π) : Prop where
  lines : ∀ k, (s'.lines.map Item.key).count k = (s.lines.map Item.key).count k
  waiting : ∀ k, s'.waiting k = s.waiting k
  opening : s'.opening = s.opening
  queued : ∀ k, s'.Queued k ↔ s.Queued k
  taken : s'.log.taken = s.log.taken
  left : s'.log.left = s.log.left

theorem still_aside (walking : Table (List Char) Nat) (live : Finset (List Char)) (gens : π → Nat) :
    Still s { s with walking := walking, live := live, gens := gens } :=
  ⟨fun _ => rfl, fun _ => rfl, rfl, fun _ => .rfl, rfl, rfl⟩

theorem Still.settles {s s' : Sys ι π} (still : Still s s') : Settles s s' [] [] [] where
  owed k := by simp [Sys.owed, still.lines, still.opening]
  waiting k := by simp [still.waiting]
  part k := le_rfl
  queued k := by simp [still.queued]
  balance k := by
    simp [Sys.owed, still.lines, still.opening, still.waiting, still.taken, still.left]

theorem Settles.still {s t s' : Sys ι π} {out refused settled : List (ι × ID)}
    (settles : Settles s t out refused settled) (still : Still t s') :
    Settles s s' out refused settled where
  owed k := by
    have := settles.owed k
    simpa [Sys.owed, still.lines, still.opening] using this
  waiting k := by
    rw [still.waiting]
    exact settles.waiting k
  part := settles.part
  queued k := by rw [still.queued, settles.queued]
  balance k := by
    have := settles.balance k
    simpa [Sys.owed, still.lines, still.opening, still.waiting, still.taken, still.left] using this

theorem settles_requeue {s t : Sys ι π} {xs : List (Item ι)}
    (lines : ∀ k, (s.lines.map Item.key).count k =
      (t.lines.map Item.key).count k + (xs.map Item.key).count k)
    (waiting : ∀ k, t.waiting k = s.waiting k) (opening : t.opening = s.opening)
    (queued : ∀ k, t.Queued k ↔ s.Queued k) (log : t.log = s.log) :
    Settles s (t.requeue xs) ((spent xs).map Item.key) [] [] where
  owed k := by
    have := lines k
    have := count_requeue t xs k
    have same : (t.requeue xs).opening = s.opening := opening
    simp only [Sys.owed, same]
    omega
  waiting k := by
    have same : (t.requeue xs).waiting k = s.waiting k := waiting k
    simp [same]
  part k := by simp
  queued k := by simp [queued_requeue, queued]
  balance k := by
    have := lines k
    have := count_requeue t xs k
    have same : (t.requeue xs).opening = s.opening := opening
    have sameTook : (t.requeue xs).waiting k = s.waiting k := waiting k
    have sameTaken : (t.requeue xs).log.taken = s.log.taken := by rw [← log]; rfl
    have sameLeft : (t.requeue xs).log.left =
        s.log.kept ++ s.log.held ++ (spent xs ++ s.log.released).map Item.key := by
      rw [← log]
      rfl
    rw [sameTaken, sameLeft]
    simp only [Sys.owed, Log.left, count_append, map_append]
    omega

theorem settles_requeueAll : ∃ out, Settles s s.requeueAll out [] [] := by
  rw [requeueAll_eq]
  refine ⟨_, settles_requeue (fun k => ?_) (fun _ => rfl) rfl (fun _ => .rfl) rfl⟩
  have sorted := (((perm_insertionSort (fun b c : Nat × List (Item ι) => b.1 ≤ c.1)
    s.inflight).flatMap_right Prod.snd).map Item.key).count_eq k
  simp only [Sys.lines, map_append, count_append, flatMap_nil, map_nil, count_nil]
  omega

end Sys

end Kryfo.Poll
