import Mathlib.Data.List.Nodup

/-!
# Jobs dealt out to workers

A worker takes the next job that nobody took, or one that was put back, and holds it until it is
finished, put back or lost.  No job is in two places at once.
-/

namespace Kryfo.Library

open List

/-- Put back and waiting, in a worker's hand, or finished.  From `next` on nobody has taken any. -/
structure Deal where
  next : Nat
  queue : List Nat
  hand : Nat → Option Nat
  finished : List Nat

namespace Deal

structure Once (d : Deal) : Prop where
  queue : d.queue.Nodup
  finished : d.finished.Nodup
  hand : ∀ w w' j, d.hand w = some j → d.hand w' = some j → w = w'
  below : ∀ j, j ∈ d.queue ∨ (∃ w, d.hand w = some j) ∨ j ∈ d.finished → j < d.next
  waiting : ∀ j ∈ d.queue, (∀ w, d.hand w ≠ some j) ∧ j ∉ d.finished
  held : ∀ w j, d.hand w = some j → j ∉ d.finished

/-- Every job below `total` is somewhere, unless it was not to be done. -/
def Covers (d : Deal) (left : Nat → Prop) (total : Nat) : Prop :=
  ∀ j < total, left j ∨ j ∈ d.finished ∨ j ∈ d.queue ∨ (∃ w, d.hand w = some j) ∨ d.next ≤ j

variable {d : Deal} {w j total : Nat} {left : Nat → Prop}

/-- Worker `w` takes a job that nobody took, past those that are not to be done. -/
def takeNext (d : Deal) (w j : Nat) : Deal :=
  { d with next := j + 1, hand := Function.update d.hand w (some j) }

def skipTo (d : Deal) (n : Nat) : Deal := { d with next := n }

def takeQueued (d : Deal) (w j : Nat) : Deal :=
  { d with queue := d.queue.tail, hand := Function.update d.hand w (some j) }

def release (d : Deal) (w : Nat) : Deal := { d with hand := Function.update d.hand w none }

def finish (d : Deal) (w j : Nat) : Deal := { d.release w with finished := j :: d.finished }

def putBack (d : Deal) (w j : Nat) : Deal := { d.release w with queue := d.queue ++ [j] }

theorem hand_update {job : Option Nat} {w' k : Nat}
    (holds : Function.update d.hand w job w' = some k) :
    w' = w ∧ job = some k ∨ w' ≠ w ∧ d.hand w' = some k := by
  by_cases same : w' = w
  · subst same
    rw [Function.update_self] at holds
    exact .inl ⟨rfl, holds⟩
  · rw [Function.update_of_ne same] at holds
    exact .inr ⟨same, holds⟩

theorem hand_release {w' k : Nat} (holds : (d.release w).hand w' = some k) :
    w' ≠ w ∧ d.hand w' = some k :=
  (hand_update holds).resolve_left nofun

namespace Once

theorem first : Once ⟨0, [], fun _ => none, []⟩ where
  queue := .nil
  finished := .nil
  hand := nofun
  below := by simp
  waiting := nofun
  held := nofun

theorem release (once : d.Once) (w : Nat) : (d.release w).Once where
  queue := once.queue
  finished := once.finished
  hand := fun w₁ w₂ k one two => once.hand w₁ w₂ k (hand_release one).2 (hand_release two).2
  below := fun k place => once.below k
    (place.imp_right (Or.imp_left fun ⟨w', holds⟩ => ⟨w', (hand_release holds).2⟩))
  waiting := fun k member =>
    ⟨fun w' holds => (once.waiting k member).1 w' (hand_release holds).2, (once.waiting k member).2⟩
  held := fun w' k holds => once.held w' k (hand_release holds).2

theorem skipTo (once : d.Once) (ahead : d.next ≤ j) : (d.skipTo j).Once :=
  { once with below := fun k place => Nat.lt_of_lt_of_le (once.below k place) ahead }

theorem take (once : d.Once) (w : Nat) (dealt : j < d.next) (notQueued : j ∉ d.queue)
    (notHeld : ∀ w, d.hand w ≠ some j) (notFinished : j ∉ d.finished) :
    Once { d with hand := Function.update d.hand w (some j) } := by
  refine ⟨once.queue, once.finished, ?_, ?_, ?_, ?_⟩
  · intro w₁ w₂ k one two
    rcases hand_update one with ⟨here, same⟩ | ⟨_, one'⟩ <;>
      rcases hand_update two with ⟨here', same'⟩ | ⟨_, two'⟩
    · rw [here, here']
    · obtain rfl := Option.some.inj same
      exact absurd two' (notHeld w₂)
    · obtain rfl := Option.some.inj same'
      exact absurd one' (notHeld w₁)
    · exact once.hand w₁ w₂ k one' two'
  · rintro k (waits | ⟨w', holds⟩ | isOver)
    · exact once.below k (.inl waits)
    · rcases hand_update holds with ⟨_, same⟩ | ⟨_, holds⟩
      · obtain rfl := Option.some.inj same
        exact dealt
      · exact once.below k (.inr (.inl ⟨w', holds⟩))
    · exact once.below k (.inr (.inr isOver))
  · intro k member
    refine ⟨fun w' holds => ?_, (once.waiting k member).2⟩
    rcases hand_update holds with ⟨_, same⟩ | ⟨_, holds⟩
    · obtain rfl := Option.some.inj same
      exact notQueued member
    · exact (once.waiting k member).1 w' holds
  · intro w' k holds isOver
    rcases hand_update holds with ⟨_, same⟩ | ⟨_, holds⟩
    · obtain rfl := Option.some.inj same
      exact notFinished isOver
    · exact once.held w' k holds isOver

theorem takeNext (once : d.Once) (ahead : d.next ≤ j) : (d.takeNext w j).Once := by
  have nowhere (place : j ∈ d.queue ∨ (∃ w, d.hand w = some j) ∨ j ∈ d.finished) : False :=
    Nat.not_lt.mpr ahead (once.below j place)
  exact (once.skipTo (Nat.le_succ_of_le ahead)).take w (Nat.lt_succ_self j)
    (fun waits => nowhere (.inl waits)) (fun w' holds => nowhere (.inr (.inl ⟨w', holds⟩)))
    (fun isOver => nowhere (.inr (.inr isOver)))

theorem takeQueued (once : d.Once) (head : d.queue.head? = some j) : (d.takeQueued w j).Once := by
  obtain ⟨rest, queue⟩ : ∃ rest, d.queue = j :: rest := head?_eq_some_iff.mp head
  have waits : j ∈ d.queue := by rw [queue]; exact mem_cons_self
  have apart : j ∉ d.queue.tail := by
    have nodup := once.queue
    rw [queue] at nodup ⊢
    exact (nodup_cons.mp nodup).1
  have shorter : Once { d with queue := d.queue.tail } :=
    { once with
      queue := once.queue.tail
      below := fun k place => once.below k (place.imp_left mem_of_mem_tail)
      waiting := fun k member => once.waiting k (mem_of_mem_tail member) }
  exact shorter.take w (once.below j (.inl waits)) apart (once.waiting j waits).1
    (once.waiting j waits).2

theorem finish (once : d.Once) (holds : d.hand w = some j) : (d.finish w j).Once := by
  have rest := once.release w
  refine ⟨rest.queue, nodup_cons.mpr ⟨once.held w j holds, once.finished⟩, rest.hand, ?_, ?_, ?_⟩
  · rintro k (waits | elsewhere | isOver)
    · exact rest.below k (.inl waits)
    · exact rest.below k (.inr (.inl elsewhere))
    · rcases mem_cons.mp isOver with rfl | before
      · exact once.below k (.inr (.inl ⟨w, holds⟩))
      · exact rest.below k (.inr (.inr before))
  · intro k member
    refine ⟨(rest.waiting k member).1, fun isOver => ?_⟩
    rcases mem_cons.mp isOver with rfl | before
    · exact (once.waiting k member).1 w holds
    · exact (rest.waiting k member).2 before
  · intro w' k holds' isOver
    rcases mem_cons.mp isOver with rfl | before
    · obtain ⟨other, held⟩ := hand_release holds'
      exact other (once.hand w' w k held holds)
    · exact rest.held w' k holds' before

theorem putBack (once : d.Once) (holds : d.hand w = some j) : (d.putBack w j).Once := by
  have rest := once.release w
  have apart : j ∉ d.queue := fun member => (once.waiting j member).1 w holds
  refine ⟨?_, rest.finished, rest.hand, ?_, ?_, rest.held⟩
  · exact once.queue.append (nodup_singleton j) (by simpa using apart)
  · rintro k (waits | place)
    · rcases mem_append.mp waits with before | last
      · exact rest.below k (.inl before)
      · exact once.below k (.inr (.inl ⟨w, mem_singleton.mp last ▸ holds⟩))
    · exact rest.below k (.inr place)
  · intro k member
    rcases mem_append.mp member with before | last
    · exact rest.waiting k before
    · obtain rfl := mem_singleton.mp last
      refine ⟨fun w' holds' => ?_, once.held w k holds⟩
      obtain ⟨other, held⟩ := hand_release holds'
      exact other (once.hand w' w k held holds)

end Once

namespace Covers

theorem takeNext (covers : d.Covers left total) (free : d.hand w = none)
    (skipped : ∀ k, d.next ≤ k → k < j → left k ∨ k ∈ d.finished) :
    (d.takeNext w j).Covers left total := by
  intro k small
  rcases covers k small with no | isOver | waits | ⟨w', holds⟩ | ahead
  · exact .inl no
  · exact .inr (.inl isOver)
  · exact .inr (.inr (.inl waits))
  · refine .inr (.inr (.inr (.inl ⟨w', ?_⟩)))
    have other : w' ≠ w := fun same => by
      rw [same, free] at holds
      cases holds
    exact (Function.update_of_ne other ..).trans holds
  · rcases Nat.lt_trichotomy k j with before | rfl | after
    · rcases skipped k ahead before with no | isOver
      · exact .inl no
      · exact .inr (.inl isOver)
    · exact .inr (.inr (.inr (.inl ⟨w, Function.update_self ..⟩)))
    · exact .inr (.inr (.inr (.inr after)))

theorem skipTo (covers : d.Covers left total)
    (skipped : ∀ k, d.next ≤ k → k < j → left k ∨ k ∈ d.finished) :
    (d.skipTo j).Covers left total := by
  intro k small
  rcases covers k small with no | isOver | waits | holds | ahead
  · exact .inl no
  · exact .inr (.inl isOver)
  · exact .inr (.inr (.inl waits))
  · exact .inr (.inr (.inr (.inl holds)))
  · rcases Nat.lt_or_ge k j with before | after
    · rcases skipped k ahead before with no | isOver
      · exact .inl no
      · exact .inr (.inl isOver)
    · exact .inr (.inr (.inr (.inr after)))

theorem takeQueued (covers : d.Covers left total) (free : d.hand w = none)
    (head : d.queue.head? = some j) : (d.takeQueued w j).Covers left total := by
  obtain ⟨rest, queue⟩ : ∃ rest, d.queue = j :: rest := head?_eq_some_iff.mp head
  intro k small
  rcases covers k small with no | isOver | waits | ⟨w', holds⟩ | ahead
  · exact .inl no
  · exact .inr (.inl isOver)
  · rw [queue] at waits
    rcases mem_cons.mp waits with rfl | later
    · exact .inr (.inr (.inr (.inl ⟨w, Function.update_self ..⟩)))
    · exact .inr (.inr (.inl (by simpa [Deal.takeQueued, queue] using later)))
  · refine .inr (.inr (.inr (.inl ⟨w', ?_⟩)))
    have other : w' ≠ w := fun same => by
      rw [same, free] at holds
      cases holds
    exact (Function.update_of_ne other ..).trans holds
  · exact .inr (.inr (.inr (.inr ahead)))

theorem release (covers : d.Covers left total) (holds : d.hand w = some j) {k : Nat}
    (small : k < total) : k = j ∨ left k ∨ k ∈ d.finished ∨ k ∈ d.queue ∨
      (∃ w', (d.release w).hand w' = some k) ∨ d.next ≤ k := by
  rcases covers k small with no | isOver | waits | ⟨w', holds'⟩ | ahead
  · exact .inr (.inl no)
  · exact .inr (.inr (.inl isOver))
  · exact .inr (.inr (.inr (.inl waits)))
  · by_cases same : w' = w
    · rw [same, holds] at holds'
      exact .inl (Option.some.inj holds').symm
    · exact .inr (.inr (.inr (.inr (.inl ⟨w', (Function.update_of_ne same ..).trans holds'⟩))))
  · exact .inr (.inr (.inr (.inr (.inr ahead))))

theorem finish (covers : d.Covers left total) (holds : d.hand w = some j) :
    (d.finish w j).Covers left total := by
  intro k small
  rcases covers.release holds small with rfl | no | isOver | place
  · exact .inr (.inl mem_cons_self)
  · exact .inl no
  · exact .inr (.inl (mem_cons_of_mem _ isOver))
  · exact .inr (.inr place)

theorem putBack (covers : d.Covers left total) (holds : d.hand w = some j) :
    (d.putBack w j).Covers left total := by
  intro k small
  rcases covers.release holds small with rfl | no | isOver | waits | place
  · exact .inr (.inr (.inl (mem_append_right _ (mem_singleton_self _))))
  · exact .inl no
  · exact .inr (.inl isOver)
  · exact .inr (.inr (.inl (mem_append_left _ waits)))
  · exact .inr (.inr (.inr place))

/-- Nothing waits, is in hand or is left to take: every job is finished or was not to be done. -/
theorem complete (covers : d.Covers left total) (queue : d.queue = []) (idle : ∀ w, d.hand w = none)
    (past : total ≤ d.next) : ∀ k < total, left k ∨ k ∈ d.finished := by
  intro k small
  rcases covers k small with no | isOver | waits | ⟨w', holds⟩ | ahead
  · exact .inl no
  · exact .inr isOver
  · rw [queue] at waits
    cases waits
  · rw [idle w'] at holds
    cases holds
  · exact absurd (Nat.lt_of_lt_of_le small (Nat.le_trans past ahead)) (Nat.lt_irrefl k)

end Covers

end Deal

end Kryfo.Library
