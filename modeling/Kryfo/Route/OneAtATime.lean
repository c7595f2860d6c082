import Mathlib.Data.List.Chain
import Mathlib.Data.List.Nodup
import Kryfo.Route.Moves

/-!
# One reconnect at a time

The calls that hold or wait for the slot stand in a queue.  Only the first of them can be at work;
each other one waits for the done channel of the one right before it.
-/

namespace Kryfo.Reconnect

open Library List Function

def Phase.shut : Phase → Option Nat
  | .ended (some held) _ => some held.done
  | _ => none

theorem Phase.honest.claim {p : Phase} {owner : Nat} (honest : p.honest owner)
    (below : ∀ h ∈ p.held, h.me ≤ owner) : p.honest (owner + 1) := by
  have replaced {h : Held} (holds : p.held = some h) : h.me ≠ owner + 1 := by
    have := below h holds
    omega
  cases p with
  | idle | waiting held prev => trivial
  | doing held script | telling held what next | leaving held result | closing held result =>
    exact .inr (replaced rfl)
  | ended held result =>
    cases held with
    | none => exact honest
    | some held => exact .inr (replaced rfl)

theorem Phase.carries_of_tells {p : Phase} {what : Command} (tells : p.tells = some what) :
    p.carries = true := by
  cases p with
  | telling held told next => rfl
  | _ => cases tells

namespace Engine

def held (e : Engine) (i : Nat) : Option Held := (e.phase i).held

def shut (e : Engine) (i : Nat) : Option Nat := (e.phase i).shut

variable {e : Engine} {i : Nat} {p : Phase}

theorem phase_set_self : (e.set i p).phase i = p := update_self ..

theorem phase_set_of_ne {j : Nat} (other : j ≠ i) : (e.set i p).phase j = e.phase j :=
  update_of_ne other ..

theorem held_set : (e.set i p).held = Function.update e.held i p.held :=
  comp_update Phase.held e.phase i p

theorem shut_set : (e.set i p).shut = Function.update e.shut i p.shut :=
  comp_update Phase.shut e.phase i p

theorem held_set_of_eq (same : p.held = e.held i) : (e.set i p).held = e.held := by
  rw [held_set, same, update_eq_self]

theorem shut_set_of_eq (same : p.shut = e.shut i) : (e.set i p).shut = e.shut := by
  rw [shut_set, same, update_eq_self]

theorem held_of_shut {channel : Nat} (shut : e.shut i = some channel) :
    ∃ held, e.held i = some held ∧ held.done = channel := by
  unfold Engine.shut Phase.shut at shut
  split at shut
  next held result ended =>
    exact ⟨held, by rw [Engine.held, ended]; rfl, by simpa using shut⟩
  · cases shut

end Engine

/-- Owners and channels are numbered upwards, and no two calls share one. -/
structure Numbers (held : Nat → Option Held) (owner made : Nat) : Prop where
  below : ∀ i, ∀ h ∈ held i, h.me ≤ owner ∧ h.done < made
  distinct : ∀ i j, ∀ a ∈ held i, ∀ b ∈ held j, a.me = b.me ∨ a.done = b.done → i = j

theorem Numbers.claim {held : Nat → Option Held} {owner made i : Nat}
    (numbers : Numbers held owner made) :
    Numbers (Function.update held i (some ⟨owner + 1, made⟩)) (owner + 1) (made + 1) where
  below := by
    intro j h member
    by_cases same : j = i
    · subst same
      obtain rfl : ⟨owner + 1, made⟩ = h := by simpa using member
      exact ⟨le_rfl, Nat.lt_succ_self _⟩
    · rw [update_of_ne same] at member
      have := numbers.below j h member
      omega
  distinct := by
    intro j k a memberA b memberB shared
    by_cases sameJ : j = i <;> by_cases sameK : k = i
    · rw [sameJ, sameK]
    · subst sameJ
      obtain rfl : ⟨owner + 1, made⟩ = a := by simpa using memberA
      rw [update_of_ne sameK] at memberB
      have := numbers.below k b memberB
      dsimp only at shared
      omega
    · subst sameK
      obtain rfl : ⟨owner + 1, made⟩ = b := by simpa using memberB
      rw [update_of_ne sameJ] at memberA
      have := numbers.below j a memberA
      dsimp only at shared
      omega
    · rw [update_of_ne sameJ] at memberA
      rw [update_of_ne sameK] at memberB
      exact numbers.distinct j k a memberA b memberB shared

def Linked (e : Engine) (a b : Nat) : Prop :=
  ∃ first second, e.held a = some first ∧ e.phase b = .waiting second first.done

structure Queue (e : Engine) (queue : List Nat) : Prop where
  nodup : queue.Nodup
  empty : queue = [] → e.done = none
  last : ∀ i ∈ queue.getLast?, ∃ h, e.held i = some h ∧ h.me = e.owner ∧ e.done = some h.done
  linked : queue.IsChain (Linked e)
  first : ∀ i ∈ queue.head?, (e.phase i).onward ∨ e.front (e.phase i)
  outside : ∀ i, (e.phase i).live → i ∈ queue
  replaced : ∀ i ∈ queue, (e.phase i).live = false → ∀ h ∈ e.held i, h.me ≠ e.owner

theorem exists_rel_of_mem_tail {α : Type} {r : α → α → Prop} {a b : α} {rest : List α}
    (chain : (a :: rest).IsChain r) (member : b ∈ rest) : ∃ c ∈ a :: rest, r c b := by
  induction rest generalizing a with
  | nil => cases member
  | cons x rest ih =>
    obtain ⟨related, onward⟩ := isChain_cons_cons.mp chain
    rcases mem_cons.mp member with rfl | later
    · exact ⟨a, mem_cons_self, related⟩
    · obtain ⟨c, inside, rel⟩ := ih onward later
      exact ⟨c, mem_cons_of_mem _ inside, rel⟩

namespace Queue

variable {e e' : Engine} {queue : List Nat} {i : Nat}

theorem claimed (q : Queue e queue) (member : i ∈ queue) :
    (∃ h, e.held i = some h) ∧ e.shut i = none := by
  have of_phase (fine : (e.phase i).onward ∨ e.front (e.phase i)) :
      (∃ h, e.held i = some h) ∧ e.shut i = none := by
    unfold Engine.held Engine.shut
    revert fine
    cases e.phase i <;> simp [Phase.onward, Engine.front, Phase.held, Phase.shut]
  cases queue with
  | nil => cases member
  | cons a rest =>
    rcases mem_cons.mp member with rfl | later
    · exact of_phase (q.first i rfl)
    · obtain ⟨c, -, first, second, -, waits⟩ := exists_rel_of_mem_tail q.linked later
      rw [Engine.held, Engine.shut, waits]
      exact ⟨⟨second, rfl⟩, rfl⟩

theorem of_agree (q : Queue e queue) (owner : e'.owner = e.owner) (done : e'.done = e.done)
    (agree : ∀ j ∈ queue, e'.phase j = e.phase j)
    (stopped : ∀ channel, e.stopped channel → e'.stopped channel)
    (outside : ∀ j, (e'.phase j).live → j ∈ queue) : Queue e' queue where
  nodup := q.nodup
  empty := fun none => done ▸ q.empty none
  last := by
    intro j member
    rw [owner, done, Engine.held, agree j (mem_of_getLast? member)]
    exact q.last j member
  linked := q.linked.imp_of_mem_imp fun a b insideA insideB ⟨first, second, holds, waits⟩ =>
    ⟨first, second, by rw [Engine.held, agree a insideA]; exact holds,
      by rw [agree b insideB]; exact waits⟩
  first := by
    intro j member
    rw [agree j (mem_of_mem_head? member)]
    refine (q.first j member).imp_right fun front => ?_
    revert front
    cases e.phase j <;> simp only [Engine.front, imp_self]
    exact stopped _
  outside := outside
  replaced := by
    intro j member
    rw [owner, Engine.held, agree j member]
    exact q.replaced j member

end Queue

structure Sound (e : Engine) (queue : List Nat) : Prop where
  numbers : Numbers e.held e.owner e.made
  closes : ∀ channel i, (channel, i) ∈ e.closed ↔ e.shut i = some channel
  once : e.closed.Nodup
  newest : ∀ i ∈ e.claims.head?, ∃ h, e.held i = some h ∧ h.me = e.owner
  honest : ∀ i, (e.phase i).honest e.owner
  flag : e.restarting = e.done.isSome
  queue : Queue e queue

namespace Sound

variable {e e' : Engine} {queue : List Nat} {i : Nat}

theorem first : Sound {} [] where
  numbers := ⟨nofun, nofun⟩
  closes := fun channel i => by simp [Engine.shut, Phase.shut]
  once := .nil
  newest := nofun
  honest := fun _ => trivial
  flag := rfl
  queue := ⟨.nil, fun _ => rfl, nofun, .nil, nofun, nofun, nofun⟩

theorem head_of_front (sound : Sound e queue) (front : e.front (e.phase i)) :
    ∃ rest, queue = i :: rest := by
  have live : (e.phase i).live := by
    revert front
    cases e.phase i <;> simp [Engine.front, Phase.live]
  have member := sound.queue.outside i live
  have linked := sound.queue.linked
  cases queue with
  | nil => cases member
  | cons a rest =>
    rcases mem_cons.mp member with rfl | later
    · exact ⟨rest, rfl⟩
    · obtain ⟨c, inside, first, second, holds, waits⟩ := exists_rel_of_mem_tail linked later
      rw [waits, Engine.front, Engine.stopped, any_eq_true] at front
      obtain ⟨⟨channel, j⟩, entry, same⟩ := front
      obtain rfl : channel = first.done := of_decide_eq_true same
      have shut := (sound.closes _ _).mp entry
      obtain ⟨h, holdsJ, sameDone⟩ := Engine.held_of_shut shut
      obtain rfl := sound.numbers.distinct j c h holdsJ first holds (.inr sameDone)
      cases shut.symm.trans (sound.queue.claimed inside).2

theorem absent (sound : Sound e queue) (idle : e.phase i = .idle) : i ∉ queue := by
  intro member
  obtain ⟨⟨h, holds⟩, -⟩ := sound.queue.claimed member
  rw [Engine.held, idle] at holds
  cases holds

variable {result : Result} {p : Phase} {done : Option Nat} {restarting running : Bool} {since : Int}
  {steps : List (Nat × Step)} {parked : List (Nat × Command)} {queue' : List Nat}

/-- A call goes on with what it holds. -/
theorem set (sound : Sound e queue) (held : p.held = e.held i) (shut : p.shut = e.shut i)
    (honest : p.honest e.owner) (flag : restarting = done.isSome)
    (q : Queue ({ e with done, restarting, running, since, steps, parked }.set i p) queue') :
    Sound ({ e with done, restarting, running, since, steps, parked }.set i p) queue' := by
  have sameHeld := Engine.held_set_of_eq
    (e := { e with done, restarting, running, since, steps, parked }) held
  have sameShut := Engine.shut_set_of_eq
    (e := { e with done, restarting, running, since, steps, parked }) shut
  refine ⟨?_, ?_, sound.once, ?_, ?_, flag, q⟩
  · rw [sameHeld]
    exact sound.numbers
  · rw [sameShut]
    exact sound.closes
  · rw [sameHeld]
    exact sound.newest
  · exact (forall_update_iff e.phase fun _ p => p.honest e.owner).mpr
      ⟨honest, fun j _ => sound.honest j⟩

theorem turnedAway (sound : Sound e queue) (idle : e.phase i = .idle)
    (other : result ≠ .superseded) : Sound (e.set i (.ended none result)) queue := by
  have absent := sound.absent idle
  refine sound.set (by rw [Engine.held, idle]; rfl) (by rw [Engine.shut, idle]; rfl) other
    sound.flag ?_
  refine sound.queue.of_agree rfl rfl (fun j member => ?_) (fun _ => id) ?_
  · exact Engine.phase_set_of_ne fun same => absent (same ▸ member)
  · exact (forall_update_iff e.phase fun j p => p.live → j ∈ queue).mpr
      ⟨by simp [Phase.live], fun j _ => sound.queue.outside j⟩

theorem claim (sound : Sound e queue) (idle : e.phase i = .idle)
    (holds : p.held = some (e.reconnectClaim i).1) (open' : p.shut = none)
    (honest : p.honest (e.owner + 1))
    (queued : Queue ((e.reconnectClaim i).2.set i p) queue') :
    Sound ((e.reconnectClaim i).2.set i p) queue' where
  numbers := by
    rw [Engine.held_set, holds]
    exact sound.numbers.claim
  closes := by
    rw [Engine.shut_set_of_eq (by rw [open', Engine.shut]; change none = (e.phase i).shut; rw [idle]; rfl)]
    exact sound.closes
  once := sound.once
  newest := by
    intro j member
    obtain rfl : i = j := by simpa [Engine.reconnectClaim, Engine.set] using member
    rw [Engine.held_set, update_self]
    exact ⟨_, holds, rfl⟩
  honest := (forall_update_iff e.phase fun _ p => p.honest (e.owner + 1)).mpr
    ⟨honest, fun j _ => (sound.honest j).claim fun h holds => (sound.numbers.below j h holds).1⟩
  flag := rfl
  queue := queued

theorem queue_eq_nil (sound : Sound e queue) (free : e.done = none) : queue = [] := by
  cases last : queue.getLast? with
  | none => exact getLast?_eq_none_iff.mp last
  | some i =>
    obtain ⟨h, -, -, taken⟩ := sound.queue.last i last
    cases free.symm.trans taken

theorem entered (sound : Sound e queue) {script : Script} (idle : e.phase i = .idle)
    (free : e.done = none) (honest : script.honest) :
    Sound ((e.reconnectClaim i).2.set i (.doing (e.reconnectClaim i).1 script)) [i] := by
  obtain rfl := sound.queue_eq_nil free
  refine sound.claim (p := .doing _ script) idle rfl rfl (.inl honest) ?_
  refine ⟨nodup_singleton i, nofun, ?_, .singleton i, ?_, ?_, ?_⟩
  · intro j member
    obtain rfl : i = j := by simpa using member
    exact ⟨_, by rw [Engine.held_set, update_self]; rfl, rfl, rfl⟩
  · intro j member
    obtain rfl : i = j := by simpa using member
    rw [Engine.phase_set_self]
    exact .inl rfl
  · refine (forall_update_iff e.phase fun j p => p.live → j ∈ [i]).mpr
      ⟨fun _ => mem_singleton_self i, fun j _ live => ?_⟩
    cases sound.queue.outside j live
  · intro j member
    obtain rfl : j = i := by simpa using member
    rw [Engine.phase_set_self]
    nofun

theorem queued (sound : Sound e queue) {prev : Nat} (idle : e.phase i = .idle)
    (taken : e.done = some prev) :
    Sound ((e.reconnectClaim i).2.set i (.waiting (e.reconnectClaim i).1 prev)) (queue ++ [i]) := by
  have absent := sound.absent idle
  have agree (j : Nat) (member : j ∈ queue) :
      ((e.reconnectClaim i).2.set i (.waiting (e.reconnectClaim i).1 prev)).phase j = e.phase j :=
    Engine.phase_set_of_ne fun same => absent (same ▸ member)
  have agreeHeld (j : Nat) (member : j ∈ queue) :
      ((e.reconnectClaim i).2.set i (.waiting (e.reconnectClaim i).1 prev)).held j = e.held j :=
    congrArg Phase.held (agree j member)
  refine sound.claim (p := .waiting _ prev) idle rfl rfl trivial ?_
  refine ⟨?_, by simp, ?_, ?_, ?_, ?_, ?_⟩
  · exact sound.queue.nodup.append (nodup_singleton i) (by simpa using absent)
  · intro j member
    obtain rfl : i = j := by simpa using member
    exact ⟨_, by rw [Engine.held_set, update_self]; rfl, rfl, rfl⟩
  · refine isChain_append.mpr ⟨?_, .singleton i, ?_⟩
    · refine sound.queue.linked.imp_of_mem_imp fun a b insideA insideB linked => ?_
      obtain ⟨first, second, holds, waits⟩ := linked
      exact ⟨first, second, (agreeHeld a insideA).trans holds, (agree b insideB).trans waits⟩
    · intro a lastA b headB
      obtain rfl : i = b := by simpa using headB
      obtain ⟨h, holds, -, done⟩ := sound.queue.last a lastA
      obtain rfl : prev = h.done := Option.some.inj (taken.symm.trans done)
      exact ⟨h, _, (agreeHeld a (mem_of_getLast? lastA)).trans holds, Engine.phase_set_self⟩
  · intro j member
    cases head : queue.head? with
    | none =>
      rw [head?_eq_none_iff] at head
      cases taken.symm.trans (sound.queue.empty head)
    | some k =>
      obtain rfl : k = j := by simpa [head] using member
      rw [agree k (mem_of_mem_head? head)]
      exact sound.queue.first k head
  · refine (forall_update_iff e.phase fun j p => p.live → j ∈ queue ++ [i]).mpr
      ⟨fun _ => by simp, fun j _ live => ?_⟩
    exact mem_append_left _ (sound.queue.outside j live)
  · intro j member
    rcases mem_append.mp member with inside | last
    · rw [agreeHeld j inside]
      intro _ h holds
      have := (sound.numbers.below j h holds).1
      exact (Nat.lt_succ_of_le this).ne
    · obtain rfl : j = i := by simpa using last
      rw [Engine.phase_set_self]
      nofun

variable {held : Held}

theorem shifted (sound : Sound e queue) (was : (e.phase i).held = some held)
    (front : e.front (e.phase i)) (now : p.held = some held) (onward : p.onward)
    (gaveBack : p.live = false → held.me ≠ e.owner)
    (keeps : (e.phase i).honest e.owner → p.honest e.owner) :
    Sound ({ e with since, running, steps, parked }.set i p) queue := by
  obtain ⟨rest, rfl⟩ := sound.head_of_front front
  have nodup := sound.queue.nodup
  have sameHeld : ({ e with since, running, steps, parked }.set i p).held = e.held :=
    Engine.held_set_of_eq (e := { e with since, running, steps, parked }) (now.trans was.symm)
  have unshut : p.shut = none := by
    revert onward
    cases p <;> simp [Phase.onward, Phase.shut]
  have agree (j : Nat) (member : j ∈ rest) :
      ({ e with since, running, steps, parked }.set i p).phase j = e.phase j :=
    Engine.phase_set_of_ne fun same => (nodup_cons.mp nodup).1 (same ▸ member)
  refine sound.set (now.trans was.symm) (unshut.trans (sound.queue.claimed mem_cons_self).2.symm)
    (keeps (sound.honest i)) sound.flag ⟨nodup, nofun, ?_, ?_, ?_, ?_, ?_⟩
  · rw [sameHeld]
    exact sound.queue.last
  · refine sound.queue.linked.imp_of_mem_tail_imp fun a b _ insideB linked => ?_
    obtain ⟨first, second, holds, waits⟩ := linked
    exact ⟨first, second, by rw [sameHeld]; exact holds, (agree b insideB).trans waits⟩
  · intro j member
    obtain rfl : i = j := by simpa using member
    rw [Engine.phase_set_self]
    exact .inl onward
  · exact (forall_update_iff e.phase fun j p => p.live → j ∈ i :: rest).mpr
      ⟨fun _ => mem_cons_self, fun j _ => sound.queue.outside j⟩
  · rw [sameHeld]
    refine (forall_update_iff e.phase fun j p =>
      j ∈ i :: rest → p.live = false → ∀ h ∈ e.held j, h.me ≠ e.owner).mpr
        ⟨fun _ isOver h holds => ?_, fun j _ => sound.queue.replaced j⟩
    obtain rfl : held = h := Option.some.inj (was.symm.trans holds)
    exact gaveBack isOver

theorem landed (sound : Sound e queue) (parked : List (Nat × Command)) :
    Sound { e with parked } queue :=
  { sound with queue := { sound.queue with } }

theorem alone (sound : Sound e queue) (front : e.front (e.phase i))
    (was : (e.phase i).held = some held) (mine : e.owner = held.me) : queue = [i] := by
  obtain ⟨rest, rfl⟩ := sound.head_of_front front
  cases last : rest.getLast? with
  | none => rw [getLast?_eq_none_iff.mp last]
  | some j =>
    have lastJ : (i :: rest).getLast? = some j := by
      rw [getLast?_cons, last]
      rfl
    obtain ⟨h, holds, owns, -⟩ := sound.queue.last j lastJ
    obtain rfl := sound.numbers.distinct j i h holds held was (.inl (owns.trans mine))
    exact absurd (mem_of_getLast? last) (nodup_cons.mp sound.queue.nodup).1

theorem released (sound : Sound e queue) (was : e.phase i = .leaving held result)
    (mine : e.owner = held.me) :
    Sound ((e.reconnectRelease held).set i (.closing held result)) [] := by
  have holds : (e.phase i).held = some held := by rw [was]; rfl
  have front : e.front (e.phase i) = true := by rw [was]; rfl
  obtain rfl := sound.alone front holds mine
  have honest := sound.honest i
  rw [was] at honest
  rw [Engine.reconnectRelease, if_pos mine]
  refine sound.set holds.symm (by rw [Engine.shut, was]; rfl) honest rfl
    ⟨.nil, fun _ => rfl, by simp, .nil, by simp, ?_, by simp⟩
  refine (forall_update_iff e.phase fun j p => p.live → j ∈ []).mpr
    ⟨(fun live => by cases live), fun j other live => ?_⟩
  exact absurd (mem_singleton.mp (sound.queue.outside j live)) other

theorem held_close (was : e.phase i = .closing held result) :
    (e.close i held result).held = e.held :=
  Engine.held_set_of_eq (e := { e with closed := (held.done, i) :: e.closed })
    (by rw [Engine.held, was]; rfl)

theorem shut_close : (e.close i held result).shut = Function.update e.shut i (some held.done) :=
  Engine.shut_set (e := { e with closed := (held.done, i) :: e.closed })

theorem stopped_close {channel : Nat} :
    (e.close i held result).stopped channel ↔ channel = held.done ∨ e.stopped channel := by
  rw [Engine.stopped, Engine.close, Engine.set, any_cons, Bool.or_eq_true, decide_eq_true_eq,
    eq_comm]
  rfl

theorem close (sound : Sound e queue) (was : e.phase i = .closing held result)
    (q : Queue (e.close i held result) queue') : Sound (e.close i held result) queue' where
  numbers := by
    rw [held_close was]
    exact sound.numbers
  closes := by
    have unshut : e.shut i = none := by rw [Engine.shut, was]; rfl
    intro channel j
    rw [shut_close, Engine.close, Engine.set, mem_cons, sound.closes]
    by_cases same : j = i
    · subst same
      simp [unshut, eq_comm]
    · simp [same]
  once := by
    have unshut : e.shut i = none := by rw [Engine.shut, was]; rfl
    refine nodup_cons.mpr ⟨fun member => ?_, sound.once⟩
    cases unshut.symm.trans ((sound.closes _ _).mp member)
  newest := by
    rw [held_close was]
    exact sound.newest
  honest := by
    refine (forall_update_iff e.phase fun _ p => p.honest e.owner).mpr
      ⟨?_, fun j _ => sound.honest j⟩
    have honest := sound.honest i
    rw [was] at honest
    exact honest
  flag := sound.flag
  queue := q

theorem queue_close {rest : List Nat} (sound : Sound e (i :: rest))
    (was : e.phase i = .closing held result) : Queue (e.close i held result) rest := by
  have holds : e.held i = some held := by rw [Engine.held, was]; rfl
  have q := sound.queue
  obtain ⟨notIn, nodup⟩ := nodup_cons.mp q.nodup
  have replaced : held.me ≠ e.owner :=
    q.replaced i mem_cons_self (by rw [was]; rfl) held holds
  have lastOf (j : Nat) (last : (i :: rest).getLast? = some j) : rest.getLast? = some j := by
    rw [getLast?_cons] at last
    cases end' : rest.getLast? with
    | some k => simpa [end'] using last
    | none =>
      obtain ⟨h, holds', owns, -⟩ := q.last i (by rw [getLast?_cons, end']; rfl)
      obtain rfl : held = h := Option.some.inj (holds.symm.trans holds')
      exact absurd owns replaced
  have agree (j : Nat) (inside : j ∈ rest) : (e.close i held result).phase j = e.phase j :=
    Engine.phase_set_of_ne fun same => notIn (same ▸ inside)
  obtain ⟨next, linked⟩ := isChain_cons.mp q.linked
  refine ⟨nodup, fun none => ?_, fun j last => ?_, ?_, fun j head => ?_, ?_, fun j inside => ?_⟩
  · subst none
    cases lastOf i rfl
  · rw [held_close was]
    refine q.last j ?_
    rw [getLast?_cons, Option.mem_def.mp last]
    rfl
  · refine linked.imp_of_mem_imp fun a b _ insideB link => ?_
    obtain ⟨first, second, holdsA, waits⟩ := link
    exact ⟨first, second, by rw [held_close was]; exact holdsA, (agree b insideB).trans waits⟩
  · obtain ⟨first, second, holds', waits⟩ := next j head
    obtain rfl : held = first := Option.some.inj (holds.symm.trans holds')
    rw [agree j (mem_of_mem_head? head), waits]
    exact .inr (stopped_close.mpr (.inl rfl))
  · refine (forall_update_iff e.phase fun j p => p.live → j ∈ rest).mpr
      ⟨nofun, fun j other live => ?_⟩
    exact (mem_cons.mp (q.outside j live)).resolve_left other
  · rw [agree j inside, held_close was]
    exact q.replaced j (mem_cons_of_mem i inside)

/-- A call that closes its channel leaves the queue, if it was still in it. -/
theorem closed (sound : Sound e queue) (was : e.phase i = .closing held result) :
    ∃ queue', Sound (e.close i held result) queue' := by
  by_cases member : i ∈ queue
  · cases queue with
    | nil => cases member
    | cons a rest =>
      rcases mem_cons.mp member with rfl | later
      · exact ⟨rest, sound.close was (sound.queue_close was)⟩
      · obtain ⟨c, -, first, second, -, waits⟩ :=
          exists_rel_of_mem_tail sound.queue.linked later
        cases was.symm.trans waits
  · refine ⟨queue, sound.close was (sound.queue.of_agree rfl rfl (fun j inside => ?_) ?_ ?_)⟩
    · exact Engine.phase_set_of_ne fun same => member (same ▸ inside)
    · exact fun channel stopped => stopped_close.mpr (.inr stopped)
    · exact (forall_update_iff e.phase fun j p => p.live → j ∈ queue).mpr
        ⟨nofun, fun j _ => sound.queue.outside j⟩

theorem moved (sound : Sound e queue) (moved : Moved e e') : ∃ queue', Sound e' queue' := by
  cases moved with
  | turnedAway idle other => exact ⟨_, sound.turnedAway idle other⟩
  | entered idle free honest => exact ⟨_, sound.entered idle free honest⟩
  | queued idle taken => exact ⟨_, sound.queued idle taken⟩
  | shifted was front now onward gaveBack begun keeps =>
    exact ⟨_, sound.shifted was front now onward gaveBack keeps⟩
  | landed parked => exact ⟨_, sound.landed parked⟩
  | released was mine => exact ⟨_, sound.released was mine⟩
  | closed was => exact sound.closed was

end Sound

namespace Engine

/-- Another call has claimed the slot since call `i` did. -/
def Replaced (e : Engine) (i : Nat) : Prop := ∃ h, e.held i = some h ∧ h.me ≠ e.owner

def HoldsSlot (e : Engine) (i : Nat) : Prop :=
  (e.phase i).live = true ∧ ∃ h, e.held i = some h ∧ h.me = e.owner

def begun (e : Engine) (i : Nat) : List Step :=
  (e.steps.filter fun entry => entry.1 = i).map Prod.snd

def closers (e : Engine) (channel : Nat) : List Nat :=
  (e.closed.filter fun entry => entry.1 = channel).map Prod.snd

end Engine

namespace Sound

variable {e e' : Engine} {queue : List Nat} {i : Nat}

theorem carries_unique (sound : Sound e queue) {j : Nat} (one : (e.phase i).carries = true)
    (two : (e.phase j).carries = true) : i = j := by
  have front {k : Nat} (carries : (e.phase k).carries = true) : e.front (e.phase k) = true := by
    revert carries
    cases e.phase k <;> simp [Phase.carries, Engine.front]
  obtain ⟨rest, rfl⟩ := sound.head_of_front (front one)
  obtain ⟨rest', same⟩ := sound.head_of_front (front two)
  exact (List.cons.inj same).1

theorem restarting_iff (sound : Sound e queue) :
    e.restarting = true ↔ ∃ i, e.HoldsSlot i := by
  rw [sound.flag]
  constructor
  · intro taken
    cases last : queue.getLast? with
    | none => simp [sound.queue.empty (getLast?_eq_none_iff.mp last)] at taken
    | some i =>
      obtain ⟨h, holds, owns, -⟩ := sound.queue.last i last
      refine ⟨i, ?_, h, holds, owns⟩
      by_contra isOver
      exact sound.queue.replaced i (mem_of_getLast? last) (by simpa using isOver) h holds owns
  · rintro ⟨i, live, -⟩
    have member := sound.queue.outside i live
    cases last : queue.getLast? with
    | none => rw [getLast?_eq_none_iff.mp last] at member; cases member
    | some j =>
      obtain ⟨h, -, -, taken⟩ := sound.queue.last j last
      rw [taken]
      rfl

/-- A channel is closed once, by the call whose it is, when that call ends. -/
theorem closers_eq (sound : Sound e queue) {h : Held} (holds : e.held i = some h) :
    e.closers h.done = if e.shut i = some h.done then [i] else [] := by
  have own : e.closed.filter (fun entry => entry.1 = h.done) =
      e.closed.filter fun entry => entry == (h.done, i) := by
    refine filter_congr fun entry member => ?_
    obtain ⟨channel, j⟩ := entry
    obtain ⟨k, holdsJ, same⟩ := Engine.held_of_shut ((sound.closes _ _).mp member)
    have owner (equal : channel = h.done) : j = i :=
      sound.numbers.distinct j i k holdsJ h holds (.inr (same.trans equal))
    by_cases equal : channel = h.done
    · simp [equal, owner equal]
    · simp [equal]
  rw [Engine.closers, own, filter_beq]
  split
  next shut =>
    rw [count_eq_one_of_mem sound.once ((sound.closes _ _).mpr shut)]
    rfl
  next unshut =>
    rw [count_eq_zero.mpr fun member => unshut ((sound.closes _ _).mp member)]
    rfl

theorem result_newest (sound : Sound e queue) (newest : e.claims.head? = some i) :
    (e.phase i).result ≠ some .superseded := by
  obtain ⟨h, holds, owns⟩ := sound.newest i newest
  have honest := sound.honest i
  unfold Engine.held at holds
  revert holds honest
  cases e.phase i with
  | ended held result =>
    intro holds honest
    obtain rfl : held = some h := holds
    simpa [Phase.result] using honest.resolve_right (not_not.mpr owns)
  | leaving held result | closing held result =>
    intro holds honest
    obtain rfl : held = h := Option.some.inj holds
    simpa [Phase.result] using honest.resolve_right (not_not.mpr owns)
  | _ => simp [Phase.result]

/-- A call that was replaced stays replaced and begins no further step. -/
theorem replaced_moved (sound : Sound e queue) (moved : Moved e e') (replaced : e.Replaced i) :
    e'.Replaced i ∧ e'.begun i = e.begun i := by
  obtain ⟨h, holds, other⟩ := replaced
  have claimed {j : Nat} {p : Phase} (idle : e.phase j = .idle) :
      ((e.reconnectClaim j).2.set j p).Replaced i := by
    have apart : i ≠ j := fun same => by
      rw [Engine.held, same, idle] at holds
      cases holds
    refine ⟨h, ?_, ?_⟩
    · rw [Engine.held_set, update_of_ne apart]
      exact holds
    · have := (sound.numbers.below i h holds).1
      exact (Nat.lt_succ_of_le this).ne
  cases moved with
  | turnedAway idle _ =>
    refine ⟨⟨h, ?_, other⟩, rfl⟩
    rw [Engine.held_set_of_eq (by rw [Engine.held, idle]; rfl)]
    exact holds
  | entered idle _ _ | queued idle _ => exact ⟨claimed idle, rfl⟩
  | @shifted j held p since running steps parked was _ now _ _ begun _ =>
    constructor
    · refine ⟨h, ?_, other⟩
      rw [Engine.held_set_of_eq (e := { e with since, running, steps, parked }) (now.trans was.symm)]
      exact holds
    · rcases begun with rfl | ⟨name, rfl, owns⟩
      · rfl
      · have apart : j ≠ i := fun same => by
          subst same
          obtain rfl : held = h := Option.some.inj (was.symm.trans holds)
          exact other owns.symm
        simp [Engine.begun, Engine.set, apart]
  | landed parked => exact ⟨⟨h, holds, other⟩, rfl⟩
  | released was mine =>
    rw [Engine.reconnectRelease, if_pos mine]
    refine ⟨⟨h, ?_, other⟩, rfl⟩
    rw [Engine.held_set_of_eq (by rw [Engine.held, was]; rfl)]
    exact holds
  | closed was =>
    refine ⟨⟨h, ?_, other⟩, rfl⟩
    rw [held_close was]
    exact holds

end Sound

variable {how : Nat → How} {e e' : Engine}

theorem Reconnects.sound (run : Reconnects how {} e) : ∃ queue, Sound e queue :=
  run.invariant (fun e => ∃ queue, Sound e queue) ⟨[], .first⟩
    fun {_ _ _} ⟨_, sound⟩ patient taken => sound.moved (.of_next taken patient)

theorem Reconnects.begun_eq {i : Nat} (run : Reconnects how {} e) (onward : Reconnects how e e')
    (replaced : e.Replaced i) : e'.begun i = e.begun i := by
  obtain ⟨-, -, same⟩ := onward.invariant
    (fun e' => (∃ queue, Sound e' queue) ∧ e'.Replaced i ∧ e'.begun i = e.begun i)
    ⟨run.sound, replaced, rfl⟩
    fun {_ _ _} ⟨⟨_, sound⟩, replaced, same⟩ patient taken =>
      have moved := Moved.of_next taken patient
      have ⟨stays, kept⟩ := sound.replaced_moved moved replaced
      ⟨sound.moved moved, stays, kept.trans same⟩
  exact same

/-- In every interleaving of any number of reconnects in which each wait ends by
the replaced one stopping: no two are ever at work at the same time, and what runs beside the one
at work are commands another was told had timed out; one that
was replaced begins no further step; the restarting flag is set exactly while
some call holds the slot; each channel is closed once, by its own call as that
ends; and a forced call after which no other claims is never told it was replaced. -/
theorem reconnects_oneAtATime (run : Reconnects how {} e) :
    (∀ i j, (e.phase i).carries = true → (e.phase j).carries = true → i = j) ∧
    (∀ i j what, (e.phase i).carries = true → e.Runs j what → i = j ∨ (j, what) ∈ e.parked) ∧
    (∀ i e', e.Replaced i → Reconnects how e e' → e'.begun i = e.begun i) ∧
    (e.restarting = true ↔ ∃ i, e.HoldsSlot i) ∧
    (∀ i h, e.held i = some h → e.closers h.done = if e.shut i = some h.done then [i] else []) ∧
    (∀ i channel, i ∈ e.closers channel → ∃ h, e.held i = some h ∧ h.done = channel) ∧
    ∀ i, (how i).force = true → e.claims.head? = some i →
      (e.phase i).result ≠ some .superseded := by
  obtain ⟨queue, sound⟩ := run.sound
  refine ⟨fun i j => sound.carries_unique, fun i j what works runs =>
      runs.imp_left fun tells => sound.carries_unique works (Phase.carries_of_tells tells),
    fun i e' replaced onward => run.begun_eq onward replaced, sound.restarting_iff,
    fun i h => sound.closers_eq, fun i channel closer => ?_,
    fun i _ => sound.result_newest⟩
  obtain ⟨⟨c, j⟩, entry, rfl⟩ := mem_map.mp closer
  obtain ⟨member, same⟩ := mem_filter.mp entry
  obtain rfl : c = channel := of_decide_eq_true same
  exact Engine.held_of_shut ((sound.closes _ _).mp member)

/-- Acts one after another; one that cannot be taken is left out. -/
def acted (how : Nat → How) (e : Engine) (acts : List Act) : Engine :=
  acts.foldl (fun e act => (e.next how act).getD e) e

theorem reconnects_acted (how : Nat → How) (e : Engine) {acts : List Act}
    (patient : ∀ act ∈ acts, act.patient = true) : Reconnects how e (acted how e acts) := by
  induction acts generalizing e with
  | nil => exact .refl
  | cons act acts ih =>
    have rest := ih ((e.next how act).getD e) fun act later =>
      patient act (mem_cons_of_mem _ later)
    change Reconnects how e (acted how ((e.next how act).getD e) acts)
    cases taken : e.next how act with
    | none =>
      rw [taken] at rest
      exact rest
    | some e' =>
      rw [taken] at rest
      have one : Reconnects how e e' := .snoc .refl taken (patient act mem_cons_self)
      exact one.trans rest

def secondForced : Nat → How := fun i => ⟨i = 1, false⟩

/-- The first call gets to its first step and is replaced there by the second. -/
def taking : List Act :=
  .call 0 false false 0 :: List.replicate 6 (.move 0 false none 1) ++ [.call 1 false false 1]

/-- The first call stops at its next step, and the second goes on. -/
def takenOver : List Act :=
  List.replicate 6 (.move 0 false none 2) ++ [.release 0, .close 0, .wake 1] ++
    List.replicate 7 (.move 1 false none 3)

theorem reconnects_oneAtATime_takenOver :
    let e := acted secondForced {} taking
    let e' := acted secondForced e takenOver
    e.claims = [1, 0] ∧ e.begun 0 = [.start] ∧ e'.begun 1 = [.start] ∧ e'.closers 0 = [0] ∧
      (e'.phase 0).result = some .superseded ∧ e'.begun 0 = e.begun 0 := by
  intro e e'
  have run : Reconnects secondForced {} e := reconnects_acted _ _ (by decide)
  have onward : Reconnects secondForced e e' := reconnects_acted _ _ (by decide)
  refine ⟨by decide, by decide, by decide, by decide,
    by decide, (reconnects_oneAtATime run).2.2.1 0 e' ⟨⟨1, 0⟩, by decide, ?_⟩ onward⟩
  decide

def timedOut : String := "control port timeout on DisableNetwork 0"

/-- The first call is told that its command to put tor on the network timed out, and ends; the
second gets to taking tor off. -/
def outlived : List Act :=
  .call 0 false false 0 ::
    (List.replicate 26 [Act.move 0 false none 1, .reply 0 .done]).flatten ++
    [.move 0 false none 1, .leave 0 timedOut] ++ List.replicate 9 (.move 0 false none 1) ++
    [.release 0, .close 0, .call 1 false false 99] ++ List.replicate 12 (.move 1 false none 99)

theorem runs_beside_outlived :
    let e := acted secondForced {} outlived
    Reconnects secondForced {} e ∧ (e.phase 0).result = some (.failed timedOut) ∧
      e.closers 0 = [0] ∧ e.Runs 0 .enableNetwork ∧ e.Runs 1 .disableNetwork ∧
      e.begun 1 = [.networkOff, .start] := by
  intro e
  exact ⟨reconnects_acted _ _ (by decide), by decide +kernel, by decide +kernel,
    .inr (by decide +kernel), .inl (by decide +kernel), by decide +kernel⟩

end Kryfo.Reconnect
