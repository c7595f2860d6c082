import Kryfo.Media.Send

/-!
# Where the slices of a send are

The slices of a send are jobs dealt out to its workers.  So none is taken twice, and while nothing
stops the send none is lost.
-/

namespace Kryfo.Media

open Library List

def Phase.hand : Phase → Option Nat
  | .reading i | .sealing i | .onion i _ _ | .key i _ _ | .firstContact i _ _ | .relay i _ _
  | .pair i | .pausing i _ _ => some i
  | .top | .asking | .askingHere | .onionKey _ | .resting | .ended | .threw => none

/-- The worker still runs, with no slice it has to put down as landed. -/
def Phase.plain : Phase → Bool
  | .onionKey _ | .ended | .threw => false
  | _ => true

namespace Send

def taken (takes : List (Nat × Route)) : List Nat :=
  (takes.filter fun t => t.2 ≠ .copy).map Prod.fst

def deal (s : Send) : Deal where
  next := s.next
  queue := s.retryQueue
  hand := fun w => (s.phase w).hand
  finished := taken s.takes

structure Calm (s : Send) : Prop where
  failure : s.failure = none
  parked : s.parked = false
  blocked : s.blocked = false
  unthrown : ∀ w, s.phase w ≠ .threw

structure Sound (s : Send) : Prop where
  once : s.deal.Once
  takes : s.takes.Nodup
  copies : ∀ i, (i, Route.copy) ∈ s.takes → (i, Route.onion) ∈ s.takes
  done : ∀ i ∈ s.done, i ∈ s.began ∨ i ∈ taken s.takes
  landing : ∀ w i, s.phase w = .onionKey i → (i, Route.onion) ∈ s.takes ∧
    (i, Route.copy) ∉ s.takes ∧ ∀ w', s.phase w' = .onionKey i → w' = w
  covers : s.Calm → s.deal.Covers (· ∈ s.began) s.total
  ends : s.Calm → (∃ w < s.pool, s.phase w ≠ .ended) ∨ s.retryQueue = [] ∧ s.total ≤ s.next

theorem mem_taken {takes : List (Nat × Route)} {i : Nat} :
    i ∈ taken takes ↔ ∃ r, r ≠ Route.copy ∧ (i, r) ∈ takes := by
  simp [taken, and_comm]

theorem deal_put (s : Send) (w : Nat) (p : Phase) :
    (s.put w p).deal = { s.deal with hand := Function.update s.deal.hand w p.hand } := by
  unfold deal put
  congr 1
  funext w'
  by_cases same : w' = w
  · subst same
    simp
  · simp [same]

variable {p : Phase}

theorem deal_put_of_eq {s : Send} {w : Nat} (same : p.hand = (s.phase w).hand) :
    (s.put w p).deal = s.deal := by
  rw [deal_put, same]
  change { s.deal with hand := Function.update s.deal.hand w (s.deal.hand w) } = s.deal
  rw [Function.update_eq_self]

theorem deal_put_of_none {s : Send} {w : Nat} (none : p.hand = none) :
    (s.put w p).deal = s.deal.release w := by
  rw [deal_put, none]
  rfl

variable {s : Send} {w i : Nat} {a : Answer}

theorem phase_put_self : (s.put w p).phase w = p := Function.update_self ..

theorem phase_put_of_ne {w' : Nat} (other : w' ≠ w) :
    (s.put w p).phase w' = s.phase w' := Function.update_of_ne other ..

theorem Calm.of_put (calm : (s.put w p).Calm) (was : s.phase w ≠ .threw) : s.Calm where
  failure := calm.failure
  parked := calm.parked
  blocked := calm.blocked
  unthrown := fun w' => by
    by_cases same : w' = w
    · exact same ▸ was
    · exact phase_put_of_ne (s := s) (p := p) same ▸ calm.unthrown w'

namespace Sound

theorem fields (sound : Sound s) (attempts : Nat → Nat) (onionDead : Bool) (xpub : Option String)
    (pairWay : Option Bool) (stamp : Option Int) :
    Sound { s with attempts, onionDead, xpub, pairWay, stamp } where
  once := sound.once
  takes := sound.takes
  copies := sound.copies
  done := sound.done
  landing := sound.landing
  covers := fun calm =>
    sound.covers ⟨calm.failure, calm.parked, calm.blocked, calm.unthrown⟩
  ends := fun calm =>
    sound.ends ⟨calm.failure, calm.parked, calm.blocked, calm.unthrown⟩

/-- A worker in another phase that is not an answered onion: what lands stays. -/
theorem landing_put (sound : Sound s) (other : ∀ i, p ≠ .onionKey i) :
    ∀ w' i, (s.put w p).phase w' = .onionKey i → (i, Route.onion) ∈ s.takes ∧
      (i, Route.copy) ∉ s.takes ∧ ∀ w'', (s.put w p).phase w'' = .onionKey i → w'' = w' := by
  have still (w' i : Nat) (lands : (s.put w p).phase w' = .onionKey i) :
      s.phase w' = .onionKey i := by
    by_cases same : w' = w
    · rw [same, phase_put_self] at lands
      exact absurd lands (other i)
    · rwa [phase_put_of_ne same] at lands
  intro w' i lands
  obtain ⟨onion, copy, only⟩ := sound.landing w' i (still w' i lands)
  exact ⟨onion, copy, fun w'' lands' => only w'' (still w'' i lands')⟩

theorem stay (sound : Sound s) (inside : w < s.pool) (was : s.phase w ≠ .threw)
    (same : p.hand = (s.phase w).hand) (plain : p.plain = true) : Sound (s.put w p) where
  once := by
    rw [deal_put_of_eq same]
    exact sound.once
  takes := sound.takes
  copies := sound.copies
  done := sound.done
  landing := sound.landing_put fun i lands => by
    rw [lands] at plain
    cases plain
  covers := fun calm => by
    rw [deal_put_of_eq same]
    exact sound.covers (calm.of_put was)
  ends := fun _ => .inl ⟨w, inside, fun ended => by
    rw [phase_put_self] at ended
    rw [ended] at plain
    cases plain⟩

theorem stop (sound : Sound s) {failure : Option Failure} {parked held blocked : Bool}
    (stopped : failure ≠ none ∨ parked = true ∨ blocked = true) :
    Sound ({ s with failure, parked, held, blocked }.put w .ended) := by
  have storm : ¬({ s with failure, parked, held, blocked }.put w .ended).Calm := fun calm => by
    rcases stopped with failed | parks | blocks
    · exact failed calm.failure
    · cases parks.symm.trans calm.parked
    · cases blocks.symm.trans calm.blocked
  refine ⟨?_, sound.takes, sound.copies, sound.done, ?_, fun calm => absurd calm storm,
    fun calm => absurd calm storm⟩
  · rw [deal_put_of_none rfl]
    exact sound.once.release w
  · exact sound.landing_put nofun

theorem threw (sound : Sound s) : Sound (s.put w .threw) := by
  have storm : ¬(s.put w .threw).Calm := fun calm => calm.unthrown w phase_put_self
  refine ⟨?_, sound.takes, sound.copies, sound.done, sound.landing_put nofun,
    fun calm => absurd calm storm, fun calm => absurd calm storm⟩
  rw [deal_put_of_none rfl]
  exact sound.once.release w

theorem atTop (sound : Sound s) (inside : w < s.pool) (was : s.phase w ≠ .threw)
    (free : (s.phase w).hand = none) : Sound (s.atTop w a) := by
  unfold Send.atTop
  split
  next stopped => exact sound.stop stopped
  split
  · exact sound.stop (.inl nofun)
  split
  · exact sound.stop (.inr (.inl rfl))
  · exact sound.stay inside was free.symm rfl

end Sound

theorem skipDone_spec (done : List Nat) (fuel n : Nat) :
    n ≤ skipDone done fuel n ∧ skipDone done fuel n ≤ n + fuel ∧
      ∀ k, n ≤ k → k < skipDone done fuel n → k ∈ done := by
  fun_induction skipDone done fuel n with
  | case1 n => exact ⟨Nat.le_refl n, Nat.le_refl n, fun k above below => by omega⟩
  | case2 fuel n member ih =>
    obtain ⟨above, below, skipped⟩ := ih
    refine ⟨by omega, by omega, fun k low high => ?_⟩
    rcases Nat.eq_or_lt_of_le low with rfl | later
    · exact member
    · exact skipped k later high
  | case3 fuel n absent => exact ⟨Nat.le_refl n, by omega, fun k above below => by omega⟩

namespace Sound

theorem takeChunk (sound : Sound s) (inside : w < s.pool) (was : s.phase w ≠ .threw)
    (free : (s.phase w).hand = none) : Sound (s.takeChunk w) := by
  have freeHand : s.deal.hand w = none := free
  unfold Send.takeChunk
  split
  next i rest queue =>
    have head : s.deal.queue.head? = some i := by
      change s.retryQueue.head? = some i
      rw [queue]
      rfl
    have dealt : ({ s with retryQueue := rest }.put w (.reading i)).deal = s.deal.takeQueued w i := by
      rw [deal_put]
      change Deal.mk s.next rest _ _ = Deal.mk s.next s.retryQueue.tail _ _
      rw [queue]
      rfl
    refine ⟨?_, sound.takes, sound.copies, sound.done, ?_, fun calm => ?_, fun _ => ?_⟩
    · rw [dealt]
      exact sound.once.takeQueued head
    · exact sound.landing_put (by simp)
    · rw [dealt]
      exact (sound.covers (Calm.of_put (s := s) ⟨calm.failure, calm.parked, calm.blocked,
        calm.unthrown⟩ was)).takeQueued freeHand head
    · exact .inl ⟨w, inside, by rw [phase_put_self]; simp⟩
  next empty =>
    dsimp only
    obtain ⟨above, below, skipped⟩ := skipDone_spec s.done (s.total - s.next) s.next
    generalize skipDone s.done (s.total - s.next) s.next = n at above below skipped ⊢
    have skippedTaken (k : Nat) (low : s.deal.next ≤ k) (high : k < n) :
        k ∈ s.began ∨ k ∈ s.deal.finished := sound.done k (skipped k low high)
    split
    next past =>
      have dealt : ({ s with next := n }.put w .ended).deal = s.deal.skipTo n := by
        have same : Phase.ended.hand = (s.phase w).hand := free.symm
        rw [deal_put_of_eq (s := { s with next := n }) same]
        rfl
      refine ⟨?_, sound.takes, sound.copies, sound.done, sound.landing_put (by simp), fun calm => ?_,
        fun _ => .inr ⟨empty, past⟩⟩
      · rw [dealt]
        exact sound.once.skipTo above
      · rw [dealt]
        exact (sound.covers (Calm.of_put (s := s) ⟨calm.failure, calm.parked, calm.blocked,
          calm.unthrown⟩ was)).skipTo skippedTaken
    next left =>
      have dealt : ({ s with next := n + 1 }.put w (.reading n)).deal = s.deal.takeNext w n := by
        rw [deal_put]
        rfl
      refine ⟨?_, sound.takes, sound.copies, sound.done, sound.landing_put (by simp), fun calm => ?_,
        fun _ => .inl ⟨w, inside, by rw [phase_put_self]; simp⟩⟩
      · rw [dealt]
        exact sound.once.takeNext above
      · rw [dealt]
        exact (sound.covers (Calm.of_put (s := s) ⟨calm.failure, calm.parked, calm.blocked,
          calm.unthrown⟩ was)).takeNext freeHand skippedTaken

variable {err : String}

theorem sliceFailed (sound : Sound s) (inside : w < s.pool) (holds : (s.phase w).hand = some i) :
    Sound (s.sliceFailed w i err) := by
  have was : s.phase w ≠ .threw := fun threw => by
    rw [threw] at holds
    cases holds
  unfold Send.sliceFailed
  dsimp only
  split
  · exact (sound.fields (Function.update s.attempts i (s.attempts i + 1)) s.onionDead s.xpub
      s.pairWay s.stamp).stop (.inl nofun)
  · have dealt : ({ s with
        attempts := Function.update s.attempts i (s.attempts i + 1)
        retryQueue := s.retryQueue ++ [i] }.put w .resting).deal = s.deal.putBack w i := by
      rw [deal_put]
      rfl
    refine ⟨?_, sound.takes, sound.copies, sound.done, sound.landing_put nofun, fun calm => ?_,
      fun _ => .inl ⟨w, inside, by rw [phase_put_self]; nofun⟩⟩
    · rw [dealt]
      exact sound.once.putBack holds
    · rw [dealt]
      exact (sound.covers (Calm.of_put (s := s) ⟨calm.failure, calm.parked, calm.blocked,
        calm.unthrown⟩ was)).putBack holds

theorem untaken (sound : Sound s) (holds : (s.phase w).hand = some i) (r : Route) :
    (i, r) ∉ s.takes := by
  have fresh : i ∉ taken s.takes := sound.once.held w i holds
  intro member
  by_cases copy : r = .copy
  · subst copy
    exact fresh (mem_taken.mpr ⟨.onion, nofun, sound.copies i member⟩)
  · exact fresh (mem_taken.mpr ⟨r, copy, member⟩)

/-- A route took the slice in hand: it has landed, or the worker waits for their key. -/
theorem took (sound : Sound s) {r : Route} {done : List Nat} (inside : w < s.pool)
    (holds : (s.phase w).hand = some i) (route : r ≠ .copy) (free : p.hand = none)
    (runs : p ≠ .ended) (waits : ∀ j, p = .onionKey j → j = i ∧ r = .onion)
    (grown : ∀ j ∈ done, j = i ∨ j ∈ s.done) :
    Sound ({ s with takes := (i, r) :: s.takes, done }.put w p) := by
  have was : s.phase w ≠ .threw := fun threw => by
    rw [threw] at holds
    cases holds
  have takenNow : taken ((i, r) :: s.takes) = i :: taken s.takes := by simp [taken, route]
  have dealt : ({ s with takes := (i, r) :: s.takes, done }.put w p).deal = s.deal.finish w i := by
    rw [deal_put, free]
    unfold deal
    rw [takenNow]
    rfl
  have still (w' : Nat) (other : w' ≠ w) :
      ({ s with takes := (i, r) :: s.takes, done }.put w p).phase w' = s.phase w' :=
    phase_put_of_ne other
  have uncopied {j : Nat} (before : (j, Route.copy) ∉ s.takes) :
      (j, Route.copy) ∉ (i, r) :: s.takes := fun member => by
    rcases mem_cons.mp member with same | earlier
    · exact route (Prod.mk.inj same).2.symm
    · exact before earlier
  refine ⟨?_, ?_, ?_, ?_, ?_, fun calm => ?_, fun _ => ?_⟩
  · rw [dealt]
    exact sound.once.finish holds
  · exact nodup_cons.mpr ⟨sound.untaken holds r, sound.takes⟩
  · intro j member
    by_cases before : (j, Route.copy) ∈ s.takes
    · exact mem_cons_of_mem _ (sound.copies j before)
    · exact absurd member (uncopied before)
  · intro j member
    change j ∈ s.began ∨ j ∈ taken ((i, r) :: s.takes)
    rw [takenNow]
    rcases grown j member with rfl | before
    · exact .inr mem_cons_self
    · exact (sound.done j before).imp_right (mem_cons_of_mem _)
  · intro w' j lands
    by_cases same : w' = w
    · subst same
      rw [phase_put_self] at lands
      obtain ⟨rfl, rfl⟩ := waits j lands
      refine ⟨mem_cons_self, uncopied (sound.untaken holds .copy), fun w'' lands' => ?_⟩
      by_contra other
      rw [still w'' other] at lands'
      exact sound.untaken holds .onion (sound.landing w'' j lands').1
    · rw [still w' same] at lands
      obtain ⟨onion, copy, only⟩ := sound.landing w' j lands
      refine ⟨mem_cons_of_mem _ onion, uncopied copy, fun w'' lands' => ?_⟩
      by_cases here : w'' = w
      · subst here
        rw [phase_put_self] at lands'
        obtain ⟨rfl, -⟩ := waits j lands'
        exact absurd onion (sound.untaken holds .onion)
      · rw [still w'' here] at lands'
        exact only w'' lands'
  · rw [dealt]
    exact (sound.covers (Calm.of_put (s := s) ⟨calm.failure, calm.parked, calm.blocked,
      calm.unthrown⟩ was)).finish holds
  · exact .inl ⟨w, inside, by rw [phase_put_self]; exact runs⟩

theorem copy (sound : Sound s) (onion : (i, Route.onion) ∈ s.takes)
    (first : (i, Route.copy) ∉ s.takes) (landed : ∀ w, s.phase w ≠ .onionKey i) :
    Sound { s with takes := (i, .copy) :: s.takes } where
  once := sound.once
  takes := nodup_cons.mpr ⟨first, sound.takes⟩
  copies := by
    intro j member
    rcases mem_cons.mp member with same | before
    · rw [(Prod.mk.inj same).1]
      exact mem_cons_of_mem _ onion
    · exact mem_cons_of_mem _ (sound.copies j before)
  done := sound.done
  landing := by
    intro w j lands
    obtain ⟨onion, copy, only⟩ := sound.landing w j lands
    refine ⟨mem_cons_of_mem _ onion, fun member => ?_, only⟩
    rcases mem_cons.mp member with same | before
    · exact landed w ((Prod.mk.inj same).1 ▸ lands)
    · exact copy before
  covers := fun calm =>
    sound.covers ⟨calm.failure, calm.parked, calm.blocked, calm.unthrown⟩
  ends := fun calm =>
    sound.ends ⟨calm.failure, calm.parked, calm.blocked, calm.unthrown⟩

theorem land (sound : Sound s) (inside : w < s.pool) (lands : s.phase w = .onionKey i) :
    Sound ({ s with done := s.done.insert i }.put w .top) := by
  have onion := (sound.landing w i lands).1
  have rest := sound.stay inside (p := .top) (by rw [lands]; nofun) (by rw [lands]; rfl) rfl
  refine ⟨rest.once, rest.takes, rest.copies, ?_, rest.landing, fun calm => rest.covers
    ⟨calm.failure, calm.parked, calm.blocked, calm.unthrown⟩, fun calm => rest.ends
    ⟨calm.failure, calm.parked, calm.blocked, calm.unthrown⟩⟩
  intro j member
  rcases mem_insert_iff.mp member with rfl | before
  · exact .inr (mem_taken.mpr ⟨.onion, nofun, onion⟩)
  · exact sound.done j before

theorem landed (inside : w < s.pool)
    (put : Sound ({ s with done := s.done.insert i }.put w .top)) : Sound (s.landed w i a) := by
  refine atTop (put.fields s.attempts s.onionDead s.xpub s.pairWay _) inside ?_ ?_
  · rw [phase_put_self]
    nofun
  · rw [phase_put_self]
    rfl

theorem insert_grown (done : List Nat) : ∀ j ∈ done.insert i, j = i ∨ j ∈ done :=
  fun _ member => mem_insert_iff.mp member

theorem tookTop (sound : Sound s) {r : Route} (inside : w < s.pool)
    (holds : (s.phase w).hand = some i) (route : r ≠ .copy) :
    Sound ({ s with takes := (i, r) :: s.takes, done := s.done.insert i }.put w .top) :=
  sound.took inside holds route rfl nofun nofun (insert_grown s.done)

theorem copied (sound : Sound ({ s with done := s.done.insert i }.put w .top))
    (onion : (i, Route.onion) ∈ s.takes) (first : (i, Route.copy) ∉ s.takes)
    (only : ∀ w', s.phase w' = .onionKey i → w' = w) :
    Sound ({ s.copied i a with done := (s.copied i a).done.insert i }.put w .top) := by
  unfold Send.copied
  split
  · refine sound.copy onion first fun w' lands => ?_
    by_cases same : w' = w
    · rw [same, phase_put_self] at lands
      cases lands
    · rw [phase_put_of_ne same] at lands
      exact same (only w' lands)
  · exact sound

theorem pool_copied : (s.copied i a).pool = s.pool := by
  unfold Send.copied
  split <;> rfl

theorem byRelay (sound : Sound s) {n : Nat} (inside : w < s.pool)
    (holds : (s.phase w).hand = some i) : Sound (s.byRelay w i n err a) := by
  have was : s.phase w ≠ .threw := fun threw => by
    rw [threw] at holds
    cases holds
  unfold Send.byRelay
  dsimp only
  split
  · exact sound.stay inside was holds.symm rfl
  split <;> exact sound.stay inside was holds.symm rfl

theorem withKey (sound : Sound s) {n : Nat} (inside : w < s.pool)
    (holds : (s.phase w).hand = some i) : Sound (s.withKey w i n err a) := by
  have was : s.phase w ≠ .threw := fun threw => by
    rw [threw] at holds
    cases holds
  unfold Send.withKey
  split
  · exact sound.stay inside was holds.symm rfl
  · exact sound.byRelay inside holds

theorem attempt (sound : Sound s) {n : Nat} (inside : w < s.pool)
    (holds : (s.phase w).hand = some i) : Sound (s.attempt w i n err a) := by
  have was : s.phase w ≠ .threw := fun threw => by
    rw [threw] at holds
    cases holds
  unfold Send.attempt
  split
  · exact sound.sliceFailed inside holds
  split
  · exact sound.stay inside was holds.symm rfl
  · exact sound.withKey inside holds

theorem onRelay (sound : Sound s) (inside : w < s.pool) (holds : (s.phase w).hand = some i) :
    Sound (s.onRelay w i a) := by
  unfold Send.onRelay
  split
  · exact sound.stop (.inr (.inl rfl))
  · exact landed (s := { s with takes := (i, .relay) :: s.takes }) inside
      (sound.tookTop inside holds nofun)

theorem onion (sound : Sound s) {n : Nat} (inside : w < s.pool) (at' : s.phase w = .onion i n err) :
    Sound (s.resume w a) := by
  have holds : (s.phase w).hand = some i := by rw [at']; rfl
  unfold Send.resume
  rw [at']
  dsimp only
  split
  · split
    · exact sound.took inside holds nofun rfl nofun (fun j same => ⟨(Phase.onionKey.inj same).symm, rfl⟩)
        fun j member => .inr member
    · refine landed (by rw [pool_copied]; exact inside) (copied ?_ mem_cons_self ?_ ?_)
      · exact sound.tookTop inside holds nofun
      · intro member
        rcases mem_cons.mp member with same | before
        · cases same
        · exact sound.untaken holds .copy before
      · intro w' lands
        exact absurd (sound.landing w' i lands).1 (sound.untaken holds .onion)
  · exact (sound.fields s.attempts true s.xpub s.pairWay s.stamp).withKey inside holds

theorem resume (sound : Sound s) (inside : w < s.pool) : Sound (s.resume w a) := by
  cases here : s.phase w with
  | onion i n err => exact sound.onion inside here
  | top | resting =>
    rw [Send.resume, here]
    exact sound.atTop inside (by rw [here]; nofun) (by rw [here]; rfl)
  | asking =>
    rw [Send.resume, here]
    dsimp only
    split
    · split
      · exact sound.stay inside (by rw [here]; nofun) (by rw [here]; rfl) rfl
      · exact sound.stop (.inr (.inl rfl))
    · exact sound.takeChunk inside (by rw [here]; nofun) (by rw [here]; rfl)
  | askingHere =>
    rw [Send.resume, here]
    dsimp only
    split
    · exact sound.stop (.inr (.inr rfl))
    · exact sound.stop (.inr (.inl rfl))
  | reading i =>
    rw [Send.resume, here]
    dsimp only
    split
    · exact sound.stay inside (by rw [here]; nofun) (by rw [here]; rfl) rfl
    · exact sound.stop (.inl nofun)
  | sealing i =>
    rw [Send.resume, here]
    dsimp only
    split
    · exact sound.attempt inside (by rw [here]; rfl)
    · exact sound.stop (.inr (.inl rfl))
    · exact sound.stop (.inl nofun)
  | onionKey i =>
    obtain ⟨onion, first, only⟩ := sound.landing w i here
    rw [Send.resume, here]
    refine landed (by rw [pool_copied]; exact inside) (copied ?_ onion first only)
    exact (sound.land inside here).fields s.attempts s.onionDead a.key s.pairWay s.stamp
  | key i n err =>
    rw [Send.resume, here]
    exact (sound.fields s.attempts s.onionDead a.key s.pairWay s.stamp).byRelay inside
      (by change (s.phase w).hand = some i; rw [here]; rfl)
  | firstContact i n err =>
    rw [Send.resume, here]
    dsimp only
    split
    · exact landed (s := { s with takes := (i, .firstContact) :: s.takes }) inside
        (sound.tookTop inside (by rw [here]; rfl) nofun)
    · exact sound.stay inside (by rw [here]; nofun) (by rw [here]; rfl) rfl
  | relay i n err =>
    rw [Send.resume, here]
    dsimp only
    split
    · split
      · exact sound.stay inside (by rw [here]; nofun) (by rw [here]; rfl) rfl
      · exact sound.onRelay inside (by rw [here]; rfl)
    · exact sound.stay inside (by rw [here]; nofun) (by rw [here]; rfl) rfl
  | pair i =>
    rw [Send.resume, here]
    exact (sound.fields s.attempts s.onionDead s.xpub (some a.yes) s.stamp).onRelay inside
      (by change (s.phase w).hand = some i; rw [here]; rfl)
  | pausing i n err =>
    rw [Send.resume, here]
    exact sound.attempt inside (by rw [here]; rfl)
  | ended | threw =>
    rw [Send.resume, here]
    exact sound

theorem throws (sound : Sound s) : Sound (s.throws w) := by
  unfold Send.throws
  split <;> first | exact sound.threw | exact sound

end Sound

end Send

end Kryfo.Media
