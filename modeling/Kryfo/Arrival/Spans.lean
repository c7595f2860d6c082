import Kryfo.Arrival.Placed

/-!
# What a block that ended still keeps out

What someone wrote after their last block is to come in, and what reached the relay during one
is to stay out, whatever its stamps say.
-/

namespace Kryfo.Arrival

def kUnblockGrace : Int := 10 * 60 * 1000

def kStampAhead : Int := 10 * 60 * 1000

structure Span where
  start : Int
  stop : Int
  deriving DecidableEq, Repr

/-- The moment `stampHeld` takes the message to be written at. -/
def stampOf (first : Int) (wrapped : Option Int) (now : Int) : Int :=
  let stamp := match wrapped with
    | some w => if 0 < w ∧ w < first then w else first
    | none => first
  if now + kStampAhead < stamp then now else stamp

/-- How far behind this clock the sender's may run. -/
def slackOf (wrapped : Option Int) (came : Int) : Int :=
  match wrapped with
  | some w => if w ≤ 0 then kUnblockGrace else clamp (came - w) 0 kUnblockGrace
  | none => kUnblockGrace

def stampHeld (ended : List Span) (written wrapped : Option Int) (came now : Int) : Bool :=
  match written.or wrapped with
  | none => false
  | some first =>
    if first ≤ 0 then false
    else
      let stamp := stampOf first wrapped now
      ended.any fun span => span.start ≤ stamp ∧ stamp + slackOf wrapped came < span.stop

/-- One turn of the loop of `heldBySpans`. -/
def heldBySpan (r : Reached) (now : Int) (written wrapped : Option Int) (span : Span) : Bool :=
  if r.reachUntil ≤ span.start then false
  else if r.reachUntil ≤ span.stop then true
  else
    match wrapped with
    | none => stampHeld [span] written none r.reachUntil now
    | some wrap =>
      if r.reachFrom < span.stop then stampHeld [span] written (some wrap) r.reachUntil now
      else
        let age := match written with
          | some written => if written < wrap then wrap - written else 0
          | none => 0
        let wrote := r.reachUntil - age
        span.start ≤ wrote ∧ wrote < span.stop

def heldBySpans (ended : List Span) (reached : Option Reached) (came now : Int)
    (written wrapped : Option Int) : Bool :=
  match reached with
  | none => stampHeld ended written wrapped came now
  | some r => ended.any (heldBySpan r now written wrapped)

/-- A message and its moments by the clock of this phone, up to when it is judged. -/
structure Journey where
  wrote : Int
  wrapped : Int
  reached : Int
  came : Int
  now : Int
  wrapped_after : wrote ≤ wrapped
  reached_after : wrapped ≤ reached
  came_after : reached ≤ came
  now_after : came ≤ now

/-- The stamps of a message, by a clock that is `ahead`, where they are there: of the moment it was
written, and of the second it was wrapped in. -/
structure Stamps (ahead : Int) (j : Journey) (written wrapped : Option Int) : Prop where
  wrote : ∀ stamp ∈ written, stamp = j.wrote + ahead
  wrap : ∀ stamp ∈ wrapped, wrappedAt ahead j.wrapped = some stamp

variable {j : Journey} {ahead came : Int} {written wrapped : Option Int}

theorem slackOf_nonneg : 0 ≤ slackOf wrapped came := by
  simp only [slackOf, clamp, kUnblockGrace]
  split
  · split <;> omega
  · omega

/-- How far behind the sender's clock may run: the grace, less what the whole seconds of a wrap can
leave out. -/
def graceOf (wrapped : Option Int) : Int :=
  if wrapped.isSome then kUnblockGrace - 998 else kUnblockGrace

/-- The stamp and its slack reach the moment the message was written, or the one before. -/
theorem wrote_le_stampOf (slow : -graceOf wrapped ≤ ahead) (stamps : Stamps ahead j written wrapped)
    (later : j.wrapped ≤ came) {first : Int} (given : written.or wrapped = some first) :
    j.wrote ≤ stampOf first wrapped j.now + slackOf wrapped came + 1 := by
  have slack := @slackOf_nonneg came wrapped
  have wrapAfter := j.wrapped_after
  have past : j.wrote ≤ j.now := by
    have := j.reached_after
    have := j.came_after
    have := j.now_after
    omega
  cases wrapped with
  | none =>
    obtain rfl := stamps.wrote first (by simpa using given)
    simp only [stampOf, slackOf, graceOf, Option.isSome_none] at slow slack ⊢
    split <;> omega
  | some w =>
    obtain ⟨seconds, rfl⟩ := wrappedAt_eq_some_iff.mp (stamps.wrap w rfl)
    have isFirst : first = j.wrote + ahead ∨
        first = j.wrapped + ahead - (j.wrapped + ahead) % 1000 := by
      cases written with
      | none => exact .inr (by simpa using given.symm)
      | some stamp => exact .inl (stamps.wrote first (by simpa using given))
    simp only [stampOf, slackOf, graceOf, clamp, Option.isSome_some, if_true] at slow slack ⊢
    split_ifs <;> omega

theorem stampHeld_eq_false (slow : -graceOf wrapped ≤ ahead) (stamps : Stamps ahead j written wrapped)
    (later : j.wrapped ≤ came) {ended : List Span} (after : ∀ span ∈ ended, span.stop < j.wrote) :
    stampHeld ended written wrapped came j.now = false := by
  unfold stampHeld
  split
  · rfl
  · next first given =>
    split
    · rfl
    · have reaches := wrote_le_stampOf slow stamps later given
      simp only [List.any_eq_false, decide_eq_true_eq]
      intro span spanMem _
      have := after span spanMem
      omega

theorem heldBySpan_eq_false {r : Reached} {span : Span} (stamps : Stamps ahead j written wrapped)
    (past : j.reached ≤ r.reachUntil) (after : span.stop < j.wrote)
    (judged : written.isSome ∧ wrapped.isSome ∧ span.stop ≤ r.reachFrom ∨ -graceOf wrapped ≤ ahead) :
    heldBySpan r j.now written wrapped span = false := by
  have wrapAfter := j.wrapped_after
  have reachedAfter := j.reached_after
  have byStamps (slow : -graceOf wrapped ≤ ahead) :=
    @stampHeld_eq_false j ahead r.reachUntil written wrapped slow stamps (by omega) [span]
      (by simpa using after)
  simp only [heldBySpan]
  split
  · rfl
  split
  · omega
  cases wrapped with
  | none => exact byStamps (by simpa using judged)
  | some wrap =>
    obtain ⟨-, rfl⟩ := wrappedAt_eq_some_iff.mp (stamps.wrap wrap rfl)
    dsimp only
    split
    · exact byStamps (judged.resolve_left fun known => by omega)
    -- The age the stamps tell is not more than the true one.
    cases written with
    | none =>
      simp only [decide_eq_false_iff_not]
      omega
    | some stamp =>
      obtain rfl := stamps.wrote stamp rfl
      dsimp only
      split <;> simp only [decide_eq_false_iff_not, not_and] <;> omega

/-- What was written after the last block ended comes in: whatever the clock of its sender
when it is known to have come after every block and both stamps are there, else with a clock
that is at most ten minutes behind, or a second less where the wrap is stamped. What came under a
block stays out. -/
theorem unblock_judged (ended : List Span) :
    (∀ (j : Journey) (ahead : Int) (written wrapped : Option Int),
      (∀ span ∈ ended, span.stop < j.wrote) → Stamps ahead j written wrapped →
      (∀ r : Reached, r.reachFrom ≤ j.reached → j.reached ≤ r.reachUntil →
        (∀ span ∈ ended, span.stop ≤ r.reachFrom) → written.isSome → wrapped.isSome →
        heldBySpans ended (some r) j.came j.now written wrapped = false) ∧
      (-graceOf wrapped ≤ ahead → ∀ reached : Option Reached,
        (∀ r ∈ reached, r.reachFrom ≤ j.reached ∧ j.reached ≤ r.reachUntil) →
        heldBySpans ended reached j.came j.now written wrapped = false)) ∧
    (∀ (r : Reached) (came now : Int) (written wrapped : Option Int),
      (∃ span ∈ ended, span.start < r.reachUntil ∧ r.reachUntil ≤ span.stop) →
      heldBySpans ended (some r) came now written wrapped = true) := by
  refine ⟨fun j ahead written wrapped after stamps => ⟨?_, ?_⟩, ?_⟩
  · intro r _ past known wrote wrap
    exact List.any_eq_false.mpr fun span spanMem => by
      simp [heldBySpan_eq_false stamps past (after span spanMem)
        (.inl ⟨wrote, wrap, known span spanMem⟩)]
  · intro slow reached bounds
    cases reached with
    | none =>
      have := j.reached_after
      have := j.came_after
      exact stampHeld_eq_false slow stamps (by omega) after
    | some r =>
      exact List.any_eq_false.mpr fun span spanMem => by
        simp [heldBySpan_eq_false stamps (bounds r rfl).2 (after span spanMem) (.inr slow)]
  · rintro r came now written wrapped ⟨span, spanMem, started, notOver⟩
    refine List.any_eq_true.mpr ⟨span, spanMem, ?_⟩
    simp only [heldBySpan, if_neg (not_le.mpr started), if_pos notOver]

/-- Written a minute after a block of an hour ended and gone two minutes later. -/
def afterBlock : Journey :=
  ⟨3660000, 3780500, 3780500, 3790000, 3800000, by decide, by decide, by decide, by decide⟩

def hourBlocked : Span := ⟨0, 3600000⟩

/-- The clock is almost an hour behind for the first, ten minutes for the second. -/
theorem unblock_judged_hour :
    heldBySpans [hourBlocked] (some ⟨3700000, 3790000⟩) afterBlock.came afterBlock.now
        (some 160000) (some 280000) = false ∧
      heldBySpans [hourBlocked] none afterBlock.came afterBlock.now (some 3060000) none = false ∧
      heldBySpans [hourBlocked] (some ⟨0, 3600000⟩) 0 0 none none = true := by
  refine ⟨?_, ?_, ?_⟩
  · exact ((unblock_judged [hourBlocked]).1 afterBlock (-3500000) (some 160000) (some 280000)
      (by decide) ⟨by decide, by decide⟩).1 ⟨3700000, 3790000⟩
      (by decide) (by decide) (by decide) (by decide) (by decide)
  · exact ((unblock_judged [hourBlocked]).1 afterBlock (-600000) (some 3060000) none
      (by decide) ⟨by decide, by simp⟩).2 (by decide) none (by simp)
  · exact (unblock_judged [hourBlocked]).2 ⟨0, 3600000⟩ 0 0 none none
      ⟨hourBlocked, by simp, by decide, by decide⟩

/-- Written and wrapped in the last millisecond of a second of a clock that is not quite ten minutes
behind, just after a block. -/
def lastMoment : Journey :=
  ⟨3601002, 3601002, 3601002, 3700000, 3700000, by decide, by decide, by decide, by decide⟩

theorem held_under_tenMinutes :
    Stamps (-599003) lastMoment (some 3001999) (some 3001000) ∧ -kUnblockGrace < -599003 ∧
      3601001 < lastMoment.wrote ∧
      heldBySpans [⟨0, 3601001⟩] none lastMoment.came lastMoment.now (some 3001999) (some 3001000) =
        true :=
  ⟨⟨by decide, by decide⟩, by decide, by decide, by decide⟩

end Kryfo.Arrival
