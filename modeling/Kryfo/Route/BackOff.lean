import Kryfo.Library.Run
import Kryfo.Route.Watch

/-!
# The back-off between rescues

Rescues that bring no relay back come further and further apart.  The gaps are read off a log of
the rescues, of the answers that count and of where the record was made fresh, newest first.
-/

namespace Kryfo.Route

open Library

theorem rescueGap_eq (n : Nat) : rescueGap n = min (15 * minute) (2 ^ n * minute) := by
  unfold rescueGap
  dsimp only
  by_cases large : 4 < n
  · have most : 2 ^ 5 ≤ 2 ^ n := Nat.pow_le_pow_right (by decide) large
    have times : 2 ^ 5 * minute ≤ 2 ^ n * minute := Nat.mul_le_mul_right minute most
    rw [if_pos (.inl large)]
    omega
  · rw [mul_comm]
    split <;> omega

theorem minute_le_rescueGap (n : Nat) : minute ≤ rescueGap n := by
  have one : 1 * minute ≤ 2 ^ n * minute := Nat.mul_le_mul_right minute (Nat.one_le_two_pow)
  rw [rescueGap_eq]
  omega

/-- A stalled bootstrap waits longer than the gap asks for. -/
theorem rescueGap_le_stallLimit (n : Nat) : rescueGap n ≤ stallLimit n := by
  have gap := rescueGap_eq n
  unfold stallLimit
  dsimp only
  split
  · omega
  · rw [Nat.mul_assoc, mul_comm minute]
    omega

theorem le_rescueJitter (roll : Nat) (d : Nat) : d * 9 / 10 ≤ rescueJitter roll d :=
  Nat.le_add_right _ _

theorem passed_some {t now : Int} {wait : Nat} :
    passed (some t) wait now = true ↔ t + wait ≤ now := by
  simp [passed]

namespace Watch

/-- A decision let a bounce go: the gap was over, or the bootstrap stood still long enough. -/
structure Rescued (r : Watch) (look : Look) (r' : Watch) : Prop where
  rescues : r'.rescues = r.rescues + 1
  last : r'.lastRescue = some look.now
  wait : r'.rescueWait = rescueJitter look.roll (rescueGap r'.rescues)
  stall : r'.stallPct = -1
  due : passed r.lastRescue r.rescueWait look.now ∨
    (r.stallPct ≠ -1 ∧ passed r.stallSince (stallLimit r.rescues) look.now)

/-- A decision let no bounce go: only the clocks of a spell move. -/
structure Quiet (r : Watch) (look : Look) (r' : Watch) : Prop where
  rescues : r'.rescues = r.rescues
  last : r'.lastRescue = r.lastRescue
  wait : r'.rescueWait = r.rescueWait
  stall : r'.stallPct = -1 ∨ r'.stallSince = some look.now ∨
    (r'.stallPct = r.stallPct ∧ r'.stallSince = r.stallSince)

def Decided (r : Watch) (look : Look) (answer : Option Why × Watch) : Prop :=
  if answer.1.any Why.bounces then Rescued r look answer.2 else Quiet r look answer.2

variable {r : Watch} {look : Look}

theorem Quiet.decided {why : Option Why} {r' : Watch} (quiet : Quiet r look r')
    (calm : why.any Why.bounces = false) : Decided r look (why, r') := by
  rw [Decided, if_neg (by simp [calm])]
  exact quiet

theorem Quiet.refl : Quiet r look r :=
  ⟨rfl, rfl, rfl, .inr (.inr ⟨rfl, rfl⟩)⟩

theorem rescued_noteRescue (stall : r.stallPct = -1) (isOver : r.gapOver look = true) :
    Rescued r look (r.noteRescue look.now look.roll) :=
  ⟨rfl, rfl, rfl, stall, .inl isOver⟩

theorem decided_whenReady (stall : r.stallPct = -1) : Decided r look (r.whenReady look) := by
  unfold whenReady
  dsimp only
  have still {why : Option Why} {r' : Watch} (calm : why.any Why.bounces = false)
      (rescues : r'.rescues = r.rescues) (last : r'.lastRescue = r.lastRescue)
      (wait : r'.rescueWait = r.rescueWait) (pct : r'.stallPct = -1) :
      Decided r look (why, r') := Quiet.decided ⟨rescues, last, wait, .inl pct⟩ calm
  have bounce (failing : Int) : Decided r look
      (if !r.gapOver look then (none, r)
        else (some (.relays failing), r.noteRescue look.now look.roll)) := by
    cases isOver : r.gapOver look with
    | false => exact Quiet.refl.decided rfl
    | true => exact rescued_noteRescue stall isOver
  split
  · exact Quiet.refl.decided rfl
  split
  · split
    · split
      · exact Quiet.refl.decided rfl
      split <;> exact still rfl rfl rfl rfl stall
    split
    · exact Quiet.refl.decided rfl
    · exact bounce _
  · exact bounce _

theorem decided_whenStarting : Decided r look (r.whenStarting look) := by
  unfold whenStarting
  split
  · exact Quiet.decided ⟨rfl, rfl, rfl, .inr (.inl rfl)⟩ rfl
  next same =>
    split
    · exact Quiet.refl.decided rfl
    next isOver =>
      have pct : r.stallPct ≠ -1 := by omega
      exact ⟨rfl, rfl, rfl, rfl, .inr ⟨pct, by simpa using isOver⟩⟩

theorem decided_whenOff (stall : r.stallPct = -1) : Decided r look (r.whenOff look) := by
  unfold whenOff
  split
  · exact Quiet.decided ⟨rfl, rfl, rfl, .inl stall⟩ rfl
  split
  · exact Quiet.refl.decided rfl
  cases isOver : r.gapOver look with
  | false => exact Quiet.refl.decided rfl
  | true => exact rescued_noteRescue stall isOver

theorem Decided.of_settle {answer : Option Why × Watch}
    (decided : Decided (r.settle look) look answer) : Decided r look answer := by
  have pct : (r.settle look).stallPct = -1 ∨ (r.settle look).stallPct = r.stallPct := by
    unfold settle
    split
    · exact .inl rfl
    · exact .inr rfl
  unfold Decided at decided ⊢
  split at decided
  next bounced =>
    rw [if_pos bounced]
    refine ⟨decided.rescues, decided.last, decided.wait, decided.stall, ?_⟩
    rcases decided.due with isOver | ⟨moved, isOver⟩
    · exact .inl isOver
    · exact .inr ⟨(pct.resolve_left moved) ▸ moved, isOver⟩
  next calm =>
    rw [if_neg calm]
    refine ⟨decided.rescues, decided.last, decided.wait, ?_⟩
    rcases decided.stall with forgot | moved | ⟨samePct, sameSince⟩
    · exact .inl forgot
    · exact .inr (.inl moved)
    · rcases pct with none | same
      · exact .inl (samePct.trans none)
      · exact .inr (.inr ⟨samePct.trans same, sameSince⟩)

theorem decided_routeNeedsRescue (r : Watch) (look : Look) :
    Decided r look (r.routeNeedsRescue look) := by
  unfold routeNeedsRescue
  split
  · exact Quiet.refl.decided rfl
  apply Decided.of_settle
  have forgets (other : look.torStatus ≠ .starting) : (r.settle look).stallPct = -1 := by
    simp [settle, other]
  split
  next status => exact decided_whenReady (forgets (by simp [status]))
  next status => exact decided_whenReady (forgets (by simp [status]))
  next status => exact decided_whenReady (forgets (by simp [status]))
  next => exact decided_whenStarting
  next status =>
    split
    · exact decided_whenOff (forgets (by simp [status]))
    · exact Quiet.refl.decided rfl

theorem routeAnswered_eq (r : Watch) (u : String) (gen : Int) :
    ∃ answeredIn, r.routeAnswered u gen = { r with answeredIn } := by
  unfold routeAnswered
  dsimp only
  generalize (if gen < 0 then r.routeGen else gen) = now
  split
  · exact ⟨_, rfl⟩
  · exact ⟨r.answeredIn, rfl⟩

end Watch

/-- What the log tells: a rescue, an answer that counts, or that the record was made fresh. -/
inductive Entry
  | rescue (time : Int)
  | answer
  | fresh
  deriving DecidableEq

def inRow : List Entry → Nat
  | .rescue _ :: log => inRow log + 1
  | _ => 0

/-- The rescues since the record was last made fresh. -/
def rescueTimes : List Entry → List Int
  | [] | .fresh :: _ => []
  | .rescue t :: log => t :: rescueTimes log
  | .answer :: log => rescueTimes log

/-- Every rescue comes the gap, less a tenth, after the one before. -/
def Spaced : List Entry → Prop
  | [] => True
  | .rescue t :: log =>
    (∀ t' ∈ (rescueTimes log).head?, t' + (rescueGap (inRow log) * 9 / 10 : Nat) ≤ t) ∧ Spaced log
  | .answer :: log | .fresh :: log => Spaced log

theorem Spaced.of_append {later log : List Entry} (spaced : Spaced (later ++ log)) :
    Spaced log := by
  induction later with
  | nil => exact spaced
  | cons entry later ih =>
    cases entry with
    | rescue t => exact ih spaced.2
    | answer | fresh => exact ih spaced

/-- No two rescues are closer than the least gap, less a tenth. -/
theorem Spaced.pairwise {log : List Entry} (spaced : Spaced log) :
    (rescueTimes log).Pairwise fun (t t' : Int) => t' + (minute * 9 / 10 : Nat) ≤ t := by
  induction log with
  | nil => exact .nil
  | cons entry log ih =>
    cases entry with
    | answer => exact ih spaced
    | fresh => exact .nil
    | rescue t =>
      have rest := ih spaced.2
      refine List.pairwise_cons.mpr ⟨fun t' member => ?_, rest⟩
      have first := spaced.1
      have least := minute_le_rescueGap (inRow log)
      cases times : rescueTimes log with
      | nil => simp [times] at member
      | cons newest older =>
        rw [times] at member rest first
        have gap := first newest rfl
        rcases List.mem_cons.mp member with rfl | earlier
        · omega
        · have := (List.pairwise_cons.mp rest).1 t' earlier
          omega

structure Watched where
  watch : Watch := {}
  log : List Entry := []
  decidedAt : Option Int := none

/-- What changes the record under `routeMu`.  It is made fresh when the network changed, and by
`reconnectNowFor` on the same network. -/
inductive Act
  | decide (look : Look)
  | noteOK (roll : Nat)
  | aliveOn (modeNeedsTor bounceOff : Bool) (gen : Int) (u : String) (roll : Nat)
  | answered (u : String) (gen : Int)
  | noteFail (isOwnRelay : Bool) (u : String) (now : Int) (roll : Nat)
  | bump
  | freshNetwork

namespace Watched

def fresh (r : Watch) : Watched := { watch := r.routeFreshNetwork }

def decide (w : Watched) (look : Look) : Watched :=
  let (why, r) := w.watch.routeNeedsRescue look
  { watch := r
    log := if why.any Why.bounces then .rescue look.now :: w.log else w.log
    decidedAt := some look.now }

/-- A connect worked, on the generation there is (`counts`) or an older one. -/
def heard (w : Watched) (counts : Bool) (r : Watch) : Watched :=
  { w with watch := r, log := if counts then .answer :: w.log else w.log }

def present (w : Watched) (gen : Int) : Bool := Decidable.decide (gen < 0 ∨ gen = w.watch.routeGen)

def next (w : Watched) : Act → Watched
  | .decide look => w.decide look
  | .noteOK roll => w.heard true (w.watch.routeNoteOK roll)
  | .aliveOn modeNeedsTor bounceOff gen u roll =>
    w.heard (modeNeedsTor && !bounceOff && w.present gen)
      (w.watch.routeAliveOn modeNeedsTor bounceOff gen u roll)
  | .answered u gen => { w with watch := w.watch.routeAnswered u gen }
  | .noteFail isOwnRelay u now roll =>
    { w with watch := w.watch.routeNoteFail isOwnRelay u now roll }
  | .bump => { w with watch := w.watch.routeBump }
  | .freshNetwork => { w with watch := w.watch.routeFreshNetwork, log := .fresh :: w.log }

end Watched

def Act.timely (w : Watched) : Act → Bool
  | .decide look => w.decidedAt.all fun t => Decidable.decide (t ≤ look.now)
  | _ => true

/-- The count and the last rescue are the log's, the wait is at least the gap
less a tenth, and a bootstrap that stands still was seen after the last rescue. -/
structure Sound (w : Watched) : Prop where
  count : w.watch.rescues = inRow w.log
  last : w.watch.lastRescue = (rescueTimes w.log).head?
  decided : ∀ t ∈ w.watch.lastRescue, ∃ now ∈ w.decidedAt, t ≤ now
  wait : ∀ t ∈ w.watch.lastRescue, rescueGap w.watch.rescues * 9 / 10 ≤ w.watch.rescueWait
  stall : w.watch.stallPct ≠ -1 → ∀ t ∈ w.watch.lastRescue, ∃ since ∈ w.watch.stallSince, t ≤ since
  spaced : Spaced w.log

namespace Sound

variable {w : Watched}

theorem fresh (r : Watch) : Sound (.fresh r) where
  count := rfl
  last := rfl
  decided := nofun
  wait := nofun
  stall := fun moved => absurd rfl moved
  spaced := trivial

theorem same (sound : Sound w) {r : Watch} (rescues : r.rescues = w.watch.rescues)
    (last : r.lastRescue = w.watch.lastRescue) (wait : r.rescueWait = w.watch.rescueWait)
    (stallPct : r.stallPct = w.watch.stallPct) (stallSince : r.stallSince = w.watch.stallSince) :
    Sound { w with watch := r } where
  count := rescues.trans sound.count
  last := last.trans sound.last
  decided := by rw [last]; exact sound.decided
  wait := by rw [last, rescues, wait]; exact sound.wait
  stall := by rw [last, stallPct, stallSince]; exact sound.stall
  spaced := sound.spaced

theorem answer (sound : Sound w) {r : Watch} (roll : Nat) (rescues : r.rescues = 0)
    (last : r.lastRescue = w.watch.lastRescue)
    (wait : r.rescueWait = rescueJitter roll (rescueGap 0))
    (stallPct : r.stallPct = w.watch.stallPct) (stallSince : r.stallSince = w.watch.stallSince) :
    Sound (w.heard true r) where
  count := rescues
  last := last.trans sound.last
  decided := by
    change ∀ t ∈ r.lastRescue, _
    rw [last]
    exact sound.decided
  wait := by
    intro t member
    change rescueGap r.rescues * 9 / 10 ≤ r.rescueWait
    rw [rescues, wait]
    exact le_rescueJitter roll _
  stall := by
    change r.stallPct ≠ -1 → ∀ t ∈ r.lastRescue, ∃ since ∈ r.stallSince, t ≤ since
    rw [last, stallPct, stallSince]
    exact sound.stall
  spaced := sound.spaced

theorem noteOK (sound : Sound w) (roll : Nat) : Sound (w.next (.noteOK roll)) :=
  sound.answer roll rfl rfl rfl rfl rfl

theorem answered (sound : Sound w) (u : String) (gen : Int) : Sound (w.next (.answered u gen)) := by
  obtain ⟨answeredIn, eq⟩ := w.watch.routeAnswered_eq u gen
  change Sound { w with watch := w.watch.routeAnswered u gen }
  rw [eq]
  exact sound.same rfl rfl rfl rfl rfl

theorem aliveOn (sound : Sound w) (needed off : Bool) (gen : Int) (u : String) (roll : Nat) :
    Sound (w.next (.aliveOn needed off gen u roll)) := by
  unfold Watched.next Watch.routeAliveOn
  dsimp only
  by_cases away : (!needed || off) = true
  · have uncounted : (needed && !off && w.present gen) = false := by
      cases needed <;> cases off <;> simp_all
    rw [uncounted, if_pos away]
    exact sound
  · have counted : (needed && !off && w.present gen) = w.present gen := by
      cases needed <;> cases off <;> simp_all
    rw [counted, if_neg away, Watch.routeNoteOKAt]
    by_cases older : gen ≥ 0 ∧ gen ≠ w.watch.routeGen
    · have stale : w.present gen = false := by
        simp only [Watched.present, decide_eq_false_iff_not]
        omega
      rw [if_pos older, stale]
      exact sound
    · have now : w.present gen = true := by
        simp only [Watched.present, decide_eq_true_eq]
        omega
      rw [if_neg older, now]
      obtain ⟨answeredIn, eq⟩ := Watch.routeAnswered_eq (w.watch.routeNoteOKAt (-1) roll).2 u gen
      exact eq ▸ sound.answer roll rfl rfl rfl rfl rfl

theorem noteFail (sound : Sound w) (own : Bool) (u : String) (now : Int) (roll : Nat) :
    Sound (w.next (.noteFail own u now roll)) := by
  unfold Watched.next Watch.routeNoteFail
  dsimp only
  split
  · exact sound
  split <;> exact sound.same rfl rfl rfl rfl rfl

/-- A rescue comes at least the gap, less a tenth, after the last. -/
theorem due (sound : Sound w) {look : Look} {r : Watch} (rescued : w.watch.Rescued look r) :
    ∀ t ∈ w.watch.lastRescue, t + (rescueGap (inRow w.log) * 9 / 10 : Nat) ≤ look.now := by
  intro t last
  have wait := sound.wait t last
  have limit := rescueGap_le_stallLimit w.watch.rescues
  rw [← sound.count]
  rcases rescued.due with isOver | ⟨moved, isOver⟩
  · rw [Option.mem_def.mp last, passed_some] at isOver
    omega
  · obtain ⟨since, seen, later⟩ := sound.stall moved t last
    rw [Option.mem_def.mp seen, passed_some] at isOver
    omega

theorem decide (sound : Sound w) {look : Look} (timely : Act.timely w (.decide look)) :
    Sound (w.next (.decide look)) := by
  have decided := w.watch.decided_routeNeedsRescue look
  change Sound (w.decide look)
  unfold Watched.decide
  generalize w.watch.routeNeedsRescue look = answer at decided ⊢
  obtain ⟨why, r⟩ := answer
  unfold Watch.Decided at decided
  dsimp only at decided ⊢
  split at decided
  next bounced =>
    rw [if_pos bounced]
    refine ⟨?_, decided.last, ?_, ?_, fun moved => absurd decided.stall moved, ?_, sound.spaced⟩
    · change r.rescues = inRow w.log + 1
      rw [decided.rescues, sound.count]
    · intro t last
      refine ⟨look.now, rfl, ?_⟩
      rw [decided.last, Option.mem_some_iff] at last
      exact last.ge
    · intro t _
      rw [decided.wait]
      exact le_rescueJitter _ _
    · rw [← sound.last]
      exact sound.due decided
  next calm =>
    rw [if_neg calm]
    have notAfter : ∀ t ∈ w.watch.lastRescue, t ≤ look.now := by
      intro t last
      obtain ⟨was, seen, notAfter⟩ := sound.decided t last
      rw [Act.timely, Option.mem_def.mp seen] at timely
      exact notAfter.trans (by simpa using timely)
    refine ⟨?_, ?_, ?_, ?_, ?_, sound.spaced⟩
    · exact decided.rescues.trans sound.count
    · exact decided.last.trans sound.last
    · rw [decided.last]
      exact fun t last => ⟨look.now, rfl, notAfter t last⟩
    · rw [decided.last, decided.rescues, decided.wait]
      exact sound.wait
    · rw [decided.last]
      intro moved t last
      rcases decided.stall with forgot | seen | ⟨pct, since⟩
      · exact absurd forgot moved
      · exact ⟨look.now, seen, notAfter t last⟩
      · rw [since]
        exact sound.stall (pct ▸ moved) t last

theorem next (sound : Sound w) {act : Act} (timely : act.timely w) : Sound (w.next act) := by
  cases act with
  | decide look => exact sound.decide timely
  | noteOK roll => exact sound.noteOK roll
  | aliveOn needed off gen u roll => exact sound.aliveOn needed off gen u roll
  | answered u gen => exact sound.answered u gen
  | noteFail own u now roll => exact sound.noteFail own u now roll
  | bump => exact sound.same rfl rfl rfl rfl rfl
  | freshNetwork => exact ⟨rfl, rfl, nofun, nofun, fun moved => absurd rfl moved, sound.spaced⟩

end Sound

/-- The runs from whatever was kept before a network came. -/
abbrev Watches (r : Watch) : Watched → Prop :=
  Run (fun w act w' => w' = w.next act) (fun w act => act.timely w = true) (.fresh r)

theorem Watches.sound {r : Watch} {w : Watched} (run : Watches r w) : Sound w :=
  run.invariant Sound (.fresh r) fun {_ _ _} sound timely taken => taken ▸ sound.next timely

/-- In every run a rescue that follows others with no answer
that counts and no fresh record in between comes no sooner than the doubling gap, capped at
its most and less a tenth, says; no two rescues between which the record was not made fresh are
closer than the least gap less a tenth; and the count is of the rescues since the record was made
fresh or an answer counted: an answer of the present generation, noted while tor is needed and on the
network. -/
theorem rescues_backOff {r : Watch} {w : Watched} (run : Watches r w) :
    (∀ later older : List Entry, ∀ t t' : Int, w.log = later ++ .rescue t' :: .rescue t :: older →
      t + (min (15 * minute) (2 ^ inRow (.rescue t :: older) * minute) * 9 / 10 : Nat) ≤ t') ∧
    (∀ later older : List Entry, w.log = later ++ older →
      (rescueTimes older).Pairwise fun (t' t : Int) => t + (minute * 9 / 10 : Nat) ≤ t') ∧
    w.watch.rescues = inRow w.log ∧
    ∀ (gen : Int) (u : String) (roll : Nat), gen < 0 ∨ gen = w.watch.routeGen →
      (w.next (.aliveOn true false gen u roll)).watch.rescues = 0 := by
  have sound := run.sound
  refine ⟨fun later older t t' eq => ?_, fun later older eq => ?_, sound.count,
    fun gen u roll present => ?_⟩
  · have spaced := sound.spaced
    rw [eq] at spaced
    have gap := spaced.of_append.1 t rfl
    rwa [rescueGap_eq] at gap
  · have spaced := sound.spaced
    rw [eq] at spaced
    exact spaced.of_append.pairwise
  · have answered := (sound.aliveOn true false gen u roll).count
    have counts : w.present gen = true := by simpa [Watched.present] using present
    rw [answered, Watched.next, counts]
    rfl

/-- Tor is off and stays off: two rescues, the second as soon as it may come. -/
def offTwice : List Act :=
  [.decide { now := 0, torStatus := .off }, .decide { now := 15 * second, torStatus := .off },
    .decide { now := 123 * second, torStatus := .off }]

theorem rescues_backOff_offTwice :
    Watches {} (offTwice.foldl Watched.next (.fresh {})) ∧
      (offTwice.foldl Watched.next (.fresh {})).log =
        [.rescue (123 * second), .rescue (15 * second)] ∧
      (15 * second : Int) + (min (15 * minute) (2 ^ 1 * minute) * 9 / 10 : Nat) ≤ 123 * second :=
  have run : Watches {} (offTwice.foldl Watched.next (.fresh {})) :=
    Run.of_allowed _ _ (by decide)
  ⟨run, by decide, (rescues_backOff run).1 [] [] _ _ (by decide)⟩

/-- Somebody asks for a reconnect right after a rescue, and tor stays off. -/
def askedBetween : List Act :=
  offTwice.take 2 ++ [.freshNetwork, .bump, .decide { now := 17 * second, torStatus := .off },
    .decide { now := 32 * second, torStatus := .off }]

/-- Two rescues come seventeen seconds apart with a reconnect asked for between them.  An answer
does not reset the count when its connection is of an older generation, when a bounce has tor off
the network, or when the mode does not need tor. -/
theorem rescues_close_and_kept :
    (Watches {} (askedBetween.foldl Watched.next (.fresh {})) ∧
      (askedBetween.foldl Watched.next (.fresh {})).log =
        [.rescue (32 * second), .fresh, .rescue (15 * second)]) ∧
    ∃ w, Watches {} w ∧ w.watch.routeGen = 1 ∧ w.watch.rescues = 1 ∧
      (w.next (.aliveOn true false 0 "wss://relay" 0)).watch.rescues = 1 ∧
      (w.next (.aliveOn true true 1 "wss://relay" 0)).watch.rescues = 1 ∧
      (w.next (.aliveOn false false 1 "wss://relay" 0)).watch.rescues = 1 :=
  ⟨⟨Run.of_allowed _ _ (by decide), by decide⟩,
    (offTwice.take 2 ++ [Act.bump]).foldl Watched.next (.fresh {}),
    Run.of_allowed _ _ (by decide), by decide⟩

end Kryfo.Route
