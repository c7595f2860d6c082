import Mathlib
import Kryfo.Library.Dict

/-!
# The route watch

The watch decides at intervals whether tor needs a rescue: relays that fail while tor says ready, a
bootstrap that does not move, or a tor that is off, as in `engine/route.go`.  A duration is in
nanoseconds; a zero time of the source is `none`, which every wait since then is over for.
-/

namespace Kryfo.Route

open Library

def second : Nat := 1000000000

def minute : Nat := 60 * second

/-- How long relays may all fail while tor claims ready. -/
def deadFor : Nat := 60 * second

/-- How long tor may sit off before the watch brings it back. -/
def offFor : Nat := 15 * second

/-- How long a dead spell's first step gets before the bounce. -/
def circuitsFor : Nat := minute

def circuitsGap : Nat := 10 * minute

def probeGap : Nat := 5 * minute

/-- The least time between two rescues after `n` of them in a row. -/
def rescueGap (n : Nat) : Nat :=
  let d := minute * 2 ^ n
  if n > 4 ∨ d > 15 * minute then 15 * minute else d

/-- How long a bootstrap may sit at one percentage before it is bounced. -/
def stallLimit (n : Nat) : Nat :=
  let d := 3 * minute * 2 ^ n
  if n > 3 ∨ d > 30 * minute then 30 * minute else d

/-- A tenth either way, by the number the source of chance gave. -/
def rescueJitter (roll : Nat) (d : Nat) : Nat :=
  d * 9 / 10 + roll % (d / 5 + 1)

structure Watch where
  failedSinceOK : List String := []
  firstFailAt : Option Int := none
  routeGen : Int := 0
  okGen : Int := -1
  rescues : Nat := 0
  lastRescue : Option Int := none
  rescueWait : Nat := 0
  deadWait : Nat := 0
  circuitsAt : Option Int := none
  circuitsNext : Nat := 0
  probeAt : Option Int := none
  probeNext : Nat := 0
  spellStepAt : Option Int := none
  spellStepHold : Nat := 0
  answeredIn : Dict String Int := .empty
  stallPct : Int := -1
  stallSince : Option Int := none
  offSince : Option Int := none

def before : Option Int → Option Int → Bool
  | none, some _ => true
  | some a, some b => decide (a < b)
  | _, none => false

/-- At least `wait` has passed at `now` since a time. -/
def passed (since : Option Int) (wait : Nat) (now : Int) : Bool :=
  match since with
  | none => true
  | some t => decide (t + wait ≤ now)

/-- How long it has been since a time, for the reason that is logged. -/
def sub (now : Int) (since : Option Int) : Int :=
  match since with
  | none => now
  | some t => now - t

namespace Watch

variable (r : Watch)

/-- A connect of generation `gen` (below zero: now) worked.  One from before a
bounce does not count. -/
def routeNoteOKAt (gen : Int) (roll : Nat) : Bool × Watch :=
  if gen ≥ 0 ∧ gen ≠ r.routeGen then (false, r)
  else
    (true, { r with
      failedSinceOK := []
      firstFailAt := none
      okGen := r.routeGen
      rescues := 0
      deadWait := 0
      rescueWait := rescueJitter roll (rescueGap 0) })

def routeNoteOK (roll : Nat) : Watch := (r.routeNoteOKAt (-1) roll).2

/-- Relay `u` answered in generation `gen` (below zero: now). -/
def routeAnswered (u : String) (gen : Int) : Watch :=
  let gen := if gen < 0 then r.routeGen else gen
  if gen = r.routeGen then { r with answeredIn := r.answeredIn.set u gen } else r

/-- Relay `u` answered through tor on a connection of generation `gen`. -/
def routeAliveOn (modeNeedsTor bounceOff : Bool) (gen : Int) (u : String) (roll : Nat) : Watch :=
  if !modeNeedsTor || bounceOff then r
  else
    let (counted, r) := r.routeNoteOKAt gen roll
    if counted then r.routeAnswered u gen else r

def routeNoteFail (isOwnRelay : Bool) (u : String) (now : Int) (roll : Nat) : Watch :=
  if !isOwnRelay ∧ r.okGen = r.routeGen ∧ r.answeredIn.lookup u ≠ some r.routeGen then r
  else
    let r :=
      if r.failedSinceOK.length = 0 then
        { r with firstFailAt := some now, deadWait := rescueJitter roll deadFor }
      else r
    { r with failedSinceOK := r.failedSinceOK.insert u }

def routeBump : Watch :=
  { r with
    routeGen := r.routeGen + 1
    deadWait := 0
    failedSinceOK := []
    firstFailAt := none }

def routeFreshNetwork : Watch :=
  { r with
    rescues := 0
    lastRescue := none
    rescueWait := 0
    circuitsAt := none
    circuitsNext := 0
    spellStepAt := none
    probeAt := none
    probeNext := 0
    stallPct := -1
    offSince := none }

def noteRescue (now : Int) (roll : Nat) : Watch :=
  { r with
    rescues := r.rescues + 1
    lastRescue := some now
    rescueWait := rescueJitter roll (rescueGap (r.rescues + 1)) }

end Watch

/-- What tor's status says. -/
inductive Status
  | off
  | starting
  | bootstrapped
  | publishing
  | reachable
  deriving DecidableEq

/-- What one decision reads before it takes the lock, and the numbers that
chance gives it. -/
structure Look where
  now : Int
  modeNeedsTor : Bool := true
  torIsPaused : Bool := false
  netOffline : Bool := false
  autoGateHeld : Bool := false
  reconnectRunning : Bool := false
  torRestarting : Bool := false
  torStatus : Status
  bootstrapPct : Nat := 0
  torUp : Bool := true
  roll : Nat := 0
  roll' : Nat := 0

inductive Why
  | circuits (failing : Int)
  | probe (failing : Int)
  | relays (failing : Int)
  | stall (pct : Nat) (still : Int)
  | off (quiet : Int)
  deriving DecidableEq

/-- The text of a reason, with its length of time written out. -/
def Why.text (written : Int → String) : Why → String
  | .circuits failing => "new circuits: every relay has failed for " ++ written failing
  | .probe failing => "probe: every relay has failed for " ++ written failing
  | .relays failing => "tor says ready but every relay has failed for " ++ written failing
  | .stall pct still =>
    "bootstrap has not moved from " ++ toString pct ++ "% for " ++ written still
  | .off quiet => "tor has been off for " ++ written quiet

def Why.bounces : Why → Bool
  | .circuits _ | .probe _ => false
  | .relays _ | .stall _ _ | .off _ => true

namespace Look

/-- Nothing is decided: tor is not needed, asleep, or somebody else's. -/
def stays (look : Look) : Bool :=
  !look.modeNeedsTor || look.torIsPaused || look.netOffline || look.autoGateHeld ||
    look.reconnectRunning || look.torRestarting

end Look

namespace Watch

variable (r : Watch) (look : Look)

/-- What a decision forgets of a status that is over. -/
def settle : Watch :=
  { r with
    stallPct := if look.torStatus ≠ .starting then -1 else r.stallPct
    offSince := if look.torStatus ≠ .off then none else r.offSince }

/-- The last rescue is as long ago as the wait after it. -/
def gapOver : Bool := passed r.lastRescue r.rescueWait look.now

def dead : Nat := if r.deadWait = 0 then deadFor else r.deadWait

def whenReady : Option Why × Watch :=
  if r.failedSinceOK.length < 2 ∨ !passed r.firstFailAt r.dead look.now then (none, r)
  else
    let failing := sub look.now r.firstFailAt
    let bounce : Option Why × Watch :=
      if !r.gapOver look then (none, r)
      else (some (.relays failing), r.noteRescue look.now look.roll)
    if r.rescues = 0 then
      if before r.spellStepAt r.firstFailAt then
        let circuits := passed r.circuitsAt r.circuitsNext look.now
        if !circuits ∧ r.probeAt ≠ none ∧ !passed r.probeAt r.probeNext look.now then (none, r)
        else
          let r := { r with
            spellStepAt := some look.now, spellStepHold := rescueJitter look.roll circuitsFor }
          if circuits then
            (some (.circuits failing), { r with
              circuitsAt := some look.now, circuitsNext := rescueJitter look.roll' circuitsGap })
          else
            (some (.probe failing), { r with
              probeAt := some look.now, probeNext := rescueJitter look.roll' probeGap })
      else if !passed r.spellStepAt r.spellStepHold look.now then (none, r)
      else bounce
    else bounce

def whenStarting : Option Why × Watch :=
  if (look.bootstrapPct : Int) ≠ r.stallPct then
    (none, { r with stallPct := look.bootstrapPct, stallSince := some look.now })
  else if !passed r.stallSince (stallLimit r.rescues) look.now then (none, r)
  else
    (some (.stall look.bootstrapPct (sub look.now r.stallSince)),
      { r.noteRescue look.now look.roll with stallPct := -1 })

/-- A tor this process started is off and nobody paused it. -/
def whenOff : Option Why × Watch :=
  if r.offSince = none then (none, { r with offSince := some look.now })
  else if !passed r.offSince offFor look.now then (none, r)
  else if !r.gapOver look then (none, r)
  else (some (.off (sub look.now r.offSince)), r.noteRescue look.now look.roll)

/-- Whether something should happen to the route, and why. -/
def routeNeedsRescue : Option Why × Watch :=
  if look.stays then (none, r)
  else
    let r := r.settle look
    match look.torStatus with
    | .bootstrapped | .publishing | .reachable => r.whenReady look
    | .starting => r.whenStarting look
    | .off => if look.torUp then r.whenOff look else (none, r)

end Watch

end Kryfo.Route
