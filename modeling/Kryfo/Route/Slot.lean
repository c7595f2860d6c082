import Mathlib.Logic.Function.Basic
import Kryfo.Library.Run
import Kryfo.Route.Reconnect

/-!
# The slot of the reconnects

A call of `reconnectTorBy` claims the slot under `reconnectMu`, waits for the one it replaced, does
its work and gives the slot back.  Each critical section is one act, and so is each move of a
script; a control command begins with one act and ends with another.  One that `ctrlFallback` gave
up on goes on in a goroutine of its own and may land at any time later.
-/

namespace Kryfo.Reconnect

open Library

def stuckAfter : Int := 2 * 60 * 1000000000

structure Held where
  me : Nat
  done : Nat
  deriving DecidableEq

/-- Where a call of `reconnectTorBy` is. -/
inductive Phase
  | idle
  | waiting (held : Held) (prev : Nat)
  | doing (held : Held) (script : Script)
  | telling (held : Held) (what : Command) (next : Reply → Script)
  | leaving (held : Held) (result : Result)
  | closing (held : Held) (result : Result)
  | ended (held : Option Held) (result : Result)

namespace Phase

def held : Phase → Option Held
  | .idle => none
  | .waiting held _ | .doing held _ | .telling held _ _ | .leaving held _ | .closing held _ =>
    some held
  | .ended held _ => held

def result : Phase → Option Result
  | .leaving _ result | .closing _ result | .ended _ result => some result
  | _ => none

/-- The call is past its wait and not done: it may carry out steps. -/
def carries : Phase → Bool
  | .doing _ _ | .telling _ _ _ => true
  | _ => false

/-- The command the call waits for. -/
def tells : Phase → Option Command
  | .telling _ what _ => some what
  | _ => none

/-- The call has claimed the slot and not given it back. -/
def live : Phase → Bool
  | .waiting _ _ | .doing _ _ | .telling _ _ _ | .leaving _ _ => true
  | _ => false

end Phase

structure Engine where
  owner : Nat := 0
  done : Option Nat := none
  restarting : Bool := false
  running : Bool := false
  since : Int := 0
  made : Nat := 0
  closed : List (Nat × Nat) := []
  steps : List (Nat × Step) := []
  claims : List Nat := []
  parked : List (Nat × Command) := []
  phase : Nat → Phase := fun _ => .idle

structure How where
  force : Bool
  auto : Bool

inductive Act
  | call (i : Nat) (paused gateHeld : Bool) (now : Int)
  | wake (i : Nat)
  | giveUp (i : Nat)
  | move (i : Nat) (yes : Bool) (why : Option Hold) (now : Int)
  | reply (i : Nat) (reply : Reply)
  | leave (i : Nat) (error : String)
  | land (i : Nat) (what : Command)
  | release (i : Nat)
  | close (i : Nat)

namespace Engine

variable (e : Engine)

def set (i : Nat) (phase : Phase) : Engine := { e with phase := Function.update e.phase i phase }

/-- A running one may be replaced without force once it is stuck. -/
def refuses (force : Bool) (now : Int) : Bool :=
  e.done.isSome && !force && (e.since = 0 || decide (now - e.since < stuckAfter))

/-- Takes the slot, with a done channel.  `prev` is the channel of the one it replaces. -/
def reconnectClaim (i : Nat) : Held × Engine :=
  let held : Held := ⟨e.owner + 1, e.made⟩
  (held, { e with
    owner := e.owner + 1
    done := some e.made
    made := e.made + 1
    restarting := true
    claims := i :: e.claims })

def reconnectMine (held : Held) : Bool := e.owner = held.me

/-- The slot goes back, unless a newer reconnect owns it by now. -/
def reconnectRelease (held : Held) : Engine :=
  if e.owner = held.me then
    { e with done := none, restarting := false, running := false, since := 0 }
  else e

/-- From the call to the wait on the one it replaces, or to its work. -/
def reconnectTorBy (how : How) (i : Nat) (paused gateHeld : Bool) (now : Int) : Engine :=
  if paused then e.set i (.ended none .asleep)
  else if !how.auto && gateHeld then e.set i (.ended none .automatic)
  else if e.refuses how.force now then e.set i (.ended none .alreadyRunning)
  else
    let (held, claimed) := e.reconnectClaim i
    match e.done with
    | none => claimed.set i (.doing held (body how.force how.auto))
    | some prev => claimed.set i (.waiting held prev)

/-- After the wait: a reconnect that was replaced meanwhile stops. -/
def woken (how : How) (i : Nat) (held : Held) : Engine :=
  e.set i (.doing held (.mine (body how.force how.auto) (.ret .superseded)))

def move (i : Nat) (held : Held) (yes : Bool) (why : Option Hold) (now : Int) : Script → Engine
  | .ret result => e.set i (.leaving held result)
  | .step name next =>
    if e.reconnectMine held then
      { e with steps := (i, name) :: e.steps }.set i (.doing held next)
    else e.set i (.leaving held .superseded)
  | .mine mine other => e.set i (.doing held (if e.reconnectMine held then mine else other))
  | .running next =>
    if e.reconnectMine held then { e with since := now, running := true }.set i (.doing held next)
    else e.set i (.doing held next)
  | .command what next => e.set i (.telling held what next)
  | .ask _ next => e.set i (.doing held (next yes))
  | .hold next => e.set i (.doing held (next why))
  | .put _ next => e.set i (.doing held next)

/-- A command of call `i` is on its way to tor: the call waits for it, or was told it timed out. -/
def Runs (i : Nat) (what : Command) : Prop :=
  (e.phase i).tells = some what ∨ (i, what) ∈ e.parked

def stopped (channel : Nat) : Bool := e.closed.any fun entry => entry.1 = channel

/-- The last thing a call does: it closes its own channel and returns. -/
def close (i : Nat) (held : Held) (result : Result) : Engine :=
  { e with closed := (held.done, i) :: e.closed }.set i (.ended (some held) result)

def next (how : Nat → How) : Act → Option Engine
  | .call i paused gateHeld now =>
    match e.phase i with
    | .idle => some (e.reconnectTorBy (how i) i paused gateHeld now)
    | _ => none
  | .wake i =>
    match e.phase i with
    | .waiting held prev => if e.stopped prev then some (e.woken (how i) i held) else none
    | _ => none
  | .giveUp i =>
    match e.phase i with
    | .waiting held _ => some (e.woken (how i) i held)
    | _ => none
  | .move i yes why now =>
    match e.phase i with
    | .doing held script => some (e.move i held yes why now script)
    | _ => none
  | .reply i reply =>
    match e.phase i with
    | .telling held _ next => some (e.set i (.doing held (next reply)))
    | _ => none
  | .leave i error =>
    match e.phase i with
    | .telling held what next =>
      if what.byCtrlDo then
        some ({ e with parked := (i, what) :: e.parked }.set i (.doing held (next (.broken error))))
      else none
    | _ => none
  | .land i what =>
    if (i, what) ∈ e.parked then some { e with parked := e.parked.erase (i, what) } else none
  | .release i =>
    match e.phase i with
    | .leaving held result => some ((e.reconnectRelease held).set i (.closing held result))
    | _ => none
  | .close i =>
    match e.phase i with
    | .closing held result => some (e.close i held result)
    | _ => none

end Engine

/-- Each wait on a replaced reconnect ends by that one stopping. -/
def Act.patient : Act → Bool
  | .giveUp _ => false
  | _ => true

/-- The runs in which every wait ends by the replaced one stopping. -/
abbrev Reconnects (how : Nat → How) : Engine → Engine → Prop :=
  Run (fun e act e' => e.next how act = some e') fun _ act => act.patient = true

end Kryfo.Reconnect
