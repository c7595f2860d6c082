import Kryfo.Library.Run
import Mathlib.Data.List.Basic

/-!
# Calls to the bridge service

A call passes a gate, lists a context for the decoy to end, looks at the decoy once more and only
then asks.  Its dials go on in their own time.  Opening a decoy stores that it is open and ends
every call that is listed.  All of these take their steps in any order.
-/

namespace Kryfo.Moat

open Library

/-! ## The gate -/

inductive Decoy where
  | unknown
  | off
  | on
deriving DecidableEq

inductive Via where
  | meek
  | plain
  | tor
deriving DecidableEq

inductive MoatError where
  | consent
  | decoy
  | plainAuto
  | via
  | unreachable
  | untrusted
  | noTor
  | args
deriving DecidableEq

structure MoatOpts where
  consent : Bool
  via : String
  automatic : Bool
deriving DecidableEq

def decoyClosed (decoy : Decoy) : Bool := decoy = .off

/-- The path a call names, meek where it names none. -/
def readVia (via : String) : Option Via :=
  if via = "" ∨ via = "meek" then some .meek
  else if via = "tor" then some .tor
  else if via = "plain" then some .plain
  else none

def moatGate (decoy : Decoy) (o : MoatOpts) : Except MoatError Via :=
  if o.consent = false then .error .consent
  else if decoyClosed decoy = false then .error .decoy
  else
    match readVia o.via with
    | some .meek => .ok .meek
    | some .tor => .ok .tor
    | some .plain => if o.automatic then .error .plainAuto else .ok .plain
    | none => .error .via

/-- The refresh of the built-in lines goes through tor, and needs no consent. -/
def refreshOpts (o : MoatOpts) : MoatOpts :=
  { o with via := "tor", automatic := true, consent := true }

/-- A call, as the app asks for it. -/
structure Ask where
  opts : MoatOpts
  refresh : Bool
deriving DecidableEq

def Ask.sent (a : Ask) : MoatOpts := if a.refresh then refreshOpts a.opts else a.opts

/-- What a call needs before anything may leave the phone. -/
structure Ask.Allows (a : Ask) (via : Via) : Prop where
  agreed : a.opts.consent = true ∨ a.refresh = true ∧ via = .tor
  notPlain : ¬(via = .plain ∧ a.opts.automatic = true)

theorem moatGate_eq_ok {decoy : Decoy} {o : MoatOpts} {via : Via}
    (passed : moatGate decoy o = .ok via) :
    o.consent = true ∧ decoy = .off ∧ readVia o.via = some via ∧
      ¬(via = .plain ∧ o.automatic = true) := by
  unfold moatGate at passed
  split at passed
  next => cases passed
  next agreed =>
    split at passed
    next => cases passed
    next closed =>
      have off : decoy = .off := by simpa [decoyClosed] using closed
      refine ⟨by simpa using agreed, off, ?_⟩
      split at passed
      next read => cases passed; exact ⟨read, by simp⟩
      next read => cases passed; exact ⟨read, by simp⟩
      next read =>
        split at passed
        next => cases passed
        next manual => cases passed; exact ⟨read, by simp [manual]⟩
      next => cases passed

theorem Ask.allows_of_gate {decoy : Decoy} {a : Ask} {via : Via}
    (passed : moatGate decoy a.sent = .ok via) : a.Allows via := by
  obtain ⟨agreed, -, read, notPlain⟩ := moatGate_eq_ok passed
  cases refresh : a.refresh with
  | false =>
    rw [Ask.sent, refresh] at agreed notPlain
    exact ⟨.inl agreed, notPlain⟩
  | true =>
    rw [Ask.sent, refresh] at read
    have tor : via = .tor := by
      have named : readVia "tor" = some via := read
      exact (Option.some.inj (named.symm.trans rfl))
    exact ⟨.inr ⟨refresh, tor⟩, by rw [tor]; simp⟩

/-! ## The state -/

inductive Outcome where
  | reply
  | refused (why : MoatError)
deriving DecidableEq

/-- Where a call stands, by the step of `moatDo` it takes next. -/
inductive Stage where
  | idle
  | begun
  | gated (via : Via)
  | tracked (via : Via)
  | hooked (via : Via)
  | cleared (via : Via)
  | requesting (via : Via)
  | failing
  | answered
  | leaving (outcome : Outcome)
  | untracking (outcome : Outcome)
  | closing (outcome : Outcome)
  | returned (outcome : Outcome)
  | shown (outcome : Outcome)
deriving DecidableEq

/-- A call with its context and its `moatDials`.  `asked` is set once the request is made. -/
structure Call where
  ask : Ask := ⟨⟨false, "", false⟩, false⟩
  stage : Stage := .idle
  ctxDone : Bool := false
  armed : Bool := false
  asked : Option Via := none
  shut : Bool := false
  conns : List Nat := []

/-- By meek to a front, by net/http to a host, or by net/http as a tunnel through meek. -/
inductive DialKind where
  | front
  | host
  | tunnel
deriving DecidableEq

inductive DialStage where
  | idle
  | begun
  | checked
  | dialing (ended : Bool)
  | dialed (conn : Nat)
  | kept (conn : Nat)
  | handed (conn : Nat)
  | failed
deriving DecidableEq

structure Dial where
  call : Nat := 0
  kind : DialKind := .front
  stage : DialStage := .idle

inductive SetStage where
  | idle
  | begun
  | stored
  | cancelling (left : List Nat)
  | returned
deriving DecidableEq

/-- A change of the decoy.  `closesAt`: how often the decoy had been closed when this one opened
it. -/
structure Setter where
  on : Bool := false
  stage : SetStage := .idle
  closesAt : Nat := 0

structure State where
  decoy : Decoy := .unknown
  closes : Nat := 0
  moatCalls : List Nat := []
  locked : Bool := false
  calls : Nat → Call := fun _ => {}
  dials : Nat → Dial := fun _ => {}
  setters : Nat → Setter := fun _ => {}
  openConn : Nat → Bool := fun _ => false
  nextConn : Nat := 0

namespace State

def setCall (s : State) (c : Nat) (call : Call) : State :=
  { s with calls := Function.update s.calls c call }

def setDial (s : State) (j : Nat) (dial : Dial) : State :=
  { s with dials := Function.update s.dials j dial }

def setSetter (s : State) (i : Nat) (setter : Setter) : State :=
  { s with setters := Function.update s.setters i setter }

def toStage (s : State) (c : Nat) (stage : Stage) : State :=
  s.setCall c { s.calls c with stage := stage }

def dialTo (s : State) (j : Nat) (stage : DialStage) : State :=
  s.setDial j { s.dials j with stage := stage }

def setterTo (s : State) (i : Nat) (stage : SetStage) : State :=
  s.setSetter i { s.setters i with stage := stage }

def cancel (s : State) (c : Nat) : State := s.setCall c { s.calls c with ctxDone := true }

def closeConn (s : State) (conn : Nat) : State :=
  { s with openConn := Function.update s.openConn conn false }

def newConn (s : State) : State :=
  { s with openConn := Function.update s.openConn s.nextConn true, nextConn := s.nextConn + 1 }

def closeAll (s : State) (c : Nat) : State :=
  { s.setCall c { s.calls c with shut := true, conns := [] } with
    openConn := fun conn => if conn ∈ (s.calls c).conns then false else s.openConn conn }

/-- A kept connection is closed with its call; one that comes too late is closed at once. -/
def keep (s : State) (j conn : Nat) (next : DialStage) : State :=
  let c := (s.dials j).call
  if (s.calls c).shut || (s.calls c).ctxDone then (s.closeConn conn).dialTo j .failed
  else (s.setCall c { s.calls c with conns := (s.calls c).conns ++ [conn] }).dialTo j next

end State

def DialKind.fits : DialKind → Via → Bool
  | .front, .meek => true
  | .tunnel, .meek => true
  | .host, .plain => true
  | .host, .tor => true
  | _, _ => false

/-- The stages at which the context of a call is there to end. -/
def Stage.hasContext : Stage → Bool
  | .idle => false
  | .begun => false
  | .gated _ => false
  | _ => true

/-! ## The steps -/

inductive Step (s : State) : State → Prop
  -- setDecoy
  | setBegins (i : Nat) (on : Bool) (free : (s.setters i).stage = .idle) :
      Step s (s.setSetter i { on := on, stage := .begun })
  | setOn (i : Nat) (here : (s.setters i).stage = .begun) (on : (s.setters i).on = true) :
      Step s ({ s with decoy := .on }.setSetter i
        { s.setters i with stage := .stored, closesAt := s.closes })
  | setOff (i : Nat) (here : (s.setters i).stage = .begun) (off : (s.setters i).on = false) :
      Step s ({ s with decoy := .off, closes := s.closes + 1 }.setterTo i .returned)
  | setLocks (i : Nat) (left : List Nat) (here : (s.setters i).stage = .stored)
      (free : s.locked = false) (all : left.Perm s.moatCalls) :
      Step s ({ s with locked := true }.setterTo i (.cancelling left))
  | setCancels (i c : Nat) (left : List Nat)
      (here : (s.setters i).stage = .cancelling (c :: left)) :
      Step s ((s.cancel c).setterTo i (.cancelling left))
  | setReturns (i : Nat) (here : (s.setters i).stage = .cancelling []) :
      Step s ({ s with locked := false }.setterTo i .returned)
  -- moatDo
  | begins (c : Nat) (a : Ask) (free : (s.calls c).stage = .idle) :
      Step s (s.setCall c { s.calls c with ask := a, stage := .begun })
  | gateRefuses (c : Nat) (why : MoatError) (here : (s.calls c).stage = .begun)
      (refused : moatGate s.decoy (s.calls c).ask.sent = .error why) :
      Step s (s.toStage c (.returned (.refused why)))
  | gatePasses (c : Nat) (via : Via) (here : (s.calls c).stage = .begun)
      (passed : moatGate s.decoy (s.calls c).ask.sent = .ok via) :
      Step s (s.toStage c (.gated via))
  | badBody (c : Nat) (via : Via) (here : (s.calls c).stage = .gated via) :
      Step s (s.toStage c (.returned (.refused .args)))
  | tracks (c : Nat) (via : Via) (here : (s.calls c).stage = .gated via)
      (free : s.locked = false) :
      Step s ({ s with moatCalls := c :: s.moatCalls }.toStage c (.tracked via))
  | hooks (c : Nat) (via : Via) (here : (s.calls c).stage = .tracked via) :
      Step s (s.setCall c { s.calls c with stage := .hooked via, armed := true })
  | openedSince (c : Nat) (via : Via) (here : (s.calls c).stage = .hooked via)
      (isOpen : decoyClosed s.decoy = false) :
      Step s (s.toStage c (.leaving (.refused .decoy)))
  | clears (c : Nat) (via : Via) (here : (s.calls c).stage = .hooked via)
      (closed : decoyClosed s.decoy = true) : Step s (s.toStage c (.cleared via))
  | noTransport (c : Nat) (via : Via) (why : MoatError)
      (here : (s.calls c).stage = .cleared via) :
      Step s (s.toStage c (.leaving (.refused why)))
  | requests (c : Nat) (via : Via) (here : (s.calls c).stage = .cleared via) :
      Step s (s.setCall c { s.calls c with stage := .requesting via, asked := some via })
  | requestFails (c : Nat) (via : Via) (here : (s.calls c).stage = .requesting via) :
      Step s (s.toStage c .failing)
  | failsOpen (c : Nat) (here : (s.calls c).stage = .failing)
      (isOpen : decoyClosed s.decoy = false) :
      Step s (s.toStage c (.leaving (.refused .decoy)))
  | failsClosed (c : Nat) (why : MoatError) (here : (s.calls c).stage = .failing)
      (closed : decoyClosed s.decoy = true) :
      Step s (s.toStage c (.leaving (.refused why)))
  | answers (c : Nat) (via : Via) (here : (s.calls c).stage = .requesting via) :
      Step s (s.toStage c .answered)
  | cutOff (c : Nat) (here : (s.calls c).stage = .answered) :
      Step s (s.toStage c (.leaving (.refused .unreachable)))
  | dropsReply (c : Nat) (here : (s.calls c).stage = .answered)
      (isOpen : decoyClosed s.decoy = false) :
      Step s (s.toStage c (.leaving (.refused .decoy)))
  | keepsReply (c : Nat) (here : (s.calls c).stage = .answered)
      (closed : decoyClosed s.decoy = true) : Step s (s.toStage c (.leaving .reply))
  | cancels (c : Nat) (outcome : Outcome) (here : (s.calls c).stage = .leaving outcome) :
      Step s (s.setCall c { s.calls c with stage := .untracking outcome, ctxDone := true })
  | untracks (c : Nat) (outcome : Outcome) (here : (s.calls c).stage = .untracking outcome)
      (free : s.locked = false) :
      Step s ({ s with moatCalls := s.moatCalls.filter (· ≠ c) }.toStage c (.closing outcome))
  | returns (c : Nat) (outcome : Outcome) (here : (s.calls c).stage = .closing outcome) :
      Step s ((s.closeAll c).toStage c (.returned outcome))
  | shows (c : Nat) (outcome : Outcome) (here : (s.calls c).stage = .returned outcome)
      (may : decoyClosed s.decoy = true ∨ (s.calls c).ask.refresh = true ∨ outcome ≠ .reply) :
      Step s (s.toStage c (.shown outcome))
  | showsDecoy (c : Nat) (here : (s.calls c).stage = .returned .reply)
      (isOpen : decoyClosed s.decoy = false) :
      Step s (s.toStage c (.shown (.refused .decoy)))
  | expires (c : Nat) (there : (s.calls c).stage.hasContext = true) : Step s (s.cancel c)
  | hookRuns (c : Nat) (armed : (s.calls c).armed = true) (done : (s.calls c).ctxDone = true) :
      Step s (s.closeAll c)
  -- the dials
  | dialBegins (j c : Nat) (kind : DialKind) (via : Via) (free : (s.dials j).stage = .idle)
      (asked : (s.calls c).asked = some via) (fits : kind.fits via = true) :
      Step s (s.setDial j ⟨c, kind, .begun⟩)
  | notAllowed (j : Nat) (here : (s.dials j).stage = .begun) : Step s (s.dialTo j .failed)
  | frontOver (j : Nat) (here : (s.dials j).stage = .begun) (front : (s.dials j).kind = .front)
      (done : (s.calls (s.dials j).call).ctxDone = true) : Step s (s.dialTo j .failed)
  | frontChecked (j : Nat) (here : (s.dials j).stage = .begun)
      (front : (s.dials j).kind = .front)
      (running : (s.calls (s.dials j).call).ctxDone = false) : Step s (s.dialTo j .checked)
  | frontDials (j : Nat) (here : (s.dials j).stage = .checked) :
      Step s (s.dialTo j (.dialing (s.calls (s.dials j).call).ctxDone))
  | hostDials (j : Nat) (here : (s.dials j).stage = .begun) (host : (s.dials j).kind = .host) :
      Step s (s.dialTo j (.dialing (s.calls (s.dials j).call).ctxDone))
  | dialFails (j : Nat) (ended : Bool) (here : (s.dials j).stage = .dialing ended) :
      Step s (s.dialTo j .failed)
  | dialConnects (j : Nat) (here : (s.dials j).stage = .dialing false) :
      Step s (s.newConn.dialTo j (.dialed s.nextConn))
  | tunnelOpens (j : Nat) (here : (s.dials j).stage = .begun)
      (tunnel : (s.dials j).kind = .tunnel) : Step s (s.newConn.dialTo j (.dialed s.nextConn))
  | keeps (j conn : Nat) (here : (s.dials j).stage = .dialed conn)
      (plain : (s.dials j).kind ≠ .tunnel) : Step s (s.keep j conn (.handed conn))
  | keepsTunnel (j conn : Nat) (here : (s.dials j).stage = .dialed conn)
      (tunnel : (s.dials j).kind = .tunnel) : Step s (s.keep j conn (.kept conn))
  | handshakes (j conn : Nat) (here : (s.dials j).stage = .kept conn) :
      Step s (s.dialTo j (.handed conn))
  | noHandshake (j conn : Nat) (here : (s.dials j).stage = .kept conn) :
      Step s ((s.closeConn conn).dialTo j .failed)

def Reaches (first : State) : State → Prop :=
  Run (fun s (_ : Unit) s' => Step s s') (fun _ _ => True) first

theorem Reaches.step {first s s' : State} (run : Reaches first s) (step : Step s s') :
    Reaches first s' :=
  @Run.snoc _ _ _ _ _ _ _ () run step trivial

/-- A call that opened the decoy has returned, and the decoy was not closed again. -/
def State.Firm (s : State) : Prop :=
  ∃ i, (s.setters i).stage = .returned ∧ (s.setters i).on = true ∧ (s.setters i).closesAt = s.closes

end Kryfo.Moat
