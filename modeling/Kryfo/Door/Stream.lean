import Kryfo.Door.Inbox

/-!
# A stream to a door

Any number of sends share one stream.  Each writes its line and waits for its ack.  Every step
below is one that the locks make whole.
-/

namespace Kryfo.Door

open Library

/-- Where a send is.  `writing` has what is not yet on the wire and holds the write lock; at
`writeFailed` the lock is free and the stream is not yet marked. -/
inductive Phase where
  | fresh
  | writing (rest : Text)
  | written
  | writeFailed
  | timedOut
  | failed
  | returned (ok : Bool)
  deriving DecidableEq

structure Stream (η : Type) where
  phase : Nat → Phase := fun _ => .fresh
  /-- What went into each send's channel. -/
  answer : Nat → Option Bool := fun _ => none
  waiting : List Nat := []
  err : Bool := false
  /-- The bytes that were written and not read. -/
  wire : Text := []
  /-- The acks that were written and not read. -/
  acks : Nat := 0
  doorOpen : Bool := true
  count : Nat := 0
  inbox : Inbox η := {}
  /-- Every line that was put on the stream, with its send. -/
  begun : List (Nat × Text) := []
  /-- Every line of this stream the door put in the inbox and acked. -/
  taken : List Text := []
  /-- How many lines the door had taken when it refused one. -/
  refused : Option Nat := none

inductive Act where
  | start (id : Nat) (line : Text)
  | write (id n : Nat)
  | wrote (id : Nat)
  | writeError (id : Nat)
  | timeout (id : Nat)
  | fail (id : Nat)
  | receive (id : Nat)
  | failStream
  | readAck
  | doorRead (now : ℚ)
  | ackLost (now : ℚ)
  | doorEnd (now : ℚ)
  | drain
  | otherLine (now : ℚ) (line : Text)

def doorLinesPerStream : Nat := inboxMaxLines

variable {η : Type} [DecidableEq η]

namespace Stream

variable (s : Stream η)

def Enabled : Act → Prop
  | .start id _ => s.phase id = .fresh ∧ ∀ j rest, s.phase j ≠ .writing rest
  | .write id _ => ∃ rest, s.phase id = .writing rest
  | .wrote id => s.phase id = .writing []
  | .writeError id => ∃ rest, s.phase id = .writing rest ∧ rest ≠ []
  | .timeout id => s.phase id = .written
  | .fail id => s.phase id = .writeFailed ∨ s.phase id = .timedOut
  | .receive id => (s.phase id = .written ∨ s.phase id = .failed) ∧ (s.answer id).isSome = true
  | .readAck => 0 < s.acks
  | .doorRead _ => s.doorOpen = true ∧ '\n' ∈ s.wire ∧ s.count < doorLinesPerStream
  | .ackLost _ => s.doorOpen = true ∧ '\n' ∈ s.wire ∧ s.count < doorLinesPerStream
  | _ => True

def setPhase (id : Nat) (phase : Phase) : Stream η :=
  { s with phase := Function.update s.phase id phase }

/-- The stream is done for: every line still waiting fails. -/
def failAll : Stream η :=
  { s with
    err := true
    answer := fun id => if id ∈ s.waiting then some false else s.answer id
    waiting := [] }

def popAck : Stream η :=
  match s.waiting with
  | [] => { s with acks := s.acks - 1 }
  | id :: rest =>
    { s with
      acks := s.acks - 1
      waiting := rest
      answer := Function.update s.answer id (some true) }

def nextLine : Text := s.wire.takeWhile (· ≠ '\n')

def restOfWire : Text := (s.wire.dropWhile (· ≠ '\n')).tail

/-- Whether the door takes a line as it is on the wire, and the inbox after. -/
def doorTakes (hash : Text → η) (box : Inbox η) (now : ℚ) (line : Text) : Bool × Inbox η :=
  if inboxMaxLine + 2 < size line then (false, box)
  else if !inboxShapeOK (trimSpace line) then (false, box)
  else inboxPut hash box now (trimSpace line)

def refuse (box : Inbox η) : Stream η :=
  { s with
    wire := s.restOfWire
    doorOpen := false
    inbox := box
    refused := some s.taken.length }

def next (hash : Text → η) (s : Stream η) : Act → Stream η
  | .start id line =>
    if s.err then s.setPhase id (.returned false)
    else
      { s.setPhase id (.writing (line ++ ['\n'])) with
        waiting := s.waiting ++ [id]
        begun := s.begun ++ [(id, line)] }
  | .write id n =>
    match s.phase id with
    | .writing rest =>
      { s.setPhase id (.writing (rest.drop n)) with wire := s.wire ++ rest.take n }
    | _ => s
  | .wrote id => s.setPhase id .written
  | .writeError id => s.setPhase id .writeFailed
  | .timeout id => s.setPhase id .timedOut
  | .fail id => s.failAll.setPhase id .failed
  | .receive id => s.setPhase id (.returned ((s.answer id).getD false))
  | .failStream => s.failAll
  | .readAck => s.popAck
  | .doorRead now =>
    match doorTakes hash s.inbox now (s.nextLine ++ ['\n']) with
    | (true, box) =>
      { s with
        wire := s.restOfWire
        acks := s.acks + 1
        count := s.count + 1
        inbox := box
        taken := s.taken ++ [trimSpace (s.nextLine ++ ['\n'])] }
    | (false, box) => s.refuse box
  | .ackLost now =>
    { s with
      wire := s.restOfWire
      doorOpen := false
      inbox := (doorTakes hash s.inbox now (s.nextLine ++ ['\n'])).2 }
  | .doorEnd now =>
    -- a last line without a newline still counts; its ack reaches nobody
    { s with
      wire := []
      doorOpen := false
      inbox := if s.wire = [] ∨ '\n' ∈ s.wire then s.inbox
        else (doorTakes hash s.inbox now s.wire).2 }
  | .drain => { s with inbox := inboxDrained s.inbox }
  | .otherLine now line => { s with inbox := (doorTakes hash s.inbox now line).2 }

def Step (hash : Text → η) (s : Stream η) (act : Act) (s' : Stream η) : Prop :=
  s.Enabled act ∧ s' = s.next hash act

end Stream

end Kryfo.Door
