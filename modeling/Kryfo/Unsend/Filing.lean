import Kryfo.Gone
import Kryfo.Library.Pool

/-!
# A message and its take-back, as they are filed

Copies of one message and its take-back come in over several paths, each handled by a task of its
own.  The tasks give way to each other wherever they wait on the database.
-/

namespace Kryfo.Unsend

open Library

abbrev Text := List Char

def kTakenBackFor : Int := 2 * day

/-- `known`: the sender is an accepted contact, or a member of the group. -/
structure Message where
  sender : Text
  uid : Text
  group : Option Text := none
  known : Bool := true

/-- A row of the message, with when it came. -/
structure Row where
  sentAt : Int
deriving DecidableEq

/-- A slice of the message's file. -/
structure Slice where
  idx : Int
  total : Int
deriving DecidableEq

/-! ## Taken back, as the app remembers it -/

abbrev TakenBack := List (Text × Int)

def Message.key (m : Message) : Text := m.sender ++ ' ' :: m.uid

/-- `_noteTakenBack`. -/
def TakenBack.note (memory : TakenBack) (key : Text) (now : Int) : TakenBack :=
  let noted := memory.filter (·.1 ≠ key) ++ [(key, now)]
  let fresh := noted.filter fun entry => ¬ entry.2 < now - kTakenBackFor
  if 1000 < fresh.length then fresh.tail else fresh

/-- `_wasTakenBack`. -/
def TakenBack.was (memory : TakenBack) (key : Text) (now : Int) : Bool :=
  (memory.lookup key).any fun noted => now - noted < kTakenBackFor

/-! ## The database and the tasks -/

/-- The message's rows, when its id was noted as gone, its slices, and what the app remembers of it.
The code has neither `cleared`, that a take-back has removed its rows, nor `handled`, that one has
come to its end. -/
structure Held where
  rows : List Row := []
  gone : Option Int := none
  slices : List Slice := []
  takenBack : TakenBack := []
  inflight : Bool := false
  cleared : Bool := false
  handled : Bool := false

def Held.goneFrom (s : Held) (now : Int) : Bool := s.gone.any fun noted => now - noted < kGoneFor

def Held.messageExists (s : Held) : Bool := !s.rows.isEmpty

/-- Where the task of a copy that came whole is. -/
inductive WholeAt where
  | start
  | untaken
  | askingRow
  | askingGone
  | claimed
  | filed
deriving DecidableEq

/-- Where the task of a slice is. -/
inductive SliceAt where
  | start
  | untaken
  | askingGone
  | askingRow
  | dropping
  | putting
  | replacing
  | counting
  | waiting
  | complete
  | claimed
  | filed
  | cleaned
deriving DecidableEq

/-- From the query of its rows on the task of a take-back holds what it read. -/
inductive BackAt where
  | start
  | owned
  | noting
  | asking
  | writing
  | reading
  | read (rows : List Row)
  | goneNoted
  | cleared
deriving DecidableEq

/-- A task; `arrivedAt` is when it came, for one opened from the seal. -/
inductive Task where
  | whole (arrivedAt : Option Int) (stage : WholeAt)
  | slice (arrivedAt : Option Int) (slice : Slice) (stage : SliceAt)
  | back (stage : BackAt)
  | ended
deriving DecidableEq

/-- The time, whether something else ends the task here (a gate, a timer, a room that does not take
the file, a thumbnail), and whether the unfinished files are over their size. -/
structure Answer where
  now : Int
  ends : Bool := false
  trims : Bool := false

/-! ## One step of each task -/

variable (m : Message)

/-- Is a whole copy taken back, in flight, here, gone? Then it is claimed, its row is filed and the
claim let go. -/
def wholeStep (a : Answer) (arrivedAt : Option Int) (s : Held) : WholeAt → Held × Task
  | .start =>
    if a.ends ∨ s.takenBack.was m.key a.now then (s, .ended) else (s, .whole arrivedAt .untaken)
  | .untaken => if a.ends ∨ s.inflight then (s, .ended) else (s, .whole arrivedAt .askingRow)
  | .askingRow => if s.messageExists then (s, .ended) else (s, .whole arrivedAt .askingGone)
  | .askingGone =>
    if s.goneFrom a.now ∨ a.ends then (s, .ended)
    else ({ s with inflight := true }, .whole arrivedAt .claimed)
  | .claimed =>
    ({ s with rows := s.rows ++ [⟨arrivedAt.getD a.now⟩] }, .whole arrivedAt .filed)
  | .filed => ({ s with inflight := false }, .ended)

/-- A slice is kept, and with the last of them the file is put together and its row filed. -/
def sliceStep (a : Answer) (arrivedAt : Option Int) (x : Slice) (s : Held) : SliceAt → Held × Task
  | .start =>
    if a.ends ∨ s.takenBack.was m.key a.now ∨ kMaxSlices < x.total ∨ x.idx < 0 ∨ x.total ≤ x.idx
    then (s, .ended)
    else (s, .slice arrivedAt x .untaken)
  | .untaken => if s.inflight then (s, .ended) else (s, .slice arrivedAt x .askingGone)
  | .askingGone =>
    if s.goneFrom a.now then (s, .slice arrivedAt x .dropping)
    else (s, .slice arrivedAt x .askingRow)
  | .askingRow =>
    if s.messageExists then (s, .slice arrivedAt x .dropping)
    else (s, .slice arrivedAt x .putting)
  | .dropping => ({ s with slices := [] }, .ended)
  | .putting =>
    ({ s with slices := s.slices.filter (·.total = x.total) }, .slice arrivedAt x .replacing)
  | .replacing =>
    ({ s with slices := s.slices.filter (·.idx ≠ x.idx) ++ [x] }, .slice arrivedAt x .counting)
  | .counting =>
    if s.slices.length < x.total then (s, .slice arrivedAt x .waiting)
    else (s, .slice arrivedAt x .complete)
  | .waiting => if a.trims ∧ !s.inflight then ({ s with slices := [] }, .ended) else (s, .ended)
  | .complete =>
    if a.ends then (s, .slice arrivedAt x .dropping)
    else if s.inflight then (s, .ended)
    else ({ s with inflight := true }, .slice arrivedAt x .claimed)
  | .claimed =>
    if a.ends then (s, .slice arrivedAt x .filed)
    else ({ s with rows := s.rows ++ [⟨arrivedAt.getD a.now⟩] }, .slice arrivedAt x .filed)
  | .filed => ({ s with slices := [] }, .slice arrivedAt x .cleaned)
  | .cleaned => ({ s with inflight := false }, .ended)

/-- `_noteGone`: the rows not too old are noted as gone. -/
def Held.noteGone (now : Int) (rows : List Row) (s : Held) : Held :=
  if goneKept m.group ∧ ∃ row ∈ rows, ¬ row.sentAt < now - kGoneFor - day then
    { s with gone := some now }
  else s

/-- A take-back is remembered, noted as gone where the message is not here, and what is here goes:
its rows, noted as they go, and then its slices. -/
def backStep (a : Answer) (s : Held) : BackAt → Held × Task
  | .start => if s.messageExists then (s, .back .owned) else (s, .back .noting)
  | .owned => if s.messageExists then (s, .back .noting) else (s, .ended)
  | .noting =>
    ({ s with takenBack := s.takenBack.note m.key a.now },
      .back (if goneKept m.group then .asking else .reading))
  | .asking => if s.messageExists then (s, .back .reading) else (s, .back .writing)
  | .writing =>
    (if m.known then { s with gone := some a.now } else s, .back .reading)
  | .reading => (s, .back (.read s.rows))
  | .read rows => (s.noteGone m a.now rows, .back .goneNoted)
  | .goneNoted => ({ s with rows := [], cleared := true }, .back .cleared)
  | .cleared => ({ s with slices := [], handled := true }, .ended)

def step (a : Answer) (s : Held) : Task → Held × Task
  | .whole arrivedAt stage => wholeStep m a arrivedAt s stage
  | .slice arrivedAt x stage => sliceStep m a arrivedAt x s stage
  | .back stage => backStep m a s stage
  | .ended => (s, .ended)

def fail (s : Held) : Task → Held × Task
  | .whole _ .claimed | .whole _ .filed | .slice _ _ .claimed | .slice _ _ .filed
  | .slice _ _ .cleaned => ({ s with inflight := false }, .ended)
  | _ => (s, .ended)

/-! ## Runs -/

inductive Act where
  | copy (arrivedAt : Option Int)
  | slice (arrivedAt : Option Int) (slice : Slice)
  | takeBack
  | turn (i : Nat) (answer : Answer)
  | fail (i : Nat)
  | restart
  /-- Another message is taken back. -/
  | elsewhere (key : Text) (now : Int)

abbrev App := Pool Held Task

namespace App

/-- A restart ends every task, and the app remembers nothing. -/
def restart (p : App) : App :=
  { shared := { p.shared with takenBack := [], inflight := false }, tasks := [] }

def next (p : App) : Act → App
  | .copy arrivedAt => p.spawn (.whole arrivedAt .start)
  | .slice arrivedAt x => p.spawn (.slice arrivedAt x .start)
  | .takeBack => p.spawn (.back .start)
  | .turn i answer => p.turn (step m answer) i
  | .fail i => p.turn fail i
  | .restart => p.restart
  | .elsewhere key now =>
    { p with shared := { p.shared with takenBack := p.shared.takenBack.note key now } }

def Step (p : App) (act : Act) (p' : App) : Prop := p' = p.next m act

def empty : App := { shared := {}, tasks := [] }

end App

end Kryfo.Unsend
