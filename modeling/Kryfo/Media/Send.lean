import Kryfo.Library.Deal

/-!
# Sending a file in slices

Up to five workers send the slices of one file, as in `media_send.dart`.  They share a cursor, a
queue of slices that did not go, and the record of slices that landed.  A worker runs from one
await to the next without interruption.
-/

namespace Kryfo.Media

open Library

abbrev Bytes := List UInt8

def sliceBytes : Nat := 12288

def mediaSliceCount (n : Nat) : Nat := (n + sliceBytes - 1) / sliceBytes

def mediaSlice (file : Bytes) (i : Nat) : Bytes := (file.drop (i * sliceBytes)).take sliceBytes

inductive Failure
  | cancelled
  | read
  | encrypt
  | devKey
  | route (error : String)
  deriving DecidableEq

/-- How a send ends. -/
inductive Result
  | ok
  | busy
  | torNotReady
  | notClean
  | changed
  | read
  | empty
  | blocked
  | parked
  | failed (failure : Failure)
  deriving DecidableEq

inductive Route
  | onion
  | firstContact
  | relay
  | copy
  deriving DecidableEq

inductive Phase
  | top
  | asking
  | askingHere
  | reading (i : Nat)
  | sealing (i : Nat)
  | onion (i attempt : Nat) (err : String)
  | onionKey (i : Nat)
  | key (i attempt : Nat) (err : String)
  | firstContact (i attempt : Nat) (err : String)
  | relay (i attempt : Nat) (err : String)
  | pair (i : Nat)
  | pausing (i attempt : Nat) (err : String)
  | resting
  | ended
  | threw
  deriving DecidableEq

/-- How wrapping and sealing a slice ends. -/
inductive Sealed
  | done
  | keyHeld
  | failed (devKey : Bool)
  deriving DecidableEq

structure Answer where
  yes : Bool := true
  err : String := ""
  wrapped : Sealed := .done
  key : Option String := none
  peerFc : Bool := false
  copyTaken : Bool := false
  cancelled : Bool := false
  everydayHeld : Bool := false
  now : Int := 0

/-- How a send is asked for. -/
structure Asked where
  backPaired : Bool
  hasOnion : Bool
  photo : Bool
  only : Option (List Nat)
  asksBlockedHere : Bool
  peerXPub : Option String
  deriving DecidableEq

structure Send where
  asked : Asked
  file : Bytes
  total : Nat
  record : List Nat
  done : List Nat
  stamp : Option Int
  next : Nat := 0
  retryQueue : List Nat := []
  attempts : Nat → Nat := fun _ => 0
  onionDead : Bool := false
  xpub : Option String
  pairWay : Option Bool := none
  failure : Option Failure := none
  parked : Bool := false
  held : Bool := false
  blocked : Bool := false
  takes : List (Nat × Route) := []
  phase : Nat → Phase := fun _ => .top

def parallel : Nat := 5

def chunkPasses : Nat := 4

namespace Send

variable (s : Send)

def put (w : Nat) (phase : Phase) : Send := { s with phase := Function.update s.phase w phase }

def pool : Nat := min parallel s.total

/-- The head of a worker's loop, up to the question whether they are blocked. -/
def atTop (w : Nat) (a : Answer) : Send :=
  if s.failure ≠ none ∨ s.parked ∨ s.blocked then s.put w .ended
  else if a.cancelled then { s with failure := some .cancelled }.put w .ended
  else if a.everydayHeld then { s with parked := true, held := true }.put w .ended
  else s.put w .asking

/-- The first index from `n` on that is not done, among `fuel` many. -/
def skipDone (done : List Nat) : Nat → Nat → Nat
  | 0, n => n
  | fuel + 1, n => if n ∈ done then skipDone done fuel (n + 1) else n

/-- The slice worker `w` sends next, if any is left. -/
def takeChunk (w : Nat) : Send :=
  match s.retryQueue with
  | i :: rest => { s with retryQueue := rest }.put w (.reading i)
  | [] =>
    let n := skipDone s.done (s.total - s.next) s.next
    if n ≥ s.total then { s with next := n }.put w .ended
    else { s with next := n + 1 }.put w (.reading n)

/-- A slice no route took in three attempts is queued again, until it has burned every pass. -/
def sliceFailed (w i : Nat) (err : String) : Send :=
  let pass := s.attempts i + 1
  let s := { s with attempts := Function.update s.attempts i pass }
  if pass ≥ chunkPasses then { s with failure := some (.route err) }.put w .ended
  else { s with retryQueue := s.retryQueue ++ [i] }.put w .resting

def landed (w i : Nat) (a : Answer) : Send :=
  ({ s with
    done := s.done.insert i
    stamp := if s.asked.only = none then some a.now else s.stamp }.put w .top).atTop w a

def byRelay (w i attempt : Nat) (err : String) (a : Answer) : Send :=
  let fc := !s.asked.backPaired && a.peerFc
  if s.xpub ≠ none ∧ fc then s.put w (.firstContact i attempt err)
  else if s.xpub ≠ none then s.put w (.relay i attempt err)
  else s.put w (.pausing i attempt err)

def withKey (w i attempt : Nat) (err : String) (a : Answer) : Send :=
  if s.xpub = none then s.put w (.key i attempt err) else s.byRelay w i attempt err a

def attempt (w i n : Nat) (err : String) (a : Answer) : Send :=
  if n ≥ 3 then s.sliceFailed w i err
  else if !s.asked.backPaired ∧ s.asked.hasOnion ∧ !s.onionDead then s.put w (.onion i n err)
  else s.withKey w i n err a

/-- The first-contact copy goes behind a slice the onion took. -/
def copied (i : Nat) (a : Answer) : Send :=
  if a.peerFc ∧ s.xpub ≠ none ∧ a.copyTaken then { s with takes := (i, .copy) :: s.takes } else s

/-- A relay took a slice: parked where nobody reads yet, or landed. -/
def onRelay (w i : Nat) (a : Answer) : Send :=
  if !s.asked.backPaired ∧ s.pairWay ≠ some true then { s with parked := true }.put w .ended
  else { s with takes := (i, .relay) :: s.takes }.landed w i a

def resume (w : Nat) (a : Answer) : Send :=
  match s.phase w with
  | .top | .resting => s.atTop w a
  | .asking =>
    if a.yes then
      if s.asked.asksBlockedHere then s.put w .askingHere
      else { s with parked := true }.put w .ended
    else s.takeChunk w
  | .askingHere =>
    if a.yes then { s with blocked := true }.put w .ended
    else { s with parked := true }.put w .ended
  | .reading i =>
    if a.yes then s.put w (.sealing i) else { s with failure := some .read }.put w .ended
  | .sealing i =>
    match a.wrapped with
    | .done => s.attempt w i 0 "error: no transport" a
    | .keyHeld => { s with parked := true }.put w .ended
    | .failed devKey =>
      { s with failure := some (if devKey then .devKey else .encrypt) }.put w .ended
  | .onion i attempt _ =>
    if a.yes then
      let s := { s with takes := (i, .onion) :: s.takes }
      if s.xpub = none then s.put w (.onionKey i) else (s.copied i a).landed w i a
    else { s with onionDead := true }.withKey w i attempt a.err a
  | .onionKey i => ({ s with xpub := a.key }.copied i a).landed w i a
  | .key i attempt err => { s with xpub := a.key }.byRelay w i attempt err a
  | .firstContact i attempt _ =>
    if a.yes then { s with takes := (i, .firstContact) :: s.takes }.landed w i a
    else s.put w (.pausing i attempt a.err)
  | .relay i attempt _ =>
    if a.yes then
      if s.pairWay = none then s.put w (.pair i) else s.onRelay w i a
    else s.put w (.pausing i attempt a.err)
  | .pair i => { s with pairWay := some a.yes }.onRelay w i a
  | .pausing i attempt err => s.attempt w i (attempt + 1) err a
  | .ended | .threw => s

/-- A call that worker `w` waits for throws.  Reading and sealing are caught. -/
def throws (w : Nat) : Send :=
  match s.phase w with
  | .asking | .askingHere | .onion _ _ _ | .onionKey _ | .key _ _ _ | .firstContact _ _ _
  | .relay _ _ _ | .pair _ => s.put w .threw
  | _ => s

/-- What counts as landed when a send begins: the record, or everything that was
not asked for. -/
def began : List Nat :=
  match s.asked.only with
  | none => s.record
  | some only => (List.range s.total).filter fun i => i ∉ only

def isOver : Bool :=
  (List.range s.pool).all fun w => s.phase w = .ended ∨ s.phase w = .threw

def threwUp : Bool := (List.range s.pool).any fun w => s.phase w = .threw

/-- What the send returns once every worker is done; nothing if one threw. -/
def result : Option Result :=
  if s.threwUp then none
  else if s.blocked then some .blocked
  else if s.parked then some .parked
  else
    match s.failure with
    | some failure => some (.failed failure)
    | none => some .ok

end Send

inductive Cleaned
  | cannot
  | already
  | rewritten (file : Bytes)

/-- What a send finds when it begins. -/
structure Start where
  torReady : Bool := true
  cleaned : Cleaned := .already
  readable : Bool := true
  now : Int := 0

/-- One message with its file: which slice of which bytes a route took, and how each send ended. -/
structure Row where
  file : Bytes
  chunkDone : Option (List Nat) := none
  chunkDoneAt : Option Int := none
  sending : Option Send := none
  takes : List (Bytes × Nat) := []
  ended : List (Send × Option Result) := []
  refused : List Result := []

namespace Row

variable (row : Row)

def refuse (result : Result) : Row := { row with refused := result :: row.refused }

def trusted (now : Int) : List Nat :=
  if now - row.chunkDoneAt.getD now > 240000 then [] else row.chunkDone.getD []

def spawn (asked : Asked) (now : Int) : Row :=
  let total := mediaSliceCount row.file.length
  match asked.only with
  | some only =>
    { row with sending := some {
        asked, file := row.file, total, record := [],
        done := (List.range total).filter fun i => i ∉ only,
        stamp := row.chunkDoneAt, xpub := asked.peerXPub } }
  | none =>
    let record := row.trusted now
    { row with
      chunkDone := some record
      chunkDoneAt := some now
      sending := some {
        asked, file := row.file, total, record, done := record, stamp := some now,
        xpub := asked.peerXPub } }

def counted (asked : Asked) (found : Start) : Row :=
  if !found.readable then row.refuse .read
  else if mediaSliceCount row.file.length = 0 then row.refuse .empty
  else row.spawn asked found.now

/-- A send begins, unless something stops it before its first slice. -/
def start (asked : Asked) (found : Start) : Row :=
  if row.sending.isSome then row.refuse .busy
  else if !found.torReady then row.refuse .torNotReady
  else
    match asked.photo, found.cleaned with
    | true, .cannot => row.refuse .notClean
    | true, .rewritten file =>
      let row := { row with file, chunkDone := none }
      if asked.only ≠ none then row.refuse .changed else row.counted asked found
    | _, _ => row.counted asked found

def finish (s : Send) : Row :=
  let row := { row with
    sending := none
    takes := ((s.takes.filter fun t => t.2 ≠ .copy).map fun t => (s.file, t.1)) ++ row.takes
    ended := (s, s.result) :: row.ended }
  if s.asked.only ≠ none then row
  else if s.result = some .ok then { row with chunkDone := none, chunkDoneAt := none }
  else
    { row with
      chunkDone := some s.done
      chunkDoneAt := if s.held ∧ s.result ≠ none ∧ s.result ≠ some .blocked then none else s.stamp }

end Row

inductive Act
  | start (asked : Asked) (found : Start)
  | resume (w : Nat) (a : Answer)
  | throws (w : Nat)
  | finish

def Row.next (row : Row) : Act → Row
  | .start asked found => row.start asked found
  | .resume w a =>
    match row.sending with
    | some s => if w < s.pool then { row with sending := some (s.resume w a) } else row
    | none => row
  | .throws w =>
    match row.sending with
    | some s => if w < s.pool then { row with sending := some (s.throws w) } else row
    | none => row
  | .finish =>
    match row.sending with
    | some s => if s.isOver then row.finish s else row
    | none => row

end Kryfo.Media
