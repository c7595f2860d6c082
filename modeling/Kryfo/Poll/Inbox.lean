import Kryfo.Seen.Set

/-!
# The inbox, the poll and its ack

Runners put what they open into one inbox.  A poll hands the app a batch under a token and an ack
says what became of each line of it.  What both still have in hand, once they have let go of the
inbox, is part of the state.
-/

namespace Kryfo.Poll

open Library Seen

def pollMaxTries : Nat := 5

def pollHoldMax : Int := 20000000000

def pollHoldBytes : Nat := 8 * 2 ^ 20

/-- `inboxDone`, its save apart; `ι` names the running sets. -/
structure Done (ι : Type*) where
  set : ι
  id : ID
  tries : Nat
  stamp : Int64
  sent : Int64
  freed : Nat
  reachFrom : Int64
  reachUntil : Int64
deriving DecidableEq

structure Item (ι : Type*) where
  line : List Char
  done : Done ι
deriving DecidableEq

def Item.key {ι : Type*} (x : Item ι) : ι × ID := (x.done.set, x.done.id)

def Item.retried {ι : Type*} (x : Item ι) : Item ι :=
  { x with done := { x.done with tries := x.done.tries + 1 } }

def spent {ι : Type*} (xs : List (Item ι)) : List (Item ι) :=
  (xs.map Item.retried).filter fun x => pollMaxTries ≤ x.done.tries

/-- Of the lines that come back, those the app is offered once more. -/
def onceMore {ι : Type*} (xs : List (Item ι)) : List (Item ι) :=
  (xs.map Item.retried).filter fun x => !decide (pollMaxTries ≤ x.done.tries)

def lineTag (line : List Char) : List Char := line.takeWhile (· ≠ '|')

/-- The part of a line that goes over, with its tag, unless it holds a line break or a nul. -/
def entryOf (line : List Char) : Option (List Char × List Char) :=
  match line.dropWhile (· ≠ '|') with
  | [] => none
  | _ :: content =>
    if content.any fun c => c = '\n' || c = '\r' || c = '\x00' then none
    else some (lineTag line, content)

/-- `pollEntry`. -/
structure PollEntry where
  tag : List Char
  content : List Char
  sent : Int64
  reachFrom : Int64
  reachUntil : Int64
deriving DecidableEq

def Item.entry {ι : Type*} (x : Item ι) : Option PollEntry :=
  (entryOf x.line).map fun e => ⟨e.1, e.2, x.done.sent, x.done.reachFrom, x.done.reachUntil⟩

def Item.sendable {ι : Type*} (x : Item ι) : Bool := (entryOf x.line).isSome

structure Hand (ι : Type*) where
  holds : List (Item ι × List Char)
  stale : List (Item ι)
  kept : List (Item ι)
  took : List (Item ι)

/-- What has happened so far.  No operation reads it. -/
structure Log (ι : Type*) where
  taken : List (ι × ID) := []
  confirmed : List (ι × ID) := []
  refused : List (ι × ID) := []
  kept : List (ι × ID) := []
  held : List (ι × ID) := []
  released : List (Item ι) := []
  dropped : List (ι × ID) := []

/-- The inbox, the batches out with the app and the running sets; `π` names the files of the
sets. -/
structure Sys (ι π : Type*) where
  sets : ι → SeenIDs
  opening : List (ι × ID) := []
  inbox : List (Item ι) := []
  inflight : List (Nat × List (Item ι)) := []
  token : Nat := 0
  hands : List (Hand ι) := []
  gens : π → Nat := fun _ => 0
  walking : Table (List Char) Nat := ∅
  live : Finset (List Char) := ∅
  heldSince : Option Int := none
  log : Log ι := {}

/-- What a set was started with, and what the engine hashes groups and goes through maps by. -/
structure Env (ι π : Type*) where
  tag : ι → List Char
  path : ι → π
  digest : List Char → BitVec 64
  visit : Visit

namespace Sys

variable {ι π : Type*} [DecidableEq ι] [DecidableEq π]

/-! ## Taking -/

variable (s : Sys ι π)

/-- The start of `take`: an id that is new here is opened next. -/
def claim (i : ι) (id : ID) : Sys ι π :=
  let claimed := (s.sets i).claim id
  if claimed.1 then
    { s with sets := Function.update s.sets i claimed.2, opening := (i, id) :: s.opening }
  else s

def received (env : Env ι π) (s : Sys ι π) (i : ι) (id : ID) (content : List Char)
    (stamp sent reachFrom reachUntil : Int64) : Sys ι π :=
  { s with
    opening := s.opening.erase (i, id)
    inbox := s.inbox ++
      [⟨env.tag i ++ '|' :: content, ⟨i, id, 0, stamp, sent, 0, reachFrom, reachUntil⟩⟩]
    log := { s.log with taken := (i, id) :: s.log.taken } }

def unopened (i : ι) (id : ID) : Sys ι π :=
  { s with
    sets := Function.update s.sets i ((s.sets i).notOpened id)
    opening := s.opening.erase (i, id) }

/-! ## Walks -/

def walks (tag : List Char) : Nat := (s.walking.lookup tag).getD 0

def walkBegins (tag : List Char) : Sys ι π :=
  { s with walking := s.walking.set tag (s.walks tag + 1) }

def walkEnds (tag : List Char) : Sys ι π :=
  if s.walks tag ≤ 1 then { s with walking := s.walking.unset tag }
  else { s with walking := s.walking.set tag (s.walks tag - 1) }

def liveCame (tag : List Char) : Sys ι π :=
  if 0 < s.walks tag then { s with live := insert tag s.live } else s

/-! ## Offering again -/

def releaseAll (sets : ι → SeenIDs) (xs : List (Item ι)) : ι → SeenIDs :=
  xs.foldl (fun sets x =>
    Function.update sets x.done.set ((sets x.done.set).release x.done.id)) sets

/-- `pollRequeueLocked`: the lines go to the front again, but for those offered often enough. -/
def requeue (xs : List (Item ι)) : Sys ι π :=
  { s with
    sets := releaseAll s.sets (spent xs)
    inbox := onceMore xs ++ s.inbox
    log := { s.log with released := spent xs ++ s.log.released } }

/-- The head of `nostrPollAt`: every batch in flight comes back, the last first. -/
def requeueAll : Sys ι π :=
  (s.inflight.insertionSort fun b c => b.1 ≤ c.1).foldr (fun b s => s.requeue b.2)
    { s with inflight := [] }

/-! ## The poll -/

/-- Whether the poll keeps a line back for the walk of its address. -/
def waits (x : Item ι) : Bool :=
  0 < s.walks (lineTag x.line) ∧ lineTag x.line ∉ s.live

/-- What a poll takes from the inbox, what it keeps back, and since when it has. -/
def offered (now : Int) : List (Item ι) × List (Item ι) × Option Int :=
  if s.walking.keys ≠ ∅ ∧ s.inbox.isEmpty = false then
    let kept := s.inbox.filter s.waits
    let size := (kept.map fun x => (x.line.map Char.utf8Size).sum).sum
    let since := s.heldSince.getD now
    if kept.isEmpty then (s.inbox, [], none)
    else if now - since < pollHoldMax ∧ size < pollHoldBytes then
      (s.inbox.filter fun x => !s.waits x, kept, some since)
    else (s.inbox, [], none)
  else (s.inbox, [], none)

def stamped (env : Env ι π) (s : Sys ι π) (x : Item ι) : Item ι :=
  { x with done := { x.done with freed := s.gens (env.path x.done.set) } }

/-- `nostrPollAt` up to where it lets go of the inbox: the token and the entries, if any. -/
def poll (env : Env ι π) (s : Sys ι π) (now : Int) : Option (Nat × List PollEntry) × Sys ι π :=
  let s := s.requeueAll
  let sorted := s.offered now
  let batch := (sorted.1.filter Item.sendable).map (s.stamped env)
  let gone := sorted.1.filter fun x => !x.sendable
  let s := { s with
    inbox := sorted.2.1
    live := ∅
    heldSince := sorted.2.2
    hands := if gone.isEmpty then s.hands else ⟨[], [], gone, []⟩ :: s.hands }
  if batch.isEmpty then (none, s)
  else
    (some (s.token + 1, batch.filterMap Item.entry),
      { s with token := s.token + 1, inflight := (s.token + 1, batch) :: s.inflight })

/-- `owedFloor`: the oldest stamp among a set's lines in the inbox and in flight. -/
def owedFloor (i : ι) : Option Int64 :=
  (s.inbox ++ s.inflight.flatMap Prod.snd).foldl (fun low x =>
    if x.done.set = i ∧ low.all (x.done.stamp < ·) then some x.done.stamp else low) none

/-! ## The ack -/

end Sys

/-- `strconv.ParseUint` to sixty-four bits. -/
def parseUint64 (text : List Char) : Option Nat := (parseNat text).filter (· < 2 ^ 64)

structure AckLists where
  failed : List Int := []
  later : List Int := []
  groups : List (List Char) := []

/-- The group a place is left in, by the last time it is listed. -/
def AckLists.left (lists : AckLists) : Int → Option (List Char) :=
  lists.later.zipIdx.foldl (fun left e =>
    Function.update left e.1 (some (lists.groups.getD e.2 []))) fun _ => none

inductive Fate where
  | again
  | hold (name : List Char)
  | keep

def againOf {ι : Type*} (xs : List (Item ι × Fate)) : List (Item ι) :=
  xs.filterMap fun e => match e.2 with
    | .again => some e.1
    | _ => none

def holdsOf {ι : Type*} (xs : List (Item ι × Fate)) : List (Item ι × List Char) :=
  xs.filterMap fun e => match e.2 with
    | .hold name => some (e.1, name)
    | _ => none

def keptOf {ι : Type*} (xs : List (Item ι × Fate)) : List (Item ι) :=
  xs.filterMap fun e => match e.2 with
    | .keep => some e.1
    | _ => none

namespace Sys

variable {ι π : Type*} [DecidableEq ι] [DecidableEq π] (env : Env ι π)

/-- A line left on the relay that was let go of since it was polled goes to the
app again. -/
def fate (s : Sys ι π) (lists : AckLists) (place : Nat) (x : Item ι) : Fate :=
  if (place : Int) ∈ lists.failed then .again
  else
    match lists.left place with
    | some name => if s.gens (env.path x.done.set) ≠ x.done.freed then .again else .hold name
    | none => .keep

def fates (s : Sys ι π) (lists : AckLists) (batch : List (Item ι)) : List (Item ι × Fate) :=
  batch.zipIdx.map fun e => (e.1, s.fate env lists e.2 e.1)

/-- `nostrAck` with a batch that is in flight, up to where it lets go of the
inbox. -/
def acked (s : Sys ι π) (tok : Nat) (lists : AckLists) (batch : List (Item ι)) : Sys ι π :=
  let fates := s.fates env lists batch
  let s := { s with inflight := s.inflight.filter fun b => b.1 ≠ tok }.requeue (againOf fates)
  { s with
    hands := ⟨holdsOf fates, [], keptOf fates, []⟩ :: s.hands
    log := { s.log with confirmed := (keptOf fates).map Item.key ++ s.log.confirmed } }

/-- `nostrAck`; `failed` is what `ackLists` reads of the app's list, if it reads. -/
def ack (s : Sys ι π) (token : List Char) (failed : Option AckLists) : String × Sys ι π :=
  match parseUint64 token with
  | none => ("error: bad token", s)
  | some tok =>
    match failed with
    | none => ("error: bad list", s)
    | some lists =>
      match s.inflight.lookup tok with
      | none => ("ok", s)
      | some batch => ("ok", s.acked env tok lists batch)

def hold (s : Sys ι π) (n : Nat) (now : Int) : Option (Sys ι π) :=
  match s.hands[n]? with
  | some ⟨(x, name) :: holds, stale, kept, took⟩ =>
    let others := s.hands.eraseIdx n
    if s.gens (env.path x.done.set) ≠ x.done.freed then
      some { s with hands := ⟨holds, stale ++ [x], kept, took⟩ :: others }
    else
      let held := (s.sets x.done.set).hold env.digest x.done.id x.done.stamp name now
        x.done.reachFrom x.done.reachUntil
      let s := { s with sets := Function.update s.sets x.done.set held.2 }
      match held.1 with
      | none => some { s with
          hands := ⟨holds, stale, kept, took ++ [x]⟩ :: others
          log := { s.log with refused := x.key :: s.log.refused } }
      | some _ => some { s with
          hands := ⟨holds, stale, kept, took⟩ :: others
          log := { s.log with held := x.key :: s.log.held } }
  | _ => none

def keep (s : Sys ι π) (n : Nat) : Option (Sys ι π) :=
  match s.hands[n]? with
  | some ⟨[], stale, kept, took⟩ =>
    match kept ++ took with
    | [] => none
    | x :: _ =>
      let i := x.done.set
      let mine := (kept ++ took).filter fun y => y.done.set = i
      some { s with
        sets := Function.update s.sets i
          ((s.sets i).handedOver (mine.map fun y => y.done.id))
        hands := ⟨[], stale, kept.filter fun y => !decide (y.done.set = i),
          took.filter fun y => !decide (y.done.set = i)⟩ :: s.hands.eraseIdx n
        log := { s.log with kept := mine.map Item.key ++ s.log.kept } }
  | _ => none

/-- The end of an ack: what went stale goes to the app again. -/
def finish (s : Sys ι π) (n : Nat) : Option (Sys ι π) :=
  match s.hands[n]? with
  | some ⟨[], stale, [], []⟩ => some ({ s with hands := s.hands.eraseIdx n }.requeue stale)
  | _ => none

/-! ## Marks -/

/-- `markHeldFile` with the mark that lets go, on the file. -/
def freed (s : Sys ι π) (p : π) : Sys ι π :=
  { s with gens := Function.update s.gens p (s.gens p + 1) }

/-- `markHeldRunning` with either mark, on one of the running sets. -/
def markRunning (s : Sys ι π) (i : ι) (drop : Bool) : Sys ι π :=
  let held := env.visit.order (s.sets i).lines (s.sets i).held.keys
  { s with
    sets := Function.update s.sets i
      ((s.sets i).readLine env.visit [if drop then '~' else '!'])
    log := { s.log with
      dropped := if drop then held.map (i, ·) ++ s.log.dropped else s.log.dropped } }

end Sys

/-- What the runners, the app and the marks do, one locked stretch at a time. -/
inductive Act (ι π : Type*) where
  | claim (i : ι) (id : ID)
  | received (i : ι) (id : ID) (content : List Char)
      (stamp sent reachFrom reachUntil : Int64)
  | unopened (i : ι) (id : ID)
  | walkBegins (tag : List Char)
  | walkEnds (tag : List Char)
  | liveCame (tag : List Char)
  | poll (now : Int)
  | ack (token : List Char) (failed : Option AckLists)
  | hold (n : Nat) (now : Int)
  | keep (n : Nat)
  | finish (n : Nat)
  | freed (p : π)
  | markRunning (i : ι) (drop : Bool)

def Sys.apply {ι π : Type*} [DecidableEq ι] [DecidableEq π] (env : Env ι π) (s : Sys ι π) :
    Act ι π → Option (Sys ι π)
  | .claim i id => some (s.claim i id)
  | .received i id content stamp sent reachFrom reachUntil =>
    if (i, id) ∈ s.opening then
      some (s.received env i id content stamp sent reachFrom reachUntil)
    else none
  | .unopened i id => if (i, id) ∈ s.opening then some (s.unopened i id) else none
  | .walkBegins tag => some (s.walkBegins tag)
  | .walkEnds tag => some (s.walkEnds tag)
  | .liveCame tag => some (s.liveCame tag)
  | .poll now => some (s.poll env now).2
  | .ack token failed => some (s.ack env token failed).2
  | .hold n now => s.hold env n now
  | .keep n => s.keep n
  | .finish n => s.finish n
  | .freed p => some (s.freed p)
  | .markRunning i drop => some (s.markRunning env i drop)

def Step {ι π : Type*} [DecidableEq ι] [DecidableEq π] (env : Env ι π)
    (s : Sys ι π) (act : Act ι π) (s' : Sys ι π) : Prop := s.apply env act = some s'

end Kryfo.Poll
