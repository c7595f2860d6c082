import Kryfo.Burn.Clocks
import Kryfo.Library.Pool

/-!
# The sweeps that burn timed messages

A sweep reads what is due, notes it as gone, deletes it and hands its files to the shredder, one
statement after another, while other sweeps run and messages are filed, read and lit.
-/

namespace Kryfo.Burn

open Library

/-- What one that went is kept under: its sender, or in a group its group and sender. -/
def goneKey (sender : Text) : Option Text → Text
  | none => sender
  | some group => "group:".toList ++ group ++ ':' :: sender

def albumGoneUid (album : Text) : Text := "al:".toList ++ album

/-- The database, and this phone's clock.  The code keeps neither `removed`, the rows that sweeps
removed, nor `shredded`, the files handed to the shredder. -/
structure Db where
  rows : List Row
  nextId : Nat
  reactions : List (Text × Text)
  gone : Text × Text → Option Int
  clock : Int
  strandedLit : Bool := false
  removed : List Row := []
  shredded : List Text := []

namespace Db

def due (cut : Int) (r : Row) : Bool := r.burnAt.any (· < cut) && r.info.sent

/-- `_waitedOut`: it waited unread a day and its window after that. -/
def waitedOut (now : Int) (r : Row) : Bool :=
  burnStartBy r.info.sentAt now + r.info.burnSecs.getD 0 * second < now

/-- `saveMessage`, as far as a sweep reads it. -/
def saveMessage (info : Info) (burnAt : Option Int) (s : Db) : Db :=
  let unseen := info.incoming && info.burnSecs.isSome && burnAt.isSome
  { s with rows := s.rows ++ [⟨s.nextId, info, burnAt, unseen⟩], nextId := s.nextId + 1 }

def light (rows : List Row) (s : Db) : Db := { s with rows }

/-- One row noted as gone, and its album, which burned. -/
def noteRow (now : Int) (gone : Text × Text → Option Int) (r : Row) : Text × Text → Option Int :=
  match r.info.uid with
  | none => gone
  | some uid =>
    if r.info.incoming = false ∨ r.info.sentAt < now - kGoneFor - day ∨ goneKept r.info.group = false
    then gone
    else
      let key := goneKey r.info.peer r.info.group
      let noted := Function.update gone (uid, key) (some now)
      match r.info.album with
      | none => noted
      | some album => Function.update noted (albumGoneUid album, key) (some now)

/-- `_noteGone`, in one commit. -/
def noteGone (rows : List Row) (s : Db) : Db :=
  { s with gone := rows.foldl (noteRow s.clock) s.gone }

def forgetGone (now : Int) (s : Db) : Db :=
  { s with gone := fun key => (s.gone key).filter fun noted => ¬ noted < now - kGoneFor }

def dropReactions (r : Row) (s : Db) : Db :=
  match r.info.uid with
  | none => s
  | some uid => { s with reactions := s.reactions.filter (·.1 ≠ uid) }

def deleteRows (p : Row → Bool) (s : Db) : Db :=
  { s with rows := s.rows.filter (fun r => !p r), removed := s.removed ++ s.rows.filter p }

def shredFiles (r : Row) (s : Db) : Db :=
  let paths := r.info.mediaPath.toList ++ r.info.filePath.toList
  { s with shredded := s.shredded ++ paths.filter (· ≠ []) }

end Db

/-! ## The sweeps, statement by statement -/

inductive Kind where
  /-- `purgeExpired`, on its timer. -/
  | timer
  /-- `purgeExpiredBurns`, as a chat is loaded. -/
  | chat
deriving DecidableEq

/-- What a sweep has read: when it began, what was due, and what waits with the time read after
it. -/
structure Found where
  cut : Int
  due : List Row
  idle : List Row := []
  now : Int := 0
deriving DecidableEq

def Found.waited (f : Found) : List Row := f.idle.filter (Db.waitedOut f.now)

def Found.going (f : Found) : List Row := f.due ++ f.waited

/-- Where a sweep is. -/
inductive Stage where
  | start
  /-- Our own rows that went unlit: when it read them, and those still to light. -/
  | stranded (now : Int) (todo : List Row)
  | query
  | queryIdle (cut : Int) (due : List Row)
  | note (found : Found)
  | forget (found : Found)
  | reactions (found : Found) (todo : List Row)
  | delete (found : Found)
  | drop (found : Found) (todo : List Row)
  | scrub (found : Found) (todo : List Row)
  | blocked (found : Found)
  | lightWaited (found : Found) (blocked : List Text)
  | ended
deriving DecidableEq

structure Sweep where
  kind : Kind
  stage : Stage
deriving DecidableEq

/-- The rows of ours that went and have no clock yet. -/
def Db.stranded (s : Db) : List Row :=
  s.rows.filter fun r => !r.info.incoming && r.info.sent && r.info.burnSecs.isSome &&
    r.burnAt.isNone

def lightStranded (now : Int) (r : Row) (rows : List Row) : List Row :=
  rows.map fun x =>
    if x.id = r.id ∧ x.burnAt = none then
      { x with burnAt := some (now + r.info.burnSecs.getD 0 * second) }
    else x

/-- `_lightWaited`: what waits after a day starts counting, as does what waits of someone blocked,
and what came further ahead of the clock than may be. -/
def lightWaited (now : Int) (blocked : List Text) (idle : List Row) (rows : List Row) : List Row :=
  (idle.filter fun r => !Db.waitedOut now r).foldl (fun rows r =>
    let starts := burnStartBy r.info.sentAt now
    if r.info.peer ∈ blocked then lightUnread r (min now starts) rows
    else if starts ≤ now ∨ now + kBurnSkew < r.info.sentAt then lightUnread r starts rows
    else rows) rows

def dropMost : Nat := 500

/-- One statement of a sweep.  `blocked` is everyone blocked, as it is read then. -/
def sweepStep (blocked : List Text) (s : Db) (t : Sweep) : Db × Sweep :=
  match t.stage with
  | .start =>
    if s.strandedLit then (s, { t with stage := .query })
    else (s, { t with stage := .stranded s.clock s.stranded })
  | .stranded _ [] => ({ s with strandedLit := true }, { t with stage := .query })
  | .stranded now (r :: todo) =>
    (s.light (lightStranded now r s.rows), { t with stage := .stranded now todo })
  | .query => (s, { t with stage := .queryIdle s.clock (s.rows.filter (Db.due s.clock)) })
  | .queryIdle cut due =>
    (s, { t with stage := .note { cut, due, idle := s.rows.filter Row.idle, now := s.clock } })
  | .note f =>
    (s.noteGone f.going, { t with stage := match t.kind with
        | .timer => .forget f
        | .chat => .reactions f f.going })
  | .forget f => (s.forgetGone f.now, { t with stage := .delete f })
  | .reactions f [] => (s, { t with stage := .delete f })
  | .reactions f (r :: todo) => (s.dropReactions r, { t with stage := .reactions f todo })
  | .delete f => (s.deleteRows (Db.due f.cut), { t with stage := .drop f f.waited })
  | .drop f [] => (s, { t with stage := .scrub f f.going })
  | .drop f (r :: todo) =>
    (s.deleteRows (fun x => x.id ∈ ((r :: todo).take dropMost).map Row.id),
      { t with stage := .drop f ((r :: todo).drop dropMost) })
  | .scrub f [] => (s, { t with stage := .blocked f })
  | .scrub f (r :: todo) => (s.shredFiles r, { t with stage := .scrub f todo })
  | .blocked f =>
    if (f.idle.filter fun r => !Db.waitedOut f.now r) = [] then (s, { t with stage := .ended })
    else (s, { t with stage := .lightWaited f blocked })
  | .lightWaited f blocked =>
    (s.light (lightWaited f.now blocked f.idle s.rows), { t with stage := .ended })
  | .ended => (s, t)

/-! ## Runs -/

inductive Act where
  | sweep (kind : Kind)
  | turn (i : Nat) (blocked : List Text)
  | file (info : Info) (burnAt : Option Int)
  | read (uids : List Text)
  | block (peer : Text)
  | albumClock (uid : Text) (burnAt : Int)
  | tick (by' : Nat)

abbrev App := Pool Db Sweep

namespace App

def next (p : App) : Act → App
  | .sweep kind => p.spawn ⟨kind, .start⟩
  | .turn i blocked => p.turn (sweepStep blocked) i
  | .file info burnAt => { p with shared := p.shared.saveMessage info burnAt }
  | .read uids =>
    { p with shared := p.shared.light (lightReadBurns uids p.shared.clock p.shared.rows) }
  | .block peer =>
    { p with shared := p.shared.light (lightFrom peer p.shared.clock p.shared.rows) }
  | .albumClock uid burnAt =>
    { p with shared := p.shared.light (setMsgBurnAt uid burnAt p.shared.clock p.shared.rows) }
  | .tick by' => { p with shared := { p.shared with clock := p.shared.clock + by' } }

def Step (p : App) (act : Act) (p' : App) : Prop := p' = p.next act

end App

end Kryfo.Burn
