import Kryfo.Gone
import Kryfo.Roster.Group

/-!
# A room on a member's phone

A room's members are keys.  Its creator sends rosters and removes, a key leaves of its own, and
every key sends frames.  A remove lists the last messages the creator took of each key.
-/

namespace Kryfo.Rooms

open Kryfo.Roster (fitsCap takeRosterStamp)

variable {κ υ ε β δ μ : Type} [DecidableEq κ] [DecidableEq υ] [DecidableEq ε]

/-- A remove names at most this many of a key's last messages. -/
def kRoomRecent : Nat := 32

/-- `entry` is the hash of an id and what is said, `names` tells whether a hash begins with that of
an id, and `fileBody` is what a file says, from its slices in order and its name and caption.  A
quiet room is listened to by nobody, so no lane of it is stopped. -/
structure Config (κ υ ε β δ μ : Type) where
  me : κ
  creator : κ
  shaped : κ → Bool
  cap : Option Nat
  quiet : Bool := false
  entry : υ → β → ε
  names : ε → υ → Bool
  fileBody : Int → List (Option δ) → μ → β
  entry_inj : ∀ {u u' b b'}, entry u b = entry u' b' → u = u' ∧ b = b'
  names_entry : ∀ {u u' b}, names (entry u b) u' = true ↔ u = u'

/-! ## What is kept of each key -/

inductive Lane where
  | heard
  | going
  | stopped
deriving DecidableEq

structure KeyRow (ε : Type) where
  recent : List ε := []
  owed : List ε := []
  lane : Lane := .heard

namespace KeyRow

/-- `noteRoomEntry`. -/
def note (h : ε) (row : KeyRow ε) : KeyRow ε :=
  let recent := row.recent.filter (· ≠ h) ++ [h]
  { row with recent := recent.drop (recent.length - kRoomRecent) }

/-- `noteRoomKeyOut`: of those listed, the ones not taken here are owed; a second remove keeps
what both list. -/
def keyOut (listed : List ε) (row : KeyRow ε) : KeyRow ε :=
  { row with
    owed := listed.filter fun h => h ∉ row.recent ∧ (row.lane = .heard ∨ h ∈ row.owed)
    lane := if row.lane = .stopped then .stopped else .going }

/-- `roomOwesUid`. -/
def owesUid (cfg : Config κ υ ε β δ μ) (u : υ) (row : KeyRow ε) : Bool :=
  row.owed.any (cfg.names · u)

/-- `roomOwedIn`: one is in. -/
def owedIn (cfg : Config κ υ ε β δ μ) (u : υ) (row : KeyRow ε) : KeyRow ε :=
  { row with owed := row.owed.filter fun h => !cfg.names h u }

/-- `roomKeyStopped`. -/
def stop (row : KeyRow ε) : KeyRow ε := { row with owed := [], lane := .stopped }

end KeyRow

/-! ## The room -/

/-- A message in the database: whose, its id and what it says. -/
structure Message (κ υ β : Type) where
  key : κ
  uid : Option υ
  body : β

structure SliceRow (κ υ δ : Type) where
  mid : υ
  sender : κ
  idx : Int
  total : Int
  data : δ

/-- The room here.  `goneIn` has the ids that went, by key.  `filed` lists every message filed,
`listed` what each remove of a key listed, and `applied` whose frames about messages were applied;
the code keeps none of the three. -/
structure Room (κ υ ε β δ : Type) where
  members : List κ
  stamp : Int := 0
  gone : List κ := []
  keys : κ → KeyRow ε := fun _ => {}
  rows : List (Message κ υ β) := []
  goneIn : List (κ × υ) := []
  slices : List (SliceRow κ υ δ) := []
  filed : List (Message κ υ β) := []
  listed : κ → List (List (υ × β)) := fun _ => []
  applied : List κ := []

/-- A slice of a file, as it comes: a file in one slice is a message whole in its frame. -/
structure Slice (υ δ μ : Type) where
  mid : υ
  uid : Option υ
  idx : Int
  total : Int
  data : δ
  info : μ
  sliced : 1 < total

/-- A frame of a room.  A message may carry its sender's member list. -/
inductive Frame (κ υ β δ μ : Type) where
  | create (members : List κ) (stamp : Option Int)
  | add (members : List κ)
  | remove (members : List κ) (late : κ → List (υ × β))
  | leave
  | text (uid : Option υ) (body : β) (roster : Option (List κ))
  | slice (slice : Slice υ δ μ) (roster : Option (List κ))
  | unsend (uid : υ)
  /-- Any other control, a vote, an edit, a reaction or a pin. -/
  | other

/-- Whether another check drops the message, which unfinished files go for their size, and whether
the file is a thumbnail. -/
structure Answer (υ : Type) where
  ends : Bool := false
  trims : List υ := []
  thumbnail : Bool := false

namespace Room

variable (cfg : Config κ υ ε β δ μ) (a : Answer υ)

def has (u : υ) (s : Room κ υ ε β δ) : Bool := s.rows.any (·.uid = some u)

variable (k : κ)

def setKey (f : KeyRow ε → KeyRow ε) (s : Room κ υ ε β δ) : Room κ υ ε β δ :=
  { s with keys := Function.update s.keys k (f (s.keys k)) }

/-- `saveMessage`. -/
def save (m : Message κ υ β) (s : Room κ υ ε β δ) : Room κ υ ε β δ :=
  { s with rows := s.rows ++ [m], filed := s.filed ++ [m] }

/-- `dropMediaChunks`. -/
def dropSlices (mid : υ) (s : Room κ υ ε β δ) : Room κ υ ε β δ :=
  { s with slices := s.slices.filter (·.mid ≠ mid) }

/-- `dropMediaChunks`, those of one sender. -/
def dropSlicesOf (mid : υ) (k : κ) (s : Room κ υ ε β δ) : Room κ υ ε β δ :=
  { s with slices := s.slices.filter fun x => ¬ (x.mid = mid ∧ x.sender = k) }

/-- `_unlistenNow` of one key: its lane stops, unless the key is here. -/
def unlistenNow (s : Room κ υ ε β δ) : Room κ υ ε β δ :=
  if cfg.quiet ∨ k = cfg.me ∨ k ∈ s.members then s else s.setKey k KeyRow.stop

/-- `_unlistenGone`: a key out with nothing owed is not heard any more. -/
def unlistenGone (out : List κ) (s : Room κ υ ε β δ) : Room κ υ ε β δ :=
  (out.filter fun k => (s.keys k).owed.isEmpty).foldl (fun s k => s.unlistenNow cfg k) s

/-! ### Controls -/

/-- `_members`, of a room. -/
def wireMembers (ids : List κ) : List κ := ids.filter fun k => cfg.shaped k

/-- `_fitsCap`, of a room. -/
def fits (n : Nat) : Bool := fitsCap n && cfg.cap.all (n ≤ ·)

/-- A create of the creator's: a key that left does not come back on it. -/
def takeCreate (ids : List κ) (stamp : Option Int) (s : Room κ υ ε β δ) : Room κ υ ε β δ :=
  let members := (wireMembers cfg ids).filter (· ∉ s.gone)
  if !fits cfg members.dedup.length then s
  else
    match takeRosterStamp s.stamp stamp with
    | none => s
    | some stamp => { s with members, stamp }

def takeAdd (ids : List κ) (s : Room κ υ ε β δ) : Room κ υ ε β δ :=
  let adds := ((wireMembers cfg ids).filter (· ∉ s.members)).dedup
  if !fits cfg (s.members.length + adds.length) then s
  else { s with members := s.members ++ adds }

/-- One key is out, with what was listed of it. -/
def keyOut (listed : List (υ × β)) (s : Room κ υ ε β δ) : Room κ υ ε β δ :=
  { s with
    members := s.members.filter (· ≠ k)
    gone := s.gone ++ [k]
    keys := Function.update s.keys k ((s.keys k).keyOut (listed.map fun m => cfg.entry m.1 m.2))
    listed := Function.update s.listed k (listed :: s.listed k) }

/-- A remove of the creator's: each key it names is out, and one that names this phone ends the
room. -/
def takeRemove (ids : List κ) (late : κ → List (υ × β)) (s : Room κ υ ε β δ) :
    Option (Room κ υ ε β δ) :=
  if cfg.me ∈ ids then none
  else some ((ids.foldl (fun s k => s.keyOut cfg k (late k)) s).unlistenGone cfg ids)

def takeLeave (s : Room κ υ ε β δ) : Room κ υ ε β δ :=
  (s.keyOut cfg k []).unlistenGone cfg [k]

/-- The creator's member list on a message, which the phone takes. -/
def takeRoster (roster : Option (List κ)) (s : Room κ υ ε β δ) : Room κ υ ε β δ :=
  match roster with
  | none => s
  | some ids =>
    let members := wireMembers cfg ids
    if k = cfg.creator ∧ k ∈ members ∧ fits cfg members.dedup.length then { s with members }
    else s

/-! ### Messages -/

def fileText (uid : Option υ) (body : β) (s : Room κ υ ε β δ) : Room κ υ ε β δ :=
  if a.ends ∨ uid.any (fun u => s.has u ∨ (k, u) ∈ s.goneIn) then s
  else s.save ⟨k, uid, body⟩

def sliceData (mid : υ) (total : Int) (s : Room κ υ ε β δ) : List (Option δ) :=
  (List.range total.toNat).map fun i =>
    (s.slices.find? fun x => x.mid = mid ∧ x.idx = (i : Int)).map SliceRow.data

/-- `putMediaChunk`. -/
def putSlice (x : Slice υ δ μ) (s : Room κ υ ε β δ) : Room κ υ ε β δ :=
  let kept := (s.slices.filter fun y => ¬ (y.mid = x.mid ∧ y.total ≠ x.total)).filter
    fun y => ¬ (y.mid = x.mid ∧ y.idx = x.idx)
  { s with slices := kept ++ [⟨x.mid, k, x.idx, x.total, x.data⟩] }

/-- A file with all its slices in, named by its id and its bytes.  One of a key taken out goes in
only as it was listed. -/
def fileSlices (x : Slice υ δ μ) (late : Bool) (s : Room κ υ ε β δ) : Room κ υ ε β δ :=
  let body := cfg.fileBody x.total (s.sliceData x.mid x.total) x.info
  let h := cfg.entry x.mid body
  let taken := k ∈ s.members ∨ (late ∧ h ∈ (s.keys k).owed)
  let s := if k ∈ s.members then s.setKey k (KeyRow.note h) else s
  if a.thumbnail ∨ ¬ taken then s.dropSlices x.mid
  else (s.save ⟨k, x.uid, body⟩).dropSlices x.mid

def takeSlice (x : Slice υ δ μ) (late : Bool) (s : Room κ υ ε β δ) : Room κ υ ε β δ :=
  if a.ends ∨ x.uid.any (· ≠ x.mid) ∨ kMaxSlices < x.total ∨ x.idx < 0 ∨ x.total ≤ x.idx ∨
      s.slices.any (fun y => y.mid = x.mid ∧ y.sender ≠ k) then s
  else if (k, x.mid) ∈ s.goneIn ∨ s.has x.mid then s.dropSlicesOf x.mid k
  else
    let s := s.putSlice k x
    if (s.slices.filter (·.mid = x.mid)).length < x.total then
      { s with slices := s.slices.filter (·.mid ∉ a.trims) }
    else s.fileSlices cfg a k x late

/-- A take-back: a message here that is theirs goes, and one that is not here yet is noted. -/
def takeUnsend (u : υ) (s : Room κ υ ε β δ) : Room κ υ ε β δ :=
  if s.has u ∧ ¬ s.rows.any (fun m => m.uid = some u ∧ m.key = k) then s
  else
    let noted := if s.has u then [] else [(k, u)]
    let went := (s.rows.filter (·.uid = some u)).map fun m => (m.key, u)
    { s with
      rows := s.rows.filter (·.uid ≠ some u)
      goneIn := s.goneIn ++ noted ++ went
      slices := s.slices.filter fun x => ¬ (x.mid = u ∧ x.sender = k)
      applied := s.applied ++ [k] }

/-! ### A frame -/

/-- `_applyIncomingPayload`, of a key let through. -/
def applyIncomingPayload (late : Bool) (s : Room κ υ ε β δ) :
    Frame κ υ β δ μ → Option (Room κ υ ε β δ)
  | .create ids stamp => some (if k = cfg.creator then s.takeCreate cfg ids stamp else s)
  | .add ids => some (if k = cfg.creator then s.takeAdd cfg ids else s)
  | .remove ids listed => if k = cfg.creator then s.takeRemove cfg ids listed else some s
  | .leave => some (s.takeLeave cfg k)
  | .text uid body roster => some ((s.takeRoster cfg k roster).fileText a k uid body)
  | .slice x roster => some ((s.takeRoster cfg k roster).takeSlice cfg a k x late)
  | .unsend u => some (s.takeUnsend k u)
  | .other => some { s with applied := s.applied ++ [k] }

/-- A message whole in its frame is noted as taken before it is filed. -/
def noteEntry (s : Room κ υ ε β δ) : Frame κ υ β δ μ → Room κ υ ε β δ
  | .text (some u) body _ => s.setKey k (KeyRow.note (cfg.entry u body))
  | _ => s

/-- The id of a message that is still owed of a key taken out. -/
def owes (s : Room κ υ ε β δ) : Frame κ υ β δ μ → Option υ
  | .text (some u) body _ =>
    if !s.has u ∧ cfg.entry u body ∈ (s.keys k).owed then some u else none
  | .slice x _ =>
    let u := x.uid.getD x.mid
    if !s.has u ∧ (s.keys k).owesUid cfg u then some u else none
  | _ => none

/-- Once one owed is in it is owed no more, and with the last of them the lane stops. -/
def owedIn (u : υ) (s : Room κ υ ε β δ) : Room κ υ ε β δ :=
  if s.has u then
    let s := s.setKey k (KeyRow.owedIn cfg u)
    if (s.keys k).owed.isEmpty then s.unlistenNow cfg k else s
  else s

/-- `_handleRoomFrame`: a frame of a key that is no member is dropped, but for an owed message. -/
def handleRoomFrame (frame : Frame κ υ β δ μ) (s : Room κ υ ε β δ) : Option (Room κ υ ε β δ) :=
  if k ∈ s.members then (s.noteEntry cfg k frame).applyIncomingPayload cfg a k false frame
  else
    match s.owes cfg k frame with
    | some u => (s.applyIncomingPayload cfg a k true frame).map (owedIn cfg k u)
    | none => some s

end Room

/-! ## Runs -/

inductive Act (κ υ β δ μ : Type) where
  | frame (answer : Answer υ) (key : κ) (frame : Frame κ υ β δ μ)
  /-- The wait for what is owed of a key is over. -/
  | stop (key : κ)

def next (cfg : Config κ υ ε β δ μ) (s : Option (Room κ υ ε β δ)) (act : Act κ υ β δ μ) :
    Option (Room κ υ ε β δ) :=
  s.bind fun s =>
    match act with
    | .frame a k frame => s.handleRoomFrame cfg a k frame
    | .stop k => some (if (s.keys k).lane = .going then s.unlistenNow cfg k else s)

def joined (members : List κ) : Room κ υ ε β δ := { members }

/-- The creator's app adds nobody with an add, and puts no member list on a message. -/
def Made (cfg : Config κ υ ε β δ μ) : Act κ υ β δ μ → Prop
  | .frame _ k (.add _) => k ≠ cfg.creator
  | .frame _ k (.text _ _ roster) => k = cfg.creator → roster = none
  | .frame _ k (.slice _ roster) => k = cfg.creator → roster = none
  | _ => True

end Kryfo.Rooms
