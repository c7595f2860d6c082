import Kryfo.Library.Bytes
import Mathlib.Data.List.Pairwise

/-!
# The sealed inbox of a shut vault

What arrives for a shut vault's chats is sealed to it and waits in a table of the everyday
container, held to a number of rows and of bytes.  It is ticked as if it were shown.
-/

namespace Kryfo.Vault

open Library

def kNotePart : Int := -1

def kMaxSealedNotes : Nat := 2000

def kKeepPart : Int := -2

def kMaxSealedKept : Nat := 500

/-- A row of `vault_inbox`. -/
structure Row where
  id : Nat
  uid : Option String
  part : Option Int
  blob : Bytes
  time : Int
deriving DecidableEq

namespace Row

def size (r : Row) : Nat := r.blob.length

def isNote (r : Row) : Bool := r.part = some kNotePart

def isKept (r : Row) : Bool := r.part = some kKeepPart

end Row

/-- The table in the order of its ids, which are never given twice. -/
structure Inbox where
  rows : List Row
  next : Nat
  ordered : rows.Pairwise fun r r' => r.id < r'.id
  below : ∀ r ∈ rows, r.id < next

namespace Inbox

def empty : Inbox := ⟨[], 0, .nil, by simp⟩

def newRow (inbox : Inbox) (uid : Option String) (part : Option Int) (blob : Bytes) (time : Int) :
    Row := ⟨inbox.next, uid, part, blob, time⟩

/-- `inboxAdd`. -/
def add (inbox : Inbox) (uid : Option String) (part : Option Int) (blob : Bytes) (time : Int) :
    Inbox where
  rows := inbox.rows ++ [inbox.newRow uid part blob time]
  next := inbox.next + 1
  ordered := by
    refine List.pairwise_append.mpr ⟨inbox.ordered, List.pairwise_singleton _ _, ?_⟩
    intro r inside new isNew
    rw [List.mem_singleton.mp isNew]
    exact inbox.below r inside
  below := by
    intro r inside
    obtain old | new := List.mem_append.mp inside
    · exact Nat.lt_succ_of_lt (inbox.below r old)
    · rw [List.mem_singleton.mp new]
      exact Nat.lt_succ_self _

/-- `inboxDelete`. -/
def delete (inbox : Inbox) (id : Nat) : Inbox where
  rows := inbox.rows.filter fun r => r.id ≠ id
  next := inbox.next
  ordered := inbox.ordered.filter _
  below r inside := inbox.below r (List.mem_of_mem_filter inside)

/-- `inboxHas`. -/
def has (inbox : Inbox) (uid : String) (part : Option Int) : Bool :=
  inbox.rows.any fun r => r.uid = some uid && r.part = part

/-- `inboxParts`: the slices of one file that wait. -/
def parts (inbox : Inbox) (uid : String) : Nat :=
  ((inbox.rows.filter fun r => r.uid = some uid && r.part.any (0 ≤ ·)).map Row.part).dedup.length

end Inbox

/-- An arrival as it is sealed. -/
structure Unsealed where
  sender : String
  wire : String
  backPair : Bool
  time : Int
  resend : Bool := false
  resendSince : Option Int := none
  wrapped : Option Int := none
  keyChanged : Bool := false
  receipt : Option String := none
  /-- A note: the uid of what someone sent whom the vault blocked. -/
  blockedDrop : Option String := none
  reached : Option (Int × Int) := none

structure Config where
  maxSealed : Int
  maxSealedBytes : Int
  /-- The arrival as text, sealed to the key: none where that failed. -/
  sealer : String → Unsealed → Option Bytes

/-- `_trim` under way: what waits, and its count of rows and bytes. -/
structure Trim where
  inbox : Inbox
  n : Int
  bytes : Int

namespace Trim

variable (cfg : Config)

def isOver (t : Trim) : Bool := cfg.maxSealed < t.n || cfg.maxSealedBytes < t.bytes

def drop (r : Row) (t : Trim) : Trim := ⟨t.inbox.delete r.id, t.n - 1, t.bytes - r.size⟩

/-- The loop over the notes: some go until what waits is inside the caps and they are. -/
def dropNotes : List Row → Nat → Trim → Trim
  | [], _, t => t
  | r :: rows, left, t =>
    if !t.isOver cfg && left ≤ kMaxSealedNotes then dropNotes rows left t
    else dropNotes rows (left - 1) (t.drop r)

/-- The loop over the others: they go until what waits is inside the caps. -/
def dropOver : List Row → Trim → Trim
  | [], t => t
  | r :: rows, t => if t.isOver cfg then dropOver rows (t.drop r) else t

end Trim

def totalSize (rows : List Row) : Nat := (rows.map Row.size).sum

namespace Inbox

variable (cfg : Config) (inbox : Inbox)

def notes : List Row := inbox.rows.filter Row.isNote

def kept : List Row := inbox.rows.filter Row.isKept

/-- How many of the kept ones wait as any arrival does. -/
def spare : Nat := inbox.kept.length - kMaxSealedKept

def plain : List Row :=
  let waits := (inbox.kept.take inbox.spare).map Row.id
  inbox.rows.filter fun r => !r.isNote && (!r.isKept || r.id ∈ waits)

def last : List Row := inbox.kept.drop inbox.spare

def trim : Bool × Inbox :=
  match inbox.rows.getLast? with
  | none => (false, inbox)
  | some newest =>
    if cfg.maxSealedBytes < newest.size then (false, inbox.delete newest.id)
    else
      let start : Trim := ⟨inbox, inbox.rows.length, totalSize inbox.rows⟩
      let noted := start.dropNotes cfg inbox.notes inbox.notes.length
      (true, (noted.dropOver cfg (inbox.plain ++ inbox.last)).inbox)

end Inbox

structure Router where
  pub : Option String
  inbox : Inbox := .empty
  blocked : List String := []
  sealGen : Nat := 0
  maybeSealed : Bool := false

namespace Router

variable (cfg : Config)

def partOf (a : Unsealed) (part : Option Int) (keep : Bool) : Option Int :=
  if a.blockedDrop.isSome then some kNotePart else if keep then some kKeepPart else part

/-- `seal`.  The answer is whether it was kept. -/
def sealTo (a : Unsealed) (uid : Option String) (part : Option Int) (keep : Bool) (r : Router) :
    Bool × Router :=
  match r.pub with
  | none => (false, r)
  | some pub =>
    match cfg.sealer pub a with
    | none => (false, r)
    | some blob =>
      let trimmed := (r.inbox.add uid (partOf a part keep) blob a.time).trim cfg
      (trimmed.1, { r with inbox := trimmed.2, sealGen := r.sealGen + 1, maybeSealed := true })

end Router

/-- What `_sealArrival` reads of an envelope, of some fields only whether they are there. -/
structure Envelope where
  msgUid : Option String := none
  mediaId : Option String := none
  chunkTotal : Option Int := none
  chunkIndex : Option Int := none
  groupId : Option String := none
  deliveredUid : Option String := none
  groupControl : Option String := none
  message : String := ""
  preview : Bool := false
  imageB64 : Bool := false
  fileB64 : Bool := false
  reaction : Bool := false
  edit : Bool := false
  intro : Bool := false
  need : Bool := false
  pin : Bool := false
  vote : Bool := false
  pollClose : Bool := false
  unsend : Bool := false

namespace Envelope

variable (env : Envelope)

def dataFrame : Bool :=
  env.deliveredUid.isNone && env.groupControl.isNone && !env.intro && !env.need && !env.pin &&
    !env.vote && !env.pollClose && !env.reaction && !env.edit && !env.unsend

def sliced : Bool := env.mediaId.isSome && env.chunkTotal.any (1 < ·)

def part : Option Int := if env.sliced then some (env.chunkIndex.getD 0) else none

def previewOnly : Bool :=
  env.preview && env.message.isEmpty && !env.imageB64 && !env.fileB64

def ticks (mine : Bool) : Option String :=
  if env.groupId.isNone && !mine && env.deliveredUid.isNone && !env.reaction && !env.edit &&
      !env.previewOnly then env.msgUid
  else none

end Envelope

namespace Router

variable (cfg : Config)

/-- A sliced file is whole once every slice waits. -/
def whole (env : Envelope) (uid : String) (r : Router) : Bool :=
  !env.sliced || env.chunkTotal.getD 0 ≤ r.inbox.parts uid

def receipt (env : Envelope) (mine : Bool) (r : Router) : Option String :=
  (env.ticks mine).filter fun uid => r.whole env uid

/-- `_sealArrival`: the uid a receipt goes out for, and the router after it. -/
def sealArrival (now : Int) (myId sender : String) (env : Envelope) (wire : String)
    (fromBackPair : Bool) (wrappedAt : Option Int) (reached : Option (Int × Int)) (r : Router) :
    Option String × Router :=
  let mine : Bool := sender = myId
  if sender ∈ r.blocked then
    match if env.dataFrame then env.msgUid <|> env.mediaId else none with
    | none => (none, r)
    | some key =>
      if r.inbox.has key (some kNotePart) then (none, r)
      else
        (none, (r.sealTo cfg ⟨sender, "", false, now, false, none, none, false, none, some key, none⟩
          (some key) none false).2)
  else if env.msgUid.any fun uid => r.inbox.has uid env.part then
    (if env.part.getD 0 = 0 then r.receipt env mine else none, r)
  else
    let kept := r.sealTo cfg ⟨sender, wire, fromBackPair, now, false, none, wrappedAt, false, none,
      none, reached⟩ env.msgUid env.part (env.groupControl = some "end")
    (if kept.1 then kept.2.receipt env mine else none, kept.2)

end Router

end Kryfo.Vault
