import Kryfo.Gone
import Kryfo.Library.Text

/-!
# The clocks of timed messages

A timed message waits until it is read, at most a day; then its clock runs.  A read lights what
stands before it in the chat too, an album burns as one, and a block lights what waits.
-/

namespace Kryfo.Burn

abbrev Text := List Char

def second : Int := 1000

/-- The longest a timed message that came in waits to be read. -/
def kBurnWaitMost : Int := day

/-- How far ahead of this phone's clock an arrival may be and still wait. -/
def kBurnSkew : Int := 60 * second

/-- The least an item that joins an album late is shown for. -/
def kAlbumBurnGrace : Int := 10 * second

/-- What a row says that no clock changes. -/
structure Info where
  peer : Text
  incoming : Bool
  sentAt : Int
  writtenAt : Option Int := none
  uid : Option Text := none
  group : Option Text := none
  sent : Bool := true
  mediaPath : Option Text := none
  filePath : Option Text := none
  burnSecs : Option Int := none
  album : Option Text := none
deriving DecidableEq

structure Row where
  id : Nat
  info : Info
  burnAt : Option Int
  burnUnseen : Bool
deriving DecidableEq

def burnStartBy (arrived now : Int) : Int := min arrived now + kBurnWaitMost

def Row.lit (burnAt : Int) (unseen : Bool) (r : Row) : Row :=
  { r with burnAt := some burnAt, burnUnseen := unseen }

variable (r : Row)

def Row.idle : Bool := r.info.incoming && r.info.burnSecs.isSome && r.burnAt.isNone

/-- `_lightUnread`: a waiting row's clock starts with nobody reading it. -/
def lightUnread (begins : Int) (rows : List Row) : List Row :=
  rows.map fun x =>
    if x.id = r.id ∧ x.burnAt = none then
      x.lit (begins + r.info.burnSecs.getD 0 * second) true
    else x

/-- `_lightFrom`: what waits of someone blocked starts counting. -/
def lightFrom (peer : Text) (now : Int) (rows : List Row) : List Row :=
  (rows.filter fun r => r.info.peer = peer ∧ r.idle).foldl
    (fun rows r => lightUnread r (min now (burnStartBy r.info.sentAt now)) rows) rows

/-! ## Albums -/

def albumBurnAt (clocks : List (Option Int)) : Option Int :=
  clocks.foldl (fun best clock =>
    match clock, best with
    | none, _ => best
    | some clock, none => some clock
    | some clock, some best => if clock < best then some clock else some best) none

def albumItemBurnAt (own : Int) (mates : List (Option Int)) (now : Int) : Int :=
  match albumBurnAt mates with
  | none => own
  | some album => min own (max album (now + kAlbumBurnGrace))

/-- The album a message is in, and whose. -/
structure Album where
  album : Text
  peer : Text
  group : Text
  incoming : Bool

def albumOf (rows : List Row) (uid : Text) : Option Album :=
  rows.findSome? fun r =>
    if r.info.uid = some uid then
      r.info.album.map fun album => ⟨album, r.info.peer, r.info.group.getD [], r.info.incoming⟩
    else none

def Album.mate (a : Album) (uid : Text) (r : Row) : Bool :=
  r.info.album = some a.album && r.info.peer = a.peer && r.info.group.getD [] = a.group &&
    r.info.incoming = a.incoming && r.info.uid.isSome && r.info.uid ≠ some uid

def albumClocks (rows : List Row) (uid : Text) : List (Option Int) :=
  match albumOf rows uid with
  | none => []
  | some a => (rows.filter fun r => a.mate uid r && r.burnAt.isSome && !r.burnUnseen).map Row.burnAt

def setMsgBurnAt (uid : Text) (burnAt now : Int) (rows : List Row) : List Row :=
  let at' := albumItemBurnAt burnAt (albumClocks rows uid) now
  rows.map fun r => if r.info.uid = some uid then { r with burnAt := some at' } else r

/-! ## A read -/

def readBurnAt (now secs : Int) (r : Row) (rows : List Row) : Int :=
  let fresh := min now (burnStartBy r.info.sentAt now) + secs * second
  let own := min (r.burnAt.getD fresh) fresh
  match r.info.uid with
  | some uid => albumItemBurnAt own (albumClocks rows uid) now
  | none => own

def lightOwn (burnAt : Int) (rows : List Row) : List Row :=
  rows.map fun x =>
    if x.id = r.id ∧ (if r.burnAt.isNone then x.burnAt = none else x.burnUnseen = true) then
      x.lit burnAt false
    else x

def lightMates (uid : Text) (burnAt : Int) (rows : List Row) : List Row :=
  match albumOf rows uid with
  | none => rows
  | some a => rows.map fun x =>
    if a.mate uid x ∧ x.info.burnSecs.isSome ∧
        (x.burnAt = none ∨ x.burnAt.any (burnAt < ·) ∨ x.burnUnseen = true) then
      x.lit burnAt false
    else x

def lightRow (now : Int) (r : Row) (rows : List Row) : List Row :=
  match r.info.burnSecs with
  | none => rows
  | some secs =>
    if r.burnAt.isSome ∧ r.burnUnseen = false then rows
    else
      let burnAt := readBurnAt now secs r rows
      match r.info.uid with
      | none => lightOwn r burnAt rows
      | some uid => lightMates uid burnAt (lightOwn r burnAt rows)

def Row.rowWrittenAt : Int := r.info.writtenAt.getD r.info.sentAt

/-- The chat a row stands in: a group, or a person. -/
def Row.chat : Text × Option Text :=
  match r.info.group with
  | none | some [] => (r.info.peer, none)
  | some group => ([], some group)

def Row.inChat : Text × Option Text → Bool
  | (peer, none) => r.info.peer = peer && r.info.group.isNone
  | (_, some group) => r.info.group = some group

def newestRead (rows : List Row) : List ((Text × Option Text) × Int × Nat) :=
  rows.foldl (fun newest r =>
    let (w, id) := (newest.lookup r.chat).getD (-1, 0)
    newest.filter (·.1 ≠ r.chat) ++ [(r.chat, max w r.rowWrittenAt, max id r.id)]) []

/-- What is unread in a chat up to a row: it waits, or counts since before anyone read. -/
def lightOlder (now : Int) (unread : Row → Bool) (rows : List Row)
    (newest : (Text × Option Text) × Int × Nat) : List Row :=
  (rows.filter fun r => r.inChat newest.1 && r.info.incoming && r.info.burnSecs.isSome &&
      unread r && r.rowWrittenAt ≤ newest.2.1 && r.id ≤ newest.2.2).foldl
    (fun rows r => lightRow now r rows) rows

def lightReadBurns (uids : List Text) (now : Int) (rows : List Row) : List Row :=
  let read := rows.filter fun r => r.info.incoming && r.info.uid.any (· ∈ uids)
  let lit := read.foldl (fun rows r => lightRow now r rows) rows
  (newestRead read).foldl (fun rows newest =>
    lightOlder now Row.burnUnseen (lightOlder now (·.burnAt.isNone) rows newest) newest) lit

/-! ## Lighting changes clocks only -/

def SameRows (rows rows' : List Row) : Prop :=
  rows.map (fun r => (r.id, r.info)) = rows'.map fun r => (r.id, r.info)

theorem SameRows.refl (rows : List Row) : SameRows rows rows := rfl

theorem SameRows.trans {rows rows' rows'' : List Row} (first : SameRows rows rows')
    (next : SameRows rows' rows'') : SameRows rows rows'' := Eq.trans first next

theorem sameRows_map {rows : List Row} {f : Row → Row}
    (keeps : ∀ r, (f r).id = r.id ∧ (f r).info = r.info) : SameRows rows (rows.map f) := by
  unfold SameRows
  rw [List.map_map]
  refine List.map_congr_left fun r _ => ?_
  rw [Function.comp_apply, (keeps r).1, (keeps r).2]

theorem sameRows_foldl {α : Type} {f : List Row → α → List Row}
    (keeps : ∀ rows x, SameRows rows (f rows x)) (xs : List α) (rows : List Row) :
    SameRows rows (xs.foldl f rows) := by
  induction xs generalizing rows with
  | nil => exact .refl rows
  | cons x xs ih => exact (keeps rows x).trans (ih (f rows x))

theorem sameRows_lightUnread (begins : Int) (rows : List Row) :
    SameRows rows (lightUnread r begins rows) := by
  refine sameRows_map fun x => ?_
  split_ifs <;> exact ⟨rfl, rfl⟩

theorem sameRows_lightFrom (peer : Text) (now : Int) (rows : List Row) :
    SameRows rows (lightFrom peer now rows) :=
  sameRows_foldl (fun rows r => sameRows_lightUnread r _ rows) _ rows

theorem sameRows_setMsgBurnAt (uid : Text) (burnAt now : Int) (rows : List Row) :
    SameRows rows (setMsgBurnAt uid burnAt now rows) := by
  refine sameRows_map fun r => ?_
  split_ifs <;> exact ⟨rfl, rfl⟩

theorem sameRows_lightOwn (burnAt : Int) (rows : List Row) :
    SameRows rows (lightOwn r burnAt rows) := by
  refine sameRows_map fun x => ?_
  by_cases picked : x.id = r.id ∧ (if r.burnAt.isNone then x.burnAt = none else x.burnUnseen = true)
  · rw [if_pos picked]
    exact ⟨rfl, rfl⟩
  · rw [if_neg picked]
    exact ⟨rfl, rfl⟩

theorem sameRows_lightMates (uid : Text) (burnAt : Int) (rows : List Row) :
    SameRows rows (lightMates uid burnAt rows) := by
  unfold lightMates
  split
  · exact .refl rows
  · refine sameRows_map fun x => ?_
    split_ifs <;> exact ⟨rfl, rfl⟩

theorem sameRows_lightRow (now : Int) (r : Row) (rows : List Row) :
    SameRows rows (lightRow now r rows) := by
  unfold lightRow
  split
  · exact .refl rows
  · split_ifs
    · exact .refl rows
    · split
      · exact sameRows_lightOwn r _ rows
      · exact (sameRows_lightOwn r _ rows).trans (sameRows_lightMates _ _ _)

theorem sameRows_lightOlder (now : Int) (unread : Row → Bool) (rows : List Row)
    (newest : (Text × Option Text) × Int × Nat) :
    SameRows rows (lightOlder now unread rows newest) :=
  sameRows_foldl (fun rows r => sameRows_lightRow now r rows) _ rows

theorem sameRows_lightReadBurns (uids : List Text) (now : Int) (rows : List Row) :
    SameRows rows (lightReadBurns uids now rows) := by
  have lit : ∀ read : List Row, SameRows rows (read.foldl (fun rows r => lightRow now r rows) rows) :=
    fun read => sameRows_foldl (fun rows r => sameRows_lightRow now r rows) read rows
  exact (lit _).trans (sameRows_foldl (fun rows newest =>
    (sameRows_lightOlder now _ rows newest).trans (sameRows_lightOlder now _ _ newest)) _ _)

end Kryfo.Burn
