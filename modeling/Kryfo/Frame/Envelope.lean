import Kryfo.Library.Dict
import Kryfo.Library.JsonText

/-!
# The envelope of a message

A message goes out as a JSON object after a fixed head.  Its fields stand in the order in
which they are put there; one that is not there is left out.
-/

namespace Kryfo.Frame

open Library

abbrev Text := List Char

/-- A value that a map of the app can hold: no key stands in it twice. -/
abbrev Value := { j : Json // j.Proper }

structure SenderInfo where
  haloId : Text
  edPub : Text
  onion : Text
  xPub : Text
  avatar : Option Int := none

structure ReactionFrame where
  targetUid : Text
  emoji : Text

structure EditFrame where
  targetUid : Text
  newText : Text

structure PinFrame where
  targetUid : Text
  pinned : Bool

structure IntroFrame where
  haloId : Text
  onion : Text
  xPub : Text
  edPub : Option Text := none
  avatar : Option Int := none
  fc : Option Text := none
  note : Option Text := none

structure NeedFrame where
  mediaId : Text
  indices : List Int

structure VoteFrame where
  pollUid : Text
  choices : List Value
  seq : Int

structure PollCloseFrame where
  pollUid : Text
  finalVotes : Option Value := none

structure AlbumTag where
  id : Text
  n : Int
  i : Int

structure GroupControl where
  type : Text
  name : Option Text := none
  members : Option (List Text) := none
  participants : Option (List (Dict Text Text)) := none
  stamp : Option Int := none
  fc : Option Text := none
  lateUids : Option (Dict Text (List Text)) := none

/-- What `wrapMessage` takes, but for who sends it. -/
structure Options where
  plain : Text
  burnSeconds : Option Int := none
  msgUid : Option Text := none
  reaction : Option ReactionFrame := none
  edit : Option EditFrame := none
  replyTo : Option Text := none
  groupId : Option Text := none
  groupControl : Option GroupControl := none
  imageB64 : Option Text := none
  unsend : Option Text := none
  pin : Option PinFrame := none
  fileB64 : Option Text := none
  fileName : Option Text := none
  voice : Bool := false
  voiceDisguised : Bool := false
  preview : Option (Dict Text Text) := none
  mediaId : Option Text := none
  chunkIndex : Option Int := none
  chunkTotal : Option Int := none
  pvImg : Bool := false
  roster : Option (List Text) := none
  powNonce : Option Int := none
  powBitsUsed : Option Int := none
  deliveredUid : Option Text := none
  secure : Bool := false
  intro : Option IntroFrame := none
  need : Option NeedFrame := none
  canResend : Bool := false
  poll : Option (Dict Text Value) := none
  vote : Option VoteFrame := none
  pollClose : Option PollCloseFrame := none
  sticker : Option Text := none
  supportMarker : Option Int := none
  endNotice : Bool := false
  album : Option AlbumTag := none

/-- Who sends it: the sender, the badge and the keys of the roster. -/
structure Identity where
  sender : Option SenderInfo := none
  supporterBadge : Option Text := none
  rosterParticipants : Option (List (Dict Text Text)) := none

/-- Fields in their order, each with its value if it is there. -/
abbrev Row := List (Text × Option Json)

def present (row : Row) : List (Text × Json) :=
  row.filterMap fun field => field.2.map fun j => (field.1, j)

def mark (on : Bool) : Option Json := if on then some (.num 1) else none

def texts (items : List Text) : Json := .arr (items.map .str)

def textMap (map : Dict Text Text) : Json :=
  .obj (map.entries.map fun entry => (entry.1, .str entry.2))

def textMaps (maps : List (Dict Text Text)) : Json := .arr (maps.map textMap)

def ReactionFrame.toWire (r : ReactionFrame) : Json :=
  .obj [(['u'], .str r.targetUid), (['e'], .str r.emoji)]

def PinFrame.toWire (p : PinFrame) : Json :=
  .obj [(['u'], .str p.targetUid), (['p'], .num (if p.pinned then 1 else 0))]

def EditFrame.toWire (e : EditFrame) : Json :=
  .obj [(['u'], .str e.targetUid), (['m'], .str e.newText)]

def VoteFrame.toWire (v : VoteFrame) : Json :=
  .obj [(['u'], .str v.pollUid), (['c'], .arr (v.choices.map Subtype.val)), (['s'], .num v.seq)]

def PollCloseFrame.toWire (p : PollCloseFrame) : Json :=
  .obj [(['u'], .str p.pollUid), (['f'], (p.finalVotes.map Subtype.val).getD .null)]

def IntroFrame.toWire (i : IntroFrame) : Json :=
  .obj (present [(['h'], some (.str i.haloId)), (['o'], some (.str i.onion)),
    (['x'], some (.str i.xPub)), (['e'], i.edPub.map .str), (['a', 'v'], i.avatar.map .num),
    (['f', 'c'], (i.fc.filter (· ≠ [])).map .str), (['n'], (i.note.filter (· ≠ [])).map .str)])

def NeedFrame.toJson (n : NeedFrame) : Json :=
  .obj [(['u'], .str n.mediaId), (['i'], .arr (n.indices.map .num))]

def AlbumTag.toWire (a : AlbumTag) : Json :=
  .obj [(['i', 'd'], .str a.id), (['n'], .num a.n), (['i'], .num a.i)]

def GroupControl.toWire (g : GroupControl) : Json :=
  .obj (present [(['t'], some (.str g.type)), (['n'], g.name.map .str), (['m'], g.members.map texts),
    (['p'], g.participants.map textMaps), (['v'], g.stamp.map .num), (['f', 'c'], g.fc.map .str),
    (['l', 'u'], g.lateUids.map fun late =>
      .obj (late.entries.map fun entry => (entry.1, texts entry.2)))])

def pollWire (poll : Dict Text Value) : Json :=
  .obj (poll.entries.map fun entry => (entry.1, entry.2.val))

/-- The fields of the body, in the order in which they are put there. -/
def bodyRow (o : Options) (who : Identity) (writtenAt : Int) : Row :=
  [(['m'], some (.str o.plain)), (['w'], some (.num writtenAt)), (['s', 't'], o.sticker.map .str),
    (['s', 'p'], o.supportMarker.map .num),
    (['g', 'e'], mark o.endNotice),
    (['p', 'l'], o.poll.map pollWire),
    (['v', 't'], o.vote.map VoteFrame.toWire),
    (['p', 'c'], o.pollClose.map PollCloseFrame.toWire),
    (['u'], o.msgUid.map .str),
    (['r'], o.reaction.map ReactionFrame.toWire),
    (['p', 'n'], o.pin.map PinFrame.toWire),
    (['e', 'd'], o.edit.map EditFrame.toWire),
    (['i', 'n'], o.intro.map IntroFrame.toWire),
    (['q'], o.replyTo.map .str),
    (['i'], o.imageB64.map .str),
    (['u', 'n'], o.unsend.map .str),
    (['d', 'r'], o.deliveredUid.map .str),
    (['n', 'd'], o.need.map NeedFrame.toJson),
    (['c', 'r'], mark o.canResend),
    (['f'], o.fileB64.map .str),
    (['f', 'n'], o.fileName.map .str),
    (['v', 'o'], mark o.voice),
    (['v', 'd'], mark o.voiceDisguised),
    (['p', 'v'], (o.preview.filter (·.entries ≠ [])).map textMap),
    (['m', 'i', 'd'], o.mediaId.map .str),
    (['c', 'i'], o.chunkIndex.map .num),
    (['c', 't'], o.chunkTotal.map .num),
    (['p', 'i'], mark o.pvImg),
    (['r', 's'], o.roster.map texts),
    (['r', 'p'], who.rosterParticipants.map textMaps),
    (['p', 'w'], o.powNonce.map .num),
    (['p', 'b'], o.powBitsUsed.map .num),
    (['b', 'g'], who.supporterBadge.map .str),
    (['s', 'c'], mark o.secure),
    (['a', 'l'], o.album.map AlbumTag.toWire),
    (['h'], who.sender.map fun s => .str s.haloId),
    (['a', 'v'], who.sender.bind fun s => s.avatar.map .num),
    (['e'], who.sender.map fun s => .str s.edPub),
    (['o'], who.sender.map fun s => .str s.onion),
    (['x'], who.sender.map fun s => .str s.xPub),
    (['b'], (o.burnSeconds.filter (0 < ·)).map .num),
    (['g'], o.groupId.map .str),
    (['g', 'c'], o.groupControl.map GroupControl.toWire)]

def envelopeHead : Text := ['h', 'a', 'l', 'o', '/', '1', ':']

/-- `wrapMessage`, written at a time. -/
def wrapMessage (o : Options) (who : Identity) (writtenAt : Int) : Text :=
  envelopeHead ++ Json.write (.obj (present (bodyRow o who writtenAt)))

/-! ## No key stands twice -/

theorem keys_present_sublist (row : Row) : ((present row).map Prod.fst).Sublist (row.map Prod.fst) := by
  induction row with
  | nil => exact .slnil
  | cons field row ih =>
    obtain ⟨key, _ | j⟩ := field
    · exact .cons key ih
    · exact .cons_cons key ih

theorem mem_present {row : Row} {field : Text × Json} :
    field ∈ present row ↔ (field.1, some field.2) ∈ row := by
  obtain ⟨key, j⟩ := field
  simp only [present, List.mem_filterMap, Option.map_eq_some_iff, Prod.mk.injEq]
  constructor
  · rintro ⟨⟨key', o⟩, inside, j', found, rfl, rfl⟩
    exact found ▸ inside
  · exact fun inside => ⟨_, inside, j, rfl, rfl, rfl⟩

theorem proper_present {row : Row} (keys : (row.map Prod.fst).Nodup)
    (values : ∀ field ∈ row, ∀ j, field.2 = some j → j.Proper) : (Json.obj (present row)).Proper :=
  Json.proper_obj.mpr ⟨keys.sublist (keys_present_sublist row),
    fun field inside => values _ (mem_present.mp inside) field.2 rfl⟩

theorem proper_entries {ν : Type} {map : Dict Text ν} {f : ν → Json} (values : ∀ v, (f v).Proper) :
    (Json.obj (map.entries.map fun entry => (entry.1, f entry.2))).Proper := by
  refine Json.proper_obj.mpr ⟨?_, ?_⟩
  · rw [List.map_map]
    exact map.nodup
  · intro field inside
    obtain ⟨entry, -, rfl⟩ := List.mem_map.mp inside
    exact values entry.2

@[simp] theorem proper_texts (items : List Text) : (texts items).Proper := by
  simp [texts, Json.proper_arr]

@[simp] theorem proper_textMap (map : Dict Text Text) : (textMap map).Proper :=
  proper_entries fun _ => trivial

@[simp] theorem proper_textMaps (maps : List (Dict Text Text)) : (textMaps maps).Proper := by
  simp [textMaps, Json.proper_arr]

@[simp] theorem proper_pollWire (poll : Dict Text Value) : (pollWire poll).Proper :=
  proper_entries fun v => v.2

@[simp] theorem proper_reaction (r : ReactionFrame) : r.toWire.Proper := by
  simp [ReactionFrame.toWire, Json.proper_obj]

@[simp] theorem proper_pin (p : PinFrame) : p.toWire.Proper := by
  simp [PinFrame.toWire, Json.proper_obj]

@[simp] theorem proper_edit (e : EditFrame) : e.toWire.Proper := by
  simp [EditFrame.toWire, Json.proper_obj]

@[simp] theorem proper_vote (v : VoteFrame) : v.toWire.Proper := by
  simp only [VoteFrame.toWire, Json.proper_obj]
  simp +contextual [Json.proper_arr]

@[simp] theorem proper_pollClose (p : PollCloseFrame) : p.toWire.Proper := by
  obtain ⟨pollUid, _ | votes⟩ := p
  · simp [PollCloseFrame.toWire, Json.proper_obj]
  · simp [PollCloseFrame.toWire, Json.proper_obj, votes.2]

@[simp] theorem proper_need (n : NeedFrame) : n.toJson.Proper := by
  simp [NeedFrame.toJson, Json.proper_obj, Json.proper_arr]

@[simp] theorem proper_album (a : AlbumTag) : a.toWire.Proper := by
  simp [AlbumTag.toWire, Json.proper_obj]

@[simp] theorem proper_intro (i : IntroFrame) : i.toWire.Proper := by
  refine proper_present (by simp) ?_
  simp +contextual [Option.map_eq_some_iff]
  constructor
  · rintro _ fc - - rfl
    exact Json.proper_str fc
  · rintro _ note - - rfl
    exact Json.proper_str note

@[simp] theorem proper_groupControl (g : GroupControl) : g.toWire.Proper := by
  refine proper_present (by simp) ?_
  have late : ∀ map : Dict Text (List Text),
      (Json.obj (map.entries.map fun entry => (entry.1, texts entry.2))).Proper :=
    fun map => proper_entries fun items => proper_texts items
  simp +contextual [late]

def bodyKeys : List Text :=
  [['m'], ['w'], ['s', 't'], ['s', 'p'], ['g', 'e'], ['p', 'l'], ['v', 't'], ['p', 'c'], ['u'],
    ['r'], ['p', 'n'], ['e', 'd'], ['i', 'n'], ['q'], ['i'], ['u', 'n'], ['d', 'r'], ['n', 'd'],
    ['c', 'r'], ['f'], ['f', 'n'], ['v', 'o'], ['v', 'd'], ['p', 'v'], ['m', 'i', 'd'],
    ['c', 'i'], ['c', 't'], ['p', 'i'], ['r', 's'], ['r', 'p'], ['p', 'w'], ['p', 'b'],
    ['b', 'g'], ['s', 'c'], ['a', 'l'], ['h'], ['a', 'v'], ['e'], ['o'], ['x'], ['b'], ['g'],
    ['g', 'c']]

theorem keys_bodyRow (o : Options) (who : Identity) (writtenAt : Int) :
    (bodyRow o who writtenAt).map Prod.fst = bodyKeys := rfl

theorem proper_body (o : Options) (who : Identity) (writtenAt : Int) :
    (Json.obj (present (bodyRow o who writtenAt))).Proper := by
  refine proper_present (keys_bodyRow o who writtenAt ▸ by decide) ?_
  simp +contextual [bodyRow, mark]
  refine ⟨?_, ?_, ?_⟩
  · rintro _ preview - - rfl
    exact proper_textMap preview
  · intro j found
    obtain ⟨s, -, avatar⟩ := Option.bind_eq_some_iff.mp found
    obtain ⟨n, -, rfl⟩ := Option.map_eq_some_iff.mp avatar
    exact Json.proper_num n
  · rintro _ seconds - - rfl
    exact Json.proper_num seconds

end Kryfo.Frame
