import Kryfo.Library.HexBytes

/-!
# The pin table

One salt, a cost and sixteen entries of a tag, what it opens, sealed, and a wrap: a vault's key
sealed under the pin, or random bytes.  The first version had eight entries and no wraps.

Random bytes are drawn beforehand and handed to each call.
-/

namespace Kryfo.Pin

open Library

def pinVersion : Int := 2

def pinEntries : Nat := 16

def pinEntriesV1 : Nat := 8

def nonceLen : Nat := 12

def overhead : Nat := 16

def pinTagLen : Nat := 32

def pinMetaLen : Nat := 17

def pinSealLen : Nat := 45

def pinKeyLen : Nat := 32

def pinWrapLen : Nat := 60

def pinSaltLen : Nat := 32

def pinLogNLow : Int := 14

def pinLogNHigh : Int := 15

/-- What a label is for: the tag, the record of what is opened, or the wrap. -/
inductive What where
  | tag
  | record
  | wrap
  deriving DecidableEq

/-- The checks the app had before the table. -/
inductive OldCheck where
  | app
  | wipe
  deriving DecidableEq

structure Primitives (Pin : Type) where
  scrypt : Pin → Bytes → Int → Bytes
  label : Bytes → What → Nat → Bytes
  sealed : Bytes → Bytes → Bytes → Bytes
  opened : Bytes → Bytes → Bytes → Option Bytes
  legacyHash : Pin → List Char → List Char

structure PinEntry where
  t : List Char
  m : List Char
  w : List Char
  deriving DecidableEq

structure PinTable where
  v : Int
  logN : Int
  salt : List Char
  entries : List PinEntry
  deriving DecidableEq

structure PinLegacy where
  appSalt : List Char
  appHash : List Char
  wipeSalt : List Char
  wipeHash : List Char

structure PinResult where
  index : Int := -1
  kind : Nat := 0
  container : List Char := []
  legacyApp : Bool
  legacyWipe : Bool
  unwrapped : List Char := []
  deriving DecidableEq

structure RawEntry where
  tag : Bytes
  sealed : Bytes
  wrap : Bytes
  deriving DecidableEq

def RawEntry.text (e : RawEntry) : PinEntry := ⟨hexText e.tag, hexText e.sealed, hexText e.wrap⟩

/-- The sizes every entry has. -/
structure RawEntry.Sized (e : RawEntry) : Prop where
  tag : e.tag.length = pinTagLen
  sealed : e.sealed.length = pinSealLen
  wrap : e.wrap.length = pinWrapLen

/-- The random bytes of one call: for an upgrade, a cleared entry, nonces, the wrap of an entry
without a key, and stand-ins for the old checks. -/
structure Draws where
  wraps : Nat → Bytes
  wrapsLength : ∀ i, (wraps i).length = pinWrapLen
  entries : Nat → RawEntry
  entriesSized : ∀ i, (entries i).Sized
  recordNonce : Bytes
  recordNonceLength : recordNonce.length = nonceLen
  wrapNonce : Bytes
  wrapNonceLength : wrapNonce.length = nonceLen
  noWrap : Bytes
  noWrapLength : noWrap.length = pinWrapLen
  standInSalt : OldCheck → List Char
  standInHash : OldCheck → List Char

structure PinRaw where
  salt : Bytes
  entries : List RawEntry
  deriving DecidableEq

def decodeEntry (v : Int) (e : PinEntry) : Option RawEntry :=
  match unhexText e.t, unhexText e.m, unhexText e.w with
  | some tag, some sealed, some wrap =>
    if tag.length = pinTagLen ∧ sealed.length = pinSealLen ∧
        (if v = 1 then e.w = [] else wrap.length = pinWrapLen) then
      some ⟨tag, sealed, wrap⟩
    else none
  | _, _, _ => none

def decodeEntries (v : Int) : List PinEntry → Option (List RawEntry)
  | [] => some []
  | e :: es =>
    match decodeEntry v e, decodeEntries v es with
    | some r, some rs => some (r :: rs)
    | _, _ => none

def wanted (v : Int) : Nat :=
  if v = 1 then pinEntriesV1 else if v = pinVersion then pinEntries else 0

/-- Refused whole if any part is the wrong shape. -/
def PinTable.decode (t : PinTable) : Except String PinRaw :=
  if wanted t.v = 0 ∨ t.entries.length ≠ wanted t.v ∨ t.logN < pinLogNLow ∨ pinLogNHigh < t.logN then
    .error "bad table"
  else
    match unhexText t.salt with
    | none => .error "bad salt"
    | some salt =>
      if salt.length ≠ pinSaltLen then .error "bad salt"
      else
        match decodeEntries t.v t.entries with
        | none => .error "bad entry"
        | some entries => .ok ⟨salt, entries⟩

/-- The entries of the first version with random wraps, and random entries after them. -/
def upgradeEntries (d : Draws) (es : List PinEntry) : List PinEntry :=
  es.mapIdx (fun i e => { e with w := hexText (d.wraps i) }) ++
    (List.range (pinEntries - es.length)).map fun i => (d.entries (es.length + i)).text

def PinTable.upgrade (d : Draws) (t : PinTable) : Except String PinTable :=
  match t.decode with
  | .error e => .error e
  | .ok _ =>
    if t.v = pinVersion then .ok t
    else .ok ⟨pinVersion, t.logN, t.salt, upgradeEntries d t.entries⟩

def PinTable.current (d : Draws) (t : PinTable) : Except String (PinTable × PinRaw) :=
  match t.upgrade d with
  | .error e => .error e
  | .ok up => up.decode.map fun raw => (up, raw)

def newPinTable (d : Draws) (logN : Int) (salt : Bytes) : PinTable where
  v := pinVersion
  logN := logN
  salt := hexText salt
  entries := (List.range pinEntries).map fun i => (d.entries i).text

section

variable {Pin : Type} (prims : Primitives Pin)

def pinKey (pin : Pin) (salt : Bytes) (logN : Int) : Except String Bytes :=
  if logN < pinLogNLow ∨ pinLogNHigh < logN then .error "cost out of range"
  else .ok (prims.scrypt pin salt logN)

def openSealed (key c : Bytes) : Option Bytes :=
  if c.length < nonceLen + overhead then none
  else prims.opened key (c.take nonceLen) (c.drop nonceLen)

def sealWith (key nonce plain : Bytes) : Bytes := nonce ++ prims.sealed key nonce plain

/-- One old check, against a stand-in when nothing is stored. -/
def legacyMatch (d : Draws) (check : OldCheck) (pin : Pin) (salt hash : List Char) : Bool :=
  if salt = [] ∨ hash = [] then prims.legacyHash pin (d.standInSalt check) = d.standInHash check
  else prims.legacyHash pin salt = hash

def legacyApp (d : Draws) (pin : Pin) (old : PinLegacy) : Bool :=
  legacyMatch prims d .app pin old.appSalt old.appHash

def legacyWipe (d : Draws) (pin : Pin) (old : PinLegacy) : Bool :=
  legacyMatch prims d .wipe pin old.wipeSalt old.wipeHash

def tagged (k : Bytes) (entries : List RawEntry) (i : Nat) : Bool :=
  match entries[i]? with
  | some e => prims.label k .tag i = e.tag
  | none => false

def matching (k : Bytes) (entries : List RawEntry) : Option Nat :=
  (List.range pinEntries).foldl (fun found i => if tagged prims k entries i then some i else found)
    none

/-- What an entry opens under a key: the record and the wrapped key. -/
def openEntry (k : Bytes) (e : RawEntry) (i : Nat) : Option Bytes × Option Bytes :=
  (openSealed prims (prims.label k .record i) e.sealed,
    openSealed prims (prims.label k .wrap i) e.wrap)

def PinResult.filled (r : PinResult) (i : Nat) (opened : Option Bytes × Option Bytes) :
    PinResult :=
  match opened.1 with
  | some record =>
    if record.length = pinMetaLen then
      { r with
        index := i
        kind := (record.headD 0).toNat
        container := hexText record.tail
        unwrapped := match opened.2 with
          | some key => if key.length = pinKeyLen then hexText key else []
          | none => [] }
    else r
  | none => r

def checkRaw (k : Bytes) (entries : List RawEntry) (r : PinResult) : PinResult :=
  match matching prims k entries with
  | some i =>
    match entries[i]? with
    | some e => r.filled i (openEntry prims k e i)
    | none => r
  | none => r

def pinCheck (d : Draws) (pin : Pin) (t : PinTable) (old : PinLegacy) :
    Except String PinResult :=
  match t.current d with
  | .error e => .error e
  | .ok (up, raw) =>
    match pinKey prims pin raw.salt up.logN with
    | .error e => .error e
    | .ok k => .ok (checkRaw prims k raw.entries
        { legacyApp := legacyApp prims d pin old, legacyWipe := legacyWipe prims d pin old })

/-- Whether the pin opens an entry other than this one, or matches an old check. -/
def pinClashes (d : Draws) (k : Bytes) (raw : PinRaw) (index : Nat) (pin : Pin)
    (old : PinLegacy) : Bool :=
  ((List.range pinEntries).any fun i => i ≠ index && tagged prims k raw.entries i) ||
    legacyApp prims d pin old || legacyWipe prims d pin old

def pinSealEntry (d : Draws) (k : Bytes) (index : Nat) (record key : Bytes) : RawEntry where
  tag := prims.label k .tag index
  sealed := sealWith prims (prims.label k .record index) d.recordNonce record
  wrap := if key ≠ [] then sealWith prims (prims.label k .wrap index) d.wrapNonce key
    else d.noWrap

def PinTable.setEntry (t : PinTable) (index : Nat) (e : RawEntry) : PinTable :=
  { t with entries := t.entries.set index e.text }

/-- A call's table, with what was wrong when it was refused. -/
abbrev Reply := PinTable × Option String

def pinSetup (d : Draws) (pin : Pin) (t : PinTable) (old : PinLegacy) (index kind : Int)
    (container wrapPlain : Bytes) : Reply :=
  if index < 0 ∨ (pinEntries : Int) ≤ index ∨ kind < 1 ∨ 255 < kind ∨ container.length ≠ 16 ∨
      (wrapPlain.length ≠ 0 ∧ wrapPlain.length ≠ pinKeyLen) then (t, some "bad setup")
  else
    match t.current d with
    | .error e => (t, some e)
    | .ok (up, raw) =>
      match pinKey prims pin raw.salt t.logN with
      | .error e => (t, some e)
      | .ok k =>
        if pinClashes prims d k raw index.toNat pin old then (t, some "collision")
        else (up.setEntry index.toNat (pinSealEntry prims d k index.toNat
          (UInt8.ofNat kind.toNat :: container) wrapPlain), none)

def wholeEntry (opened : Option Bytes × Option Bytes) : Option (Bytes × Bytes) :=
  match opened with
  | (some record, some key) =>
    if record.length = pinMetaLen ∧ key.length = pinKeyLen then some (record, key) else none
  | _ => none

def pinRewrap (d : Draws) (oldPin newPin : Pin) (t : PinTable) (old : PinLegacy) (index : Int) :
    Reply :=
  if index < 0 ∨ (pinEntries : Int) ≤ index then (t, some "bad index")
  else
    match t.current d with
    | .error e => (t, some e)
    | .ok (up, raw) =>
      match pinKey prims oldPin raw.salt t.logN with
      | .error e => (t, some e)
      | .ok ko =>
        if !tagged prims ko raw.entries index.toNat then (t, some "wrong pin")
        else
          match (raw.entries[index.toNat]?).bind fun e =>
              wholeEntry (openEntry prims ko e index.toNat) with
          | none => (t, some "nothing wrapped")
          | some (record, key) =>
            match pinKey prims newPin raw.salt t.logN with
            | .error e => (t, some e)
            | .ok kn =>
              if pinClashes prims d kn raw index.toNat newPin old then
                (t, some "collision")
              else (up.setEntry index.toNat
                (pinSealEntry prims d kn index.toNat record key), none)

end

/-- The entry goes back to random bytes, its wrap too. -/
def pinClear (d : Draws) (t : PinTable) (index : Int) : Reply :=
  match t.current d with
  | .error e => (t, some e)
  | .ok (up, _) =>
    if index < 0 ∨ (pinEntries : Int) ≤ index then (t, some "bad index")
    else (up.setEntry index.toNat (d.entries index.toNat), none)

end Kryfo.Pin
