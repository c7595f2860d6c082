import Kryfo.Library.Patch
import Kryfo.Picture.Chunks
import Mathlib.Data.Finset.Card

/-!
# A HEIF without its metadata

The items the item table names as Exif or XMP are zeroed where they sit.  Top level boxes that the
format does not name, and what hangs behind the still, are cut off at the tail or emptied.
-/

namespace Kryfo.Picture.Heif

open Library

/-! ## Boxes -/

/-- A box with the positions of its header, its payload and its end. -/
structure Box where
  type : Bytes
  start : Nat
  body : Nat
  stop : Nat
deriving DecidableEq

def u16At (b : Bytes) (i : Nat) : Nat := u16 (b.drop i)

def u32At (b : Bytes) (i : Nat) : Nat := u32 (b.drop i)

/-- The size and the header size of the box at a position, in a stretch up to `limit`. -/
def boxSize (b : Bytes) (i limit : Nat) : Option (Nat × Nat) :=
  if u32At b i = 1 then
    if limit < i + 16 then none
    else if u32At b (i + 8) ≠ 0 then none
    else some (u32At b (i + 12), 16)
  else if u32At b i = 0 then some (limit - i, 8)
  else some (u32At b i, 8)

theorem head_of_boxSize {b : Bytes} {i limit size head : Nat}
    (found : boxSize b i limit = some (size, head)) : 8 ≤ head := by
  unfold boxSize at found
  split at found
  next =>
    split at found
    next => cases found
    next =>
      split at found
      next => cases found
      next =>
        cases found
        decide
  next =>
    split at found
    next =>
      cases found
      decide
    next =>
      cases found
      decide

def boxes (b : Bytes) (i limit : Nat) : Option (List Box) :=
  if limit ≤ i then some []
  else if limit < i + 8 then none
  else
    match _found : boxSize b i limit with
    | none => none
    | some (size, head) =>
      if size < head ∨ limit < i + size then none
      else (boxes b (i + size) limit).map (⟨tag b (i + 4), i, i + head, i + size⟩ :: ·)
termination_by limit - i
decreasing_by
  have := head_of_boxSize _found
  omega

def ofType (type : String) (box : Box) : Bool := box.type == latin1 type

/-! ## The item table -/

/-- Letters in lower case; those past ASCII play no part. -/
def lower (b : UInt8) : UInt8 := if 0x41 ≤ b ∧ b ≤ 0x5A then b + 0x20 else b

def contains (b pattern : Bytes) : Bool := b.tails.any pattern.isPrefixOf

/-- The item an entry names as metadata, if it is one; nothing for an entry that is cut short. -/
def infeItem (src : Bytes) (e : Box) : Option (Option Nat) :=
  if !ofType "infe" e then some none
  else if e.stop < e.body + 4 then none
  else if src.getD e.body 0 < 2 then some none
  else
    let idLen := if src.getD e.body 0 = 2 then 2 else 4
    let p := e.body + 4
    if e.stop < p + idLen + 2 + 4 then none
    else
      let id := if idLen = 2 then u16At src p else u32At src p
      let type := tag src (p + idLen + 2)
      let rest := ((src.drop (p + idLen + 2 + 4)).take (e.stop - (p + idLen + 2 + 4))).map lower
      if type = latin1 "Exif" then some (some id)
      else if type = latin1 "mime" ∧
          (contains rest (latin1 "xmp") ∨ contains rest (latin1 "rdf+xml")) then some (some id)
      else some none

def addItems (src : Bytes) : List Box → Finset Nat → Option (Finset Nat)
  | [], strip => some strip
  | e :: rest, strip =>
    match infeItem src e with
    | none => none
    | some none => addItems src rest strip
    | some (some id) => addItems src rest (insert id strip)

/-- The items that are about the picture and not of it. -/
def stripItems (src : Bytes) (x : Box) : Option (Finset Nat) :=
  if x.stop < x.body + 6 then none
  else
    let entriesAt := x.body + 4 + (if src.getD x.body 0 = 0 then 2 else 4)
    if x.stop < entriesAt then none
    else
      match boxes src entriesAt x.stop with
      | none => none
      | some infes => addItems src infes ∅

/-! ## The places of items -/

structure Place where
  id : Nat
  method : Nat
  pos : Nat
  len : Nat
deriving DecidableEq

def readField (src : Bytes) (stop size p : Nat) : Option (Nat × Nat) :=
  if size = 0 then some (0, p)
  else if size ≠ 4 ∧ size ≠ 8 then none
  else if stop < p + size then none
  else if size = 8 then if u32At src p ≠ 0 then none else some (u32At src (p + 4), p + 8)
  else some (u32At src p, p + 4)

structure Widths where
  off : Nat
  len : Nat
  base : Nat
  idx : Nat

section

variable (src : Bytes) (stop : Nat) (w : Widths)

def readExtent (p : Nat) : Option ((Nat × Nat) × Nat) :=
  match (if 0 < w.idx then readField src stop w.idx p else some (0, p)) with
  | none => none
  | some (_, p) =>
    match readField src stop w.off p with
    | none => none
    | some (off, p) =>
      match readField src stop w.len p with
      | none => none
      | some (len, p) => some ((off, len), p)

def readExtents (id method base : Nat) : Nat → Nat → Option (List Place × Nat)
  | 0, p => some ([], p)
  | count + 1, p =>
    match readExtent src stop w p with
    | none => none
    | some ((off, len), p) =>
      (readExtents id method base count p).map fun (places, p) =>
        (⟨id, method, base + off, len⟩ :: places, p)

def readItem (version : Nat) (p : Nat) : Option (List Place × Nat) :=
  let idLen := if version < 2 then 2 else 4
  if stop < p + idLen then none
  else
    let id := if idLen = 2 then u16At src p else u32At src p
    let p := p + idLen
    if 0 < version ∧ stop < p + 2 then none
    else
      let method := if 0 < version then u16At src p % 16 else 0
      let p := if 0 < version then p + 2 else p
      if stop < p + 2 then none
      else
        match readField src stop w.base (p + 2) with
        | none => none
        | some (base, p) =>
          if stop < p + 2 then none else readExtents src stop w id method base (u16At src p) (p + 2)

def readItems (version : Nat) : Nat → Nat → Option (List Place)
  | 0, _ => some []
  | count + 1, p =>
    match readItem src stop w version p with
    | none => none
    | some (places, p) => (readItems version count p).map (places ++ ·)

end

/-- Every extent the table lists, or nothing when it cannot be read. -/
def ilocPlaces (src : Bytes) (x : Box) : Option (List Place) :=
  if x.stop < x.body + 8 then none
  else
    let version := (src.getD x.body 0).toNat
    if 2 < version then none
    else
      let sizes := (src.getD (x.body + 4) 0).toNat
      let more := (src.getD (x.body + 5) 0).toNat
      let w : Widths :=
        ⟨sizes / 16, sizes % 16, more / 16, if version = 0 then 0 else more % 16⟩
      if version < 2 then readItems src x.stop w version (u16At src (x.body + 6)) (x.body + 8)
      else if x.stop < x.body + 10 then none
      else readItems src x.stop w version (u32At src (x.body + 6)) (x.body + 10)

/-! ## Foreign boxes -/

/-- Where an extent in the file ends; one without a length goes to the end of the file. -/
def Place.stop (src : Bytes) (x : Place) : Nat := if x.len = 0 then src.length else x.pos + x.len

/-- Where the still ends: with the meta box and every byte an item is read from. -/
def dataEnd (src : Bytes) (start : Nat) (places : List Place) : Nat :=
  places.foldl (fun most x => if x.method ≠ 0 then most else max most (x.stop src)) start

/-- The major brand and the compatible ones of the box, from a position on. -/
def brandsFrom (b : Bytes) (f : Box) (i : Nat) : List Bytes :=
  if f.stop < i + 4 then []
  else if i = f.body + 4 then brandsFrom b f (i + 4)
  else tag b i :: brandsFrom b f (i + 4)
termination_by f.stop - i

def brands (b : Bytes) (f : Box) : List Bytes := if ofType "ftyp" f then brandsFrom b f f.body else []

def heifSequences : List Bytes := ["msf1", "hevc", "hevx", "hevm", "hevs", "avis"].map latin1

def heifKnown : List Bytes := ["ftyp", "meta", "mdat", "free", "skip", "moov"].map latin1

/-- The boxes that are left, of which those behind an appended file are all foreign. -/
def foreignBoxes (stillEnd : Nat) (sequence : Bool) : List Box → Bool → List Box
  | [], _ => []
  | b :: rest, appended =>
    let after := decide (stillEnd ≤ b.start)
    let appended := appended || after && ofType "ftyp" b
    let media := ofType "moov" b || ofType "mdat" b
    if b.type ∉ heifKnown ∨ (after && (appended || media && !sequence)) = true then
      b :: foreignBoxes stillEnd sequence rest appended
    else foreignBoxes stillEnd sequence rest appended

/-! ## The file -/

/-- What is read of a file before anything is written. -/
structure Layout where
  top : List Box
  inner : List Box
  strip : Finset Nat
  places : Option (List Place)
  foreign : List Box
deriving DecidableEq

/-- Where the still ends; with a table that cannot be read, or none, it is the file. -/
def stillEnd (src : Bytes) (metaBox : Box) (inner : List Box) (places : Option (List Place)) : Nat :=
  let start := if inner.find? (ofType "iloc") = none ∨ places = none then src.length
    else metaBox.stop
  dataEnd src start (places.getD [])

/-- An image sequence, whose media are the animation. -/
def isSequence (src : Bytes) (top : List Box) : Bool :=
  top.head?.elim false fun f => (brands src f).any (· ∈ heifSequences)

def layout (src : Bytes) : Option Layout :=
  match boxes src 0 src.length with
  | none => none
  | some top =>
    match top.find? (ofType "meta") with
    | none => none
    | some metaBox =>
      if metaBox.stop < metaBox.body + 4 then none
      else
        match boxes src (metaBox.body + 4) metaBox.stop with
        | none => none
        | some inner =>
          match inner.find? (ofType "iinf") with
          | none => none
          | some iinf =>
            match stripItems src iinf with
            | none => none
            | some strip =>
              let iloc := inner.find? (ofType "iloc")
              if iloc = none ∧ strip ≠ ∅ then none
              else
                let places := iloc.elim (some []) (ilocPlaces src)
                some ⟨top, inner, strip, places,
                  foreignBoxes (stillEnd src metaBox inner places) (isSequence src top) top
                    false⟩

def overlaps (src : Bytes) (x : Place) (f : Box) : Bool :=
  x.pos < f.stop && f.start < x.stop src

/-- Where the extent of a metadata item is in the file. -/
def placeAt (l : Layout) (x : Place) : Option Nat :=
  if x.method = 0 then some x.pos
  else if x.method = 1 then (l.inner.find? (ofType "idat")).map (·.body + x.pos)
  else none

/-- Extents of metadata are zeroed, those of other items must not lie in a box about to be
emptied. -/
def blank (src : Bytes) (l : Layout) : List Place → Bytes → Finset Nat → Option (Bytes × Finset Nat)
  | [], out, located => some (out, located)
  | x :: rest, out, located =>
    if x.id ∉ l.strip then
      if x.method = 0 ∧ l.foreign ≠ [] ∧ l.foreign.any (overlaps src x) then none
      else blank src l rest out located
    else
      match placeAt l x with
      | none => none
      | some pos =>
        if x.len = 0 ∨ out.length < pos + x.len then none
        else blank src l rest (patch out pos (List.replicate x.len 0)) (insert x.id located)

def cutAt (foreign : List Box) : List Box → Nat → Nat
  | [], cut => cut
  | b :: rest, cut => if b ∉ foreign then cut else cutAt foreign rest b.start

def emptyBox (out : Bytes) (b : Box) : Bytes :=
  patch (patch out (b.start + 4) (latin1 "free")) b.body (List.replicate (b.stop - b.body) 0)

def emptyBoxes (cut : Nat) (foreign : List Box) (out : Bytes) : Bytes :=
  foreign.foldl (fun out b => if cut ≤ b.start then out else emptyBox out b) out

def dropForeign (out : Bytes) (top foreign : List Box) : Bytes :=
  if foreign = [] then out
  else
    let cut := cutAt foreign top.reverse out.length
    let out := emptyBoxes cut foreign out
    if cut = out.length then out else out.take cut

def heif (src : Bytes) : Option Bytes :=
  match layout src with
  | none => none
  | some l =>
    if l.strip = ∅ ∧ l.foreign = [] then some src
    else
      match l.places with
      | none => none
      | some places =>
        match blank src l places src ∅ with
        | none => none
        | some (out, located) =>
          if located.card ≠ l.strip.card then none
          else some (dropForeign out l.top l.foreign)

end Kryfo.Picture.Heif
