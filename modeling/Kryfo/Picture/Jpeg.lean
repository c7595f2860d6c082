import Kryfo.Library.LittleEndian

/-!
# A JPEG without its metadata

Two walks read a file by its markers.  Between scans every marker is taken to carry a length.  The
segments a walk asks about are given here as a list.
-/

namespace Kryfo.Picture.Jpeg

open Library

/-! ## Segments -/

inductive Piece where
  | mark (marker : UInt8)
  | segment (marker : UInt8) (body : Bytes)
  | scan (body : Bytes)
deriving DecidableEq

def Piece.bytes : Piece → Bytes
  | mark m => [0xFF, m]
  | segment m body => 0xFF :: m :: body
  | scan body => 0xFF :: 0xDA :: body

def isRestart (m : UInt8) : Bool := 0xD0 ≤ m && m ≤ 0xD7

def takeBody : Bytes → Option (Bytes × Bytes)
  | hi :: lo :: rest =>
    let len := hi.toNat * 256 + lo.toNat
    if len < 2 ∨ rest.length + 2 < len then none
    else some ((hi :: lo :: rest).take len, (hi :: lo :: rest).drop len)
  | _ => none

theorem length_of_takeBody {s body rest : Bytes} (taken : takeBody s = some (body, rest)) :
    rest.length + 2 ≤ s.length := by
  unfold takeBody at taken
  split at taken
  next hi lo after =>
    dsimp only at taken
    split at taken
    next => cases taken
    next fits =>
      cases taken
      simp only [List.length_drop, List.length_cons]
      omega
  next => cases taken

/-- Data up to the next real marker: a zero or a restart marker after `0xFF` is data. -/
def entropy : Bytes → Option (Bytes × Bytes)
  | [] => none
  | [_] => none
  | b :: m :: rest =>
    if b ≠ 0xFF then (entropy (m :: rest)).map fun (data, next) => (b :: data, next)
    else if m = 0 ∨ isRestart m then
      (entropy rest).map fun (data, next) => (b :: m :: data, next)
    else if m = 0xFF then (entropy (m :: rest)).map fun (data, next) => (b :: data, next)
    else some ([], b :: m :: rest)

theorem eq_of_entropy {s data next : Bytes} (found : entropy s = some (data, next)) :
    s = data ++ next := by
  fun_induction entropy s generalizing data next with
  | case1 | case2 => cases found
  | case3 b m rest _ ih | case4 b m rest _ _ ih | case5 b rest _ _ ih =>
    obtain ⟨⟨data', next'⟩, found', eq⟩ := Option.map_eq_some_iff.mp found
    cases eq
    rw [ih found']
    rfl
  | case6 =>
    cases found
    rfl

/-- A scan's header and its data, and the marker that ends it. -/
def scanData (s : Bytes) : Option (Bytes × Bytes) :=
  match takeBody s with
  | none => none
  | some (head, rest) => (entropy rest).map fun (data, next) => (head ++ data, next)

theorem length_of_scanData {s body next : Bytes} (found : scanData s = some (body, next)) :
    next.length + 2 ≤ s.length := by
  unfold scanData at found
  split at found
  next => cases found
  next head rest taken =>
    obtain ⟨⟨data, next'⟩, found', eq⟩ := Option.map_eq_some_iff.mp found
    cases eq
    have := length_of_takeBody taken
    have := congrArg List.length (eq_of_entropy found')
    rw [List.length_append] at this
    omega

/-! ## The walks -/

/-- The walk from the first scan on, standing at a marker: the end, a scan or a segment. -/
def scan : Bytes → Option (List Piece)
  | _ :: m :: rest =>
    if m = 0xD9 then some []
    else if m = 0xDA then
      match _found : scanData rest with
      | none => none
      | some (body, next) => (scan next).map (Piece.scan body :: ·)
    else
      match _taken : takeBody rest with
      | none => none
      | some (body, b :: m' :: next) =>
        if b ≠ 0xFF then none else (scan (b :: m' :: next)).map (Piece.segment m body :: ·)
      | some _ => none
  | _ => none
termination_by s => s.length
decreasing_by
  · have := length_of_scanData _found
    simp only [List.length_cons]
    omega
  · have := length_of_takeBody _taken
    simp only [List.length_cons] at this ⊢
    omega

/-- The markers that the walk before the scans knows to stand alone. -/
def isStandalone (m : UInt8) : Bool := m == 0xD8 || isRestart m || m == 0x01

def walk : Bytes → Option (List Piece)
  | b :: m :: hi :: lo :: rest =>
    if b ≠ 0xFF then none
    else if m = 0xFF then walk (m :: hi :: lo :: rest)
    else if m = 0xDA then scan (b :: m :: hi :: lo :: rest)
    else if isStandalone m then (walk (hi :: lo :: rest)).map (Piece.mark m :: ·)
    else
      match _taken : takeBody (hi :: lo :: rest) with
      | none => none
      | some (body, next) => (walk next).map (Piece.segment m body :: ·)
  | _ => none
termination_by s => s.length
decreasing_by
  · simp
  · simp
  · have := length_of_takeBody _taken
    simp only [List.length_cons] at this ⊢
    omega

/-! ## What is kept -/

/-- `ICC_PROFILE` and a zero. -/
def icc : Bytes := [73, 67, 67, 95, 80, 82, 79, 70, 73, 76, 69, 0]

def isIcc (body : Bytes) : Bool := icc.isPrefixOf (body.drop 2)

def keeps (m : UInt8) (body : Bytes) : Bool :=
  if m = 0xE0 then true
  else if m = 0xE2 then isIcc body
  else if 0xE1 ≤ m ∧ m ≤ 0xEF then false
  else if m = 0xFE then false
  else true

def kept : Piece → Bool
  | .segment m body => keeps m body
  | _ => true

/-! ## Orientation -/

def u16 (le : Bool) (b : Bytes) (i : Nat) : Nat :=
  if le then read16 (b.drop i) else Library.u16 (b.drop i)

def u32 (le : Bool) (b : Bytes) (i : Nat) : Nat :=
  if le then read32 (b.drop i) else Library.u32 (b.drop i)

/-- The entries of the directory that are left, the next of them at `e`. -/
def entryTurn (le : Bool) (tiff : Bytes) (e : Nat) : Nat → Nat
  | 0 => 1
  | left + 1 =>
    if tiff.length < e + 12 then 1
    else if u16 le tiff e = 0x0112 then
      if 1 ≤ u16 le tiff (e + 8) ∧ u16 le tiff (e + 8) ≤ 8 then u16 le tiff (e + 8) else 1
    else entryTurn le tiff (e + 12) left

def exifHead : Bytes := [0x45, 0x78, 0x69, 0x66, 0, 0]

/-- The orientation in an `APP1` segment, one where there is none. -/
def orientation (body : Bytes) : Nat :=
  let data := body.drop 2
  if data.length < 6 + 8 then 1
  else if data.take 6 ≠ exifHead then 1
  else
    let tiff := data.drop 6
    let le := tiff.take 2 == [0x49, 0x49]
    if !le && tiff.take 2 != [0x4D, 0x4D] then 1
    else
      let ifd := u32 le tiff 4
      if tiff.length < ifd + 2 then 1 else entryTurn le tiff (ifd + 2) (u16 le tiff ifd)

/-- The block with the orientation alone, behind its marker. -/
def orientationBody (turn : UInt8) : Bytes :=
  [0x00, 0x22, 0x45, 0x78, 0x69, 0x66, 0x00, 0x00, 0x4D, 0x4D, 0x00, 0x2A, 0x00, 0x00, 0x00, 0x08,
    0x00, 0x01, 0x01, 0x12, 0x00, 0x03, 0x00, 0x00, 0x00, 0x01, 0x00, turn, 0x00, 0x00,
    0x00, 0x00, 0x00, 0x00]

def orientationOnly (turn : UInt8) : Bytes := 0xFF :: 0xE1 :: orientationBody turn

def isOrientationOnly (segment : Bytes) : Bool :=
  segment.length == 36 && segment == orientationOnly (segment.getD 29 0)

/-- What is asked of each segment for the orientation: the first one that says so. -/
def noteTurn (turn : Nat) : Piece → Nat
  | .segment m body => if m = 0xE1 ∧ turn = 1 then orientation body else turn
  | _ => turn

/-! ## The file -/

def isJpeg (src : Bytes) : Bool := 4 ≤ src.length && src.take 2 == [0xFF, 0xD8]

def stripJpegMetadata (src : Bytes) : Option Bytes :=
  if !isJpeg src then some src
  else
    (walk (src.drop 2)).map fun pieces =>
      let turn := pieces.foldl noteTurn 1
      [0xFF, 0xD8] ++ (if 2 ≤ turn ∧ turn ≤ 8 then orientationOnly (UInt8.ofNat turn) else []) ++
        (pieces.filter kept).flatMap Piece.bytes ++ [0xFF, 0xD9]

def isTag : Piece → Bool
  | .segment m body => m == 0xE1 && !isOrientationOnly (0xFF :: m :: body)
  | _ => false

def jpegHasExif (src : Bytes) : Bool :=
  if !isJpeg src then false
  else
    match walk (src.drop 2) with
    | none => true
    | some pieces => pieces.any isTag

end Kryfo.Picture.Jpeg
