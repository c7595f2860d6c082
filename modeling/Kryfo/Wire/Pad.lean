import Mathlib
import Kryfo.Library.Json
import Kryfo.Library.Utf16

/-!
# Frames filled to a few sizes

A frame is filled by a field of zeros put first in its JSON, measured in UTF-8 bytes for a seal and
as a JSON string escapes it for a rumor.  Taking the filler out steps over the first zero without
looking at it, so a filler of no zeros is not seen.
-/

namespace Kryfo.Wire

open Library Library.Utf16

/-! ## The source's functions -/

def padField : Text := units "pz"

def kSealSizes : List Nat := [847, 2767, 10447, 21135, 30399]

def kSealOnionMost : Nat := 98143

def kRumorSizes : List Nat := [1200, 3760, 14000, 28340, 40604]

structure FrameTooLarge where
deriving DecidableEq

def headText : Text := units "halo/1:"

def zero : UInt16 := 0x30

def quote : UInt16 := 0x22

def comma : UInt16 := 0x2c

def leftBrace : UInt16 := 0x7b

def rightBrace : UInt16 := 0x7d

def sliceFrom : Nat := 3

def bodyAt (s : Text) : Option Nat :=
  if (headText ++ [leftBrace]).isPrefixOf s then some (headText.length + 1)
  else if [leftBrace].isPrefixOf s then some 1
  else none

def fieldText : Text := [quote] ++ padField ++ units "\":\""

/-- The fields of a frame without their filler, where one is seen. -/
def strip (body : Text) : Option Text :=
  if fieldText.isPrefixOf body then
    match (body.drop (padField.length + 5)).dropWhile (· = zero) with
    | q :: next :: rest =>
      if q ≠ quote then none
      else if next = comma then some rest
      else if next = rightBrace then some (next :: rest)
      else none
    | _ => none
  else none

def unpad (s : Text) : Text :=
  match bodyAt s with
  | none => s
  | some start =>
    match strip (s.drop start) with
    | none => s
    | some body => s.take start ++ body

def utf8Length (s : Text) : Nat :=
  ((runes s).map fun r => if r < 0x80 then 1 else if r < 0x800 then 2 else if r < 0x10000 then 3
    else 4).sum

def escapedLength (b : Nat) : Nat :=
  if b = 0x22 ∨ b = 0x5c then 2
  else if 0x20 ≤ b then 1
  else if b = 0x08 ∨ b = 0x09 ∨ b = 0x0a ∨ b = 0x0c ∨ b = 0x0d then 2
  else 6

def rumorLength (s : Text) : Nat := ((utf8Encode s).map escapedLength).sum

def firstSize (sizes : List Nat) (need : Nat) : Option Nat := sizes.find? fun size => need ≤ size

def sealTarget (need : Nat) (slice : Bool) : Except FrameTooLarge (Option Nat) :=
  match firstSize (kSealSizes.drop (if slice then sliceFrom else 0)) need with
  | some size => .ok (some size)
  | none =>
    if kSealOnionMost < need then .error {}
    else .ok (some (min ((need + 30400) / 30400 * 30400 - 1) kSealOnionMost))

def rumorTarget (need : Nat) (slice : Bool) : Except FrameTooLarge (Option Nat) :=
  .ok (firstSize (kRumorSizes.drop (if slice then sliceFrom else 0)) need)

/-- A part of media sent in several, read with the platform's JSON decoder. -/
def isSlice (jsonDecode : Text → Option Json) (s : Text) (start : Nat) : Bool :=
  s.tails.any (units "\"ct\":").isPrefixOf &&
    match jsonDecode (s.drop (start - 1)) with
    | some (.obj fields) =>
      match (Json.obj fields).field ['c', 't'], (Json.obj fields).field ['m', 'i', 'd'] with
      | some (.num ct), some (.str _) => 1 < ct
      | _, _ => false
    | _ => false

/-- The two ways a frame is filled. -/
inductive Way where
  | toSeal
  | toRumor
deriving DecidableEq

def Way.target : Way → Nat → Bool → Except FrameTooLarge (Option Nat)
  | toSeal => sealTarget
  | toRumor => rumorTarget

def Way.measure : Way → Text → Nat
  | toSeal => utf8Length
  | toRumor => rumorLength

/-- What follows the zeros of a filler: no comma before the end of the frame. -/
def afterZeros (body : Text) : Text :=
  if body.head? = some rightBrace then [quote] else [quote, comma]

def filler (zeros : Nat) (body : Text) : Text :=
  fieldText ++ List.replicate zeros zero ++ afterZeros body

def fillWith (s : Text) (start zeros : Nat) : Text :=
  s.take start ++ filler zeros (s.drop start) ++ s.drop start

def need (w : Way) (s : Text) (start : Nat) : Nat :=
  w.measure s + w.measure (filler 0 (s.drop start))

section

variable (jsonDecode : Text → Option Json)

def fill (w : Way) (s : Text) : Except FrameTooLarge Text :=
  match bodyAt s with
  | none => .ok s
  | some start =>
    if s.length ≤ start then .ok s
    else
      match w.target (need w s start) (isSlice jsonDecode s start) with
      | .error e => .error e
      | .ok none => .ok s
      | .ok (some size) => .ok (fillWith s start (size - need w s start))

def pad (w : Way) (frame : Text) : Except FrameTooLarge Text := fill jsonDecode w (unpad frame)

def padSeal (plain : Text) : Except FrameTooLarge Text := pad jsonDecode .toSeal plain

def padRumor (frame : Text) : Except FrameTooLarge Text := pad jsonDecode .toRumor frame

end

end Kryfo.Wire
