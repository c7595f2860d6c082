/-!
# What came in and went

A message that went is known by its uid for a while, so that no copy of it comes back.
-/

namespace Kryfo

/-- In milliseconds. -/
def day : Int := 24 * 60 * 60 * 1000

/-- How long one that came in and went is known by its uid. -/
def kGoneFor : Int := 15 * day

/-- In a chat, or a group whose name is of this kind. -/
def goneKept : Option (List Char) → Bool
  | none => true
  | some group => ':' ∉ group

/-- The most slices a file may come in. -/
def kMaxSlices : Int := 100000

end Kryfo
