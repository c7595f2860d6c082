import Kryfo.Library.Base64
import Kryfo.Library.Text

/-!
# The inbox behind the door

What a line has to look like before it is taken, and how many are.  Times are in
seconds.
-/

namespace Kryfo.Door

open Library

abbrev Text := List Char

def inboxMaxLines : Nat := 256

def inboxMaxBytes : Nat := 4 * 2 ^ 20

def inboxMaxLine : Nat := 128 * 1024

def inboxPerSec : ℚ := 2

def inboxBurst : ℚ := 256

def size (text : Text) : Nat := (text.map Char.utf8Size).sum

structure Inbox (η : Type) where
  lines : List Text := []
  bytes : Nat := 0
  recent : List η := []
  tokens : ℚ := inboxBurst
  filled : Option ℚ := none

variable {η : Type} [DecidableEq η]

def inboxBudgetTake (box : Inbox η) (now : ℚ) : Bool × Inbox η :=
  let tokens := match box.filled with
    | none => box.tokens
    | some filled => min (box.tokens + (now - filled) * inboxPerSec) inboxBurst
  if tokens < 1 then (false, { box with tokens := tokens, filled := some now })
  else (true, { box with tokens := tokens - 1, filled := some now })

def inboxShapeOK (line : Text) : Bool :=
  if size line < 8 ∨ inboxMaxLine < size line then false
  else
    match base64Decode line with
    | none => false
    | some raw => 2 ≤ raw.length && (raw.headD 0 = 2 || raw.headD 0 = 3)

/-- The line in the queue, if there is room and it is not already waiting. -/
def inboxPut (hash : Text → η) (box : Inbox η) (now : ℚ) (line : Text) : Bool × Inbox η :=
  if hash line ∈ box.recent then (false, box)
  else if inboxMaxLines ≤ box.lines.length ∨ inboxMaxBytes < box.bytes + size line then (false, box)
  else
    match inboxBudgetTake box now with
    | (false, box) => (false, box)
    | (true, box) =>
      (true, { box with
        lines := box.lines ++ [line]
        bytes := box.bytes + size line
        recent := hash line :: box.recent })

def inboxDrained (box : Inbox η) : Inbox η := { box with lines := [], bytes := 0, recent := [] }

end Kryfo.Door
