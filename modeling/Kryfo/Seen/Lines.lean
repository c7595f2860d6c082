import Kryfo.Nostr
import Kryfo.Library.Fifo
import Kryfo.Library.Table

/-!
# The lines of a seen file

A line each: an id that opened, one that did not with `-` before it, one left on the relay with `+`
before it and its stamp, its group and when it reached the relay behind it.  After a `!` every id
held so far is fetched again, after a `~` every one goes as kept.
-/

namespace Kryfo.Seen

open Library

def seenKeep : Nat := 3000

def seenUnopenedKeep : Nat := 500

def seenHeldKeep : Nat := 200

def seenHeldPerGroup : Nat := 512

def seenHeldMost : Nat := 2000

def seenHeldFor : Int := 14 * 24 * 3600

def seenFileMax : Nat := seenKeep + seenUnopenedKeep + seenHeldMost + 100

/-- `heldAt`; `stamp`, `reachFrom` and `reachUntil` are the source's `at`, `from` and `until`. -/
structure HeldAt where
  stamp : Int64
  free : Bool
  group : Word
  reachFrom : Int64
  reachUntil : Int64
deriving DecidableEq

/-- An event reached the relay no earlier than the one and no later than the
other. -/
def HeldAt.Reached (h : HeldAt) : Prop := 0 ≤ h.reachFrom ∧ h.reachFrom ≤ h.reachUntil

abbrev Held := Table ID HeldAt

variable (id : ID)

theorem take_hex : (hex id).take 16 = hexOf 16 (id.toNat / 16 ^ 48) := by
  rw [hex, show (64 : Nat) = 16 + 48 from rfl, take_hexOf]

def shortHex : Word :=
  ⟨(hex id).take 16, by rw [take_hex]; exact isWord_hexOf (by decide)⟩

theorem val_shortHex : (shortHex id).val = hexOf 16 (id.toNat / 16 ^ 48) := by
  rw [← take_hex, shortHex]

/-- `heldGroup`: the app's name for the group, hashed to eight bytes, or the id itself. -/
def heldGroup (digest : List Char → BitVec 64) (id : ID) (name : List Char) : Word :=
  if name = [] then shortHex id
  else ⟨hexOf 16 (digest name).toNat, isWord_hexOf (by decide)⟩

def heldLimits : Table.Limits := ⟨seenHeldMost, seenHeldPerGroup, seenHeldKeep⟩

/-- `heldRoom`: whether one more id of `group` fits beside what is held. -/
def heldRoom (held : Held) (group : Word) : Bool := heldLimits.room HeldAt.group held group

/-- `heldGone`: the relays no longer keep it. -/
def heldGone (stamp : Int64) (now : Int) : Bool := decide (stamp.toInt < now - seenHeldFor)

def pruneHeld (now : Int) (held : Held) : Held := held.keep fun h => !heldGone h.stamp now

/-! ## Reading and writing a line -/

/-- `strconv.ParseInt` to sixty-four bits. -/
def parseInt64 (text : List Char) : Option Int64 :=
  match parseInt text with
  | some n => if -2 ^ 63 ≤ n ∧ n < 2 ^ 63 then some (Int64.ofInt n) else none
  | none => none

def parseSeenID (text : List Char) : Option ID :=
  if text.length ≠ 64 then none else (unhex text).map (BitVec.ofNat 256)

/-- When a held event reached the relay, if the line says so and makes sense. -/
def readReach (rest : List Word) (h : HeldAt) : HeldAt :=
  match rest with
  | _ :: a :: b :: _ =>
    match parseInt64 a.val, parseInt64 b.val with
    | some reachFrom, some reachUntil =>
      if 0 ≤ reachFrom ∧ reachFrom ≤ reachUntil then
        { h with reachFrom := reachFrom, reachUntil := reachUntil }
      else h
    | _, _ => h
  | _ => h

/-- `parseHeldLine`, past the `+`. -/
def parseHeldLine (text : List Char) : Option (ID × HeldAt) :=
  match fields text with
  | first :: second :: rest =>
    match parseSeenID first.val, parseInt64 second.val with
    | some id, some stamp =>
      some (id, readReach rest
        { stamp := stamp, free := false, group := rest.headD (shortHex id),
          reachFrom := 0, reachUntil := 0 })
    | _, _ => none
  | _ => none

def heldLine (h : HeldAt) : List Char :=
  '+' :: (hex id ++ ' ' :: (formatInt h.stamp.toInt ++ ' ' :: (h.group.val ++
    if 0 < h.reachUntil then
      ' ' :: (formatInt h.reachFrom.toInt ++ ' ' :: formatInt h.reachUntil.toInt)
    else [])))

/-- What a line says. -/
inductive Entry where
  | free
  | drop
  | held (read : Option (ID × HeldAt))
  | unopened (id : Option ID)
  | opened (id : Option ID)
deriving DecidableEq

/-- The switch `readLine` and `compactLocked` share. -/
def parseLine : List Char → Entry
  | ['!'] => .free
  | ['~'] => .drop
  | '+' :: text => .held (parseHeldLine text)
  | '-' :: text => .unopened (parseSeenID text)
  | line => .opened (parseSeenID line)

@[simp] theorem parseInt64_formatInt (n : Int64) : parseInt64 (formatInt n.toInt) = some n := by
  have := n.toInt_lt
  have := n.le_toInt
  rw [parseInt64, parseInt_formatInt]
  simp only
  rw [if_pos (by omega), Int64.ofInt_toInt]

@[simp] theorem parseSeenID_hex : parseSeenID (hex id) = some id := by
  rw [parseSeenID, if_neg (by simp), unhex_hex, Option.map_some, BitVec.ofNat_toNat,
    BitVec.setWidth_eq]

theorem reached_of_parseHeldLine {text : List Char} {id : ID} {h : HeldAt}
    (read : parseHeldLine text = some (id, h)) : h.Reached := by
  have kept : ∀ (rest : List Word) (h : HeldAt), h.Reached → (readReach rest h).Reached := by
    intro rest h before
    unfold readReach
    split
    · split
      · split_ifs with sense
        · exact sense
        · exact before
      · exact before
    · exact before
  unfold parseHeldLine at read
  split at read
  · split at read
    · cases read
      exact kept _ _ ⟨Int64.le_refl _, Int64.le_refl _⟩
    · cases read
  · cases read

theorem reached_of_parseLine {line : List Char} {id : ID} {h : HeldAt}
    (parsed : parseLine line = .held (some (id, h))) : h.Reached := by
  unfold parseLine at parsed
  split at parsed
  all_goals first | contradiction | exact reached_of_parseHeldLine (Entry.held.inj parsed)

def hexWord : Word := ⟨hex id, isWord_hexOf (by decide)⟩

def intWord (n : Int64) : Word := ⟨formatInt n.toInt, isWord_formatInt _⟩

theorem fields_heldLine (h : HeldAt) :
    fields (heldLine id h).tail = hexWord id :: intWord h.stamp :: h.group ::
      if 0 < h.reachUntil then [intWord h.reachFrom, intWord h.reachUntil] else [] := by
  change fields ((hexWord id).val ++ ' ' :: ((intWord h.stamp).val ++ ' ' :: (h.group.val ++
    if 0 < h.reachUntil then
      ' ' :: ((intWord h.reachFrom).val ++ ' ' :: (intWord h.reachUntil).val)
    else []))) = _
  rw [fields_word_append, fields_word_append]
  split_ifs
  · rw [fields_word_append, fields_word_append, fields_word]
  · rw [List.append_nil, fields_word]

theorem parseLine_heldLine {h : HeldAt} (reached : h.Reached) :
    parseLine (heldLine id h) = .held (some (id, { h with free := false })) := by
  have shape : parseLine (heldLine id h) = .held (parseHeldLine (heldLine id h).tail) := rfl
  rw [shape, parseHeldLine, fields_heldLine]
  simp only [hexWord, intWord]
  split_ifs with known
  · simp [readReach, reached.1, reached.2]
  · have atZero : h.reachUntil = 0 :=
      Int64.le_antisymm (Int64.not_lt.mp known) (Int64.le_trans reached.1 reached.2)
    have fromZero : h.reachFrom = 0 := Int64.le_antisymm (atZero ▸ reached.2) reached.1
    simp [readReach, atZero, fromZero]

theorem plain_heldLine (h : HeldAt) : heldLine id h ≠ [] ∧ '\n' ∉ heldLine id h := by
  have noBreak : ∀ word : Word, '\n' ∉ word.val :=
    fun word member => absurd (word.2.2 _ member) (by decide)
  have inHex := noBreak (hexWord id)
  have inStamp := noBreak (intWord h.stamp)
  have inGroup := noBreak h.group
  have inFrom := noBreak (intWord h.reachFrom)
  have inUntil := noBreak (intWord h.reachUntil)
  simp only [hexWord, intWord] at inHex inStamp inFrom inUntil
  unfold heldLine
  split_ifs <;> simp [inHex, inStamp, inGroup, inFrom, inUntil]

theorem parseLine_hex : parseLine (hex id) = .opened (some id) := by
  have digits : ∀ c ∈ hex id, (hexVal c).isSome = true := fun _ => hexVal_of_mem_hexOf
  rw [← parseSeenID_hex id]
  unfold parseLine
  split
  · rename_i equal
    exact absurd (digits '!' (by simp [equal])) (by decide)
  · rename_i equal
    exact absurd (digits '~' (by simp [equal])) (by decide)
  · rename_i equal
    exact absurd (digits '+' (by simp [equal])) (by decide)
  · rename_i equal
    exact absurd (digits '-' (by simp [equal])) (by decide)
  · rfl

theorem plain_hex : hex id ≠ [] ∧ '\n' ∉ hex id :=
  ⟨(hexWord id).2.1, fun member => absurd ((hexWord id).2.2 _ member) (by decide)⟩

end Kryfo.Seen
