import Kryfo.Library.Dict
import Kryfo.Library.Json
import Kryfo.Library.Text
import Mathlib.Data.Char
import Mathlib.Data.Finset.Basic
import Mathlib.Data.List.Lex
import Mathlib.Data.List.Sort
import Mathlib.Data.Prod.Lex

/-!
# The slots of the helper

The addresses listened on are spread over sixteen endpoints of a push helper, each for one group.
A plan lets go of the slots whose group is gone and gives the addresses without a place one.
-/

namespace Kryfo.Helper

open Library List

def kHelperSlots : Nat := 16

def kLaneSlots : Nat := 3

def kContactLanes : Nat := 4

structure KnockAddress where
  address : List Char
  group : List Char
deriving DecidableEq

def everyday : List Char := "everyday:".toList

def firstcontact : List Char := "firstcontact:".toList

def lane (i : Nat) : List Char := everyday ++ Nat.toDigits 10 i

variable (g : List Char)

def lastingGroup : Bool := everyday.isPrefixOf g

def firstGroup : Bool := firstcontact.isPrefixOf g

def mainGroup : Bool := lastingGroup g || firstGroup g

def slotCap : Nat := if lastingGroup g then kLaneSlots else 1

/-- A key that belongs to nothing, sixty-four digits. -/
abbrev StandIn := { key : List Char // key.length = 64 }

structure SlotBook where
  byAddress : Dict (List Char) Nat := Dict.empty
  owner : Dict Nat (List Char) := Dict.empty
  gen : Dict Nat Nat := Dict.empty
  standIn : Dict Nat StandIn := Dict.empty

/-! ## The book on disk -/

/-- `int.tryParse`: a sign, then decimal digits or hexadecimal ones after `0x`, blanks around it. -/
def intTryParse (text : List Char) : Option Int :=
  let bare := ((text.dropWhile isSpace).reverse.dropWhile isSpace).reverse
  let digits : List Char → Option Nat
    | '0' :: x :: hex =>
      if x = 'x' ∨ x = 'X' then if hex = [] then none else unhex hex
      else parseNat ('0' :: x :: hex)
    | text => parseNat text
  match bare with
  | '-' :: text => (digits text).map fun n : Nat => -(n : Int)
  | '+' :: text => (digits text).map fun n : Nat => (n : Int)
  | text => (digits text).map fun n : Nat => (n : Int)

theorem intTryParse_toDigits (n : Nat) : intTryParse (Nat.toDigits 10 n) = some (n : Int) := by
  have isDigit : ∀ c ∈ Nat.toDigits 10 n, c.isDigit = true :=
    fun _ member => Nat.isDigit_of_mem_toDigits (by decide) (by decide) member
  have noSpace : ∀ c ∈ Nat.toDigits 10 n, isSpace c = false := (isWord_formatInt n).2
  have read := parseNat_toDigits n
  generalize Nat.toDigits 10 n = text at *
  have front : text.dropWhile isSpace = text :=
    dropWhile_of_head fun c first => noSpace c (mem_of_mem_head? first)
  have back : text.reverse.dropWhile isSpace = text.reverse :=
    dropWhile_of_head fun c first => noSpace c (mem_reverse.mp (mem_of_mem_head? first))
  unfold intTryParse
  rw [front, back, reverse_reverse]
  dsimp only
  split
  · exact absurd (isDigit '-' mem_cons_self) (by decide)
  · exact absurd (isDigit '+' mem_cons_self) (by decide)
  · split
    · rename_i x hex _ _
      have notHex : ¬ (x = 'x' ∨ x = 'X') := by
        have := isDigit x (by simp)
        rintro (rfl | rfl) <;> exact absurd this (by decide)
      rw [if_neg notHex, read, Option.map_some]
    · rw [read, Option.map_some]

namespace SlotBook

/-- An entry whose key is a slot and whose value `ok` takes. -/
def slotEntry {ν : Type} (ok : Json → Option ν) (e : List Char × Json) : Option (Nat × ν) :=
  match intTryParse e.1, ok e.2 with
  | some s, some v => if 0 ≤ s ∧ s < kHelperSlots then some (s.toNat, v) else none
  | _, _ => none

def slots {ν : Type} (m : Option Json) (ok : Json → Option ν) : Dict Nat ν :=
  match m with
  | some (.obj fields) => Dict.ofList (fields.filterMap (slotEntry ok))
  | _ => Dict.empty

def placeEntry (e : List Char × Json) : Option (List Char × Nat) :=
  match e.2 with
  | .num s => if 0 ≤ s ∧ s < kHelperSlots then some (e.1, s.toNat) else none
  | _ => none

def places (m : Option Json) : Dict (List Char) Nat :=
  match m with
  | some (.obj fields) => Dict.ofList (fields.filterMap placeEntry)
  | _ => Dict.empty

def genOf (j : Json) : Option Nat := (j.num?.filter fun n => decide (0 ≤ n)).map Int.toNat

def keyOf (j : Json) : Option StandIn :=
  j.text?.bind fun key => if length : key.length = 64 then some ⟨key, length⟩ else none

/-- `SlotBook.read`, of the text decoded; there is none when it does not decode. -/
def read (raw : Option Json) : SlotBook :=
  match raw with
  | some (.obj fields) =>
    let j := Json.obj fields
    { byAddress := places (j.field ['a'])
      owner := slots (j.field ['o']) Json.text?
      gen := slots (j.field ['g']) genOf
      standIn := slots (j.field ['k']) keyOf }
  | _ => {}

def writeSlots {ν : Type} (json : ν → Json) (d : Dict Nat ν) : Json :=
  .obj (d.entries.map fun e => (Nat.toDigits 10 e.1, json e.2))

/-- `write`, before it is encoded. -/
def write (b : SlotBook) : Json :=
  .obj [(['a'], .obj (b.byAddress.entries.map fun e => (e.1, .num e.2))),
    (['o'], writeSlots .str b.owner),
    (['g'], writeSlots (fun n : Nat => .num n) b.gen),
    (['k'], writeSlots (fun key => .str key.val) b.standIn)]

def generation (b : SlotBook) (slot : Nat) : Nat := (b.gen.lookup slot).getD 0

end SlotBook

/-! ## Planning -/

structure SlotPlan where
  book : SlotBook
  renew : Finset Nat

/-- The variables of `planSlots` that change; `drawn` counts the keys it drew. -/
structure Planning extends SlotBook where
  renew : Finset Nat := ∅
  drawn : Nat := 0

def rank (a : KnockAddress) : Nat ×ₗ List Char :=
  toLex (if mainGroup a.group then 0 else 1, a.address)

/-- The library's sort, which may leave equal elements in any order. -/
structure Sorting where
  sort : List KnockAddress → List KnockAddress
  perm : ∀ as, (sort as).Perm as
  sorted : ∀ as, (sort as).Pairwise fun x y => rank x ≤ rank y

instance : Std.Total fun x y : KnockAddress => rank x ≤ rank y := ⟨fun _ _ => le_total _ _⟩

instance : IsTrans KnockAddress fun x y => rank x ≤ rank y := ⟨fun _ _ _ => le_trans⟩

def Sorting.byInsertion : Sorting where
  sort := List.insertionSort fun x y => rank x ≤ rank y
  perm := perm_insertionSort _
  sorted := pairwise_insertionSort _

namespace Planning

variable (keys : Nat → StandIn)

def letGo (groups : List (List Char)) (p : Planning) (e : Nat × List Char) : Planning :=
  if lastingGroup e.2 ∨ e.2 ∈ groups then p
  else
    { p with
      owner := p.owner.remove e.1
      gen := p.gen.set e.1 (p.generation e.1 + 1)
      standIn := p.standIn.set e.1 (keys p.drawn)
      renew := insert e.1 p.renew
      drawn := p.drawn + 1 }

variable (p : Planning)

def load (slot : Nat) : Nat := (p.byAddress.values.filter (· = slot)).length

def ownedBy (g : List Char) : List Nat :=
  (List.range kHelperSlots).filter fun s => p.owner.lookup s = some g

/-- A free slot is kept back for each main group that has none yet. -/
def reserveFor (g : List Char) : Nat :=
  ((List.range kContactLanes).filter fun i => lane i ≠ g ∧ lane i ∉ p.owner.values).length +
    if p.owner.values.any firstGroup || firstGroup g then 0 else 1

def free : List Nat :=
  (List.range kHelperSlots).filter fun s => !p.owner.has s ∧ s ∉ p.renew

/-- The first of the slots that carries the fewest. -/
def lightest : List Nat → Option Nat
  | [] => none
  | s :: slots => some (slots.foldl (fun x y => if p.load y < p.load x then y else x) s)

def place (a : KnockAddress) : Planning :=
  let own := p.ownedBy a.group
  if own.length < slotCap a.group ∧ p.reserveFor a.group < p.free.length then
    match p.free with
    | [] => p
    | slot :: _ =>
      { p with
        owner := p.owner.set slot a.group
        byAddress := p.byAddress.set a.address slot }
  else
    match p.lightest own with
    | none => p
    | some slot => { p with byAddress := p.byAddress.set a.address slot }

/-- A slot that carries nothing has a key of its own. -/
def standFor (slot : Nat) : Planning :=
  if slot ∈ p.byAddress.values ∨ p.standIn.has slot then p
  else { p with standIn := p.standIn.set slot (keys p.drawn), drawn := p.drawn + 1 }

end Planning

/-- The group of each address, the last of an address counting. -/
def groupsOf (live : List KnockAddress) : Dict (List Char) (List Char) :=
  Dict.ofList (live.map fun a => (a.address, a.group))

/-- The first half of `planSlots`: what stays. -/
def planKept (book : SlotBook) (live : List KnockAddress) (keys : Nat → StandIn) : Planning :=
  let groupOf := groupsOf live
  let p := book.owner.entries.foldl (Planning.letGo keys groupOf.values) { toSlotBook := book }
  { p with byAddress := p.byAddress.keep fun a s =>
      (groupOf.lookup a).isSome && p.owner.lookup s = groupOf.lookup a }

/-- The addresses without a place, in the order they get one. -/
def waiting (sorting : Sorting) (p : Planning) (live : List KnockAddress) : List KnockAddress :=
  sorting.sort (live.filter fun a => !p.byAddress.has a.address)

/-- `planSlots`; `keys` are the keys it draws. -/
def planSlots (sorting : Sorting) (book : SlotBook) (live : List KnockAddress)
    (keys : Nat → StandIn) : SlotPlan :=
  let p := planKept book live keys
  let p := (waiting sorting p live).foldl Planning.place p
  let p := (List.range kHelperSlots).foldl (Planning.standFor keys) p
  ⟨p.toSlotBook, p.renew⟩

/-! ## Plan after plan -/

structure Round where
  live : List KnockAddress
  keys : Nat → StandIn

/-- The plans of a run, each with what it was made from, the book written and read back between
them. -/
def plans (sorting : Sorting) : SlotBook → List Round → List (Round × SlotPlan)
  | _, [] => []
  | book, round :: rounds =>
    let plan := planSlots sorting book round.live round.keys
    (round, plan) :: plans sorting (SlotBook.read (some plan.book.write)) rounds

end Kryfo.Helper
