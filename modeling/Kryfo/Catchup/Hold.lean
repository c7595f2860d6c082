import Kryfo.Catchup.Walk

/-!
# What a walk owes the anchor

The book keeps a mark and a hold for each relay and address.  Our relay's entries are ways into
one store: each takes its window from the lowest floor any of them owes, and a pass on one lets
the others go.  The maps of the source read as zero where a key is missing, so they are total.
-/

namespace Kryfo.Catchup

/-- `Hold`: what a relay's walk still owes the anchor. -/
structure Hold where
  floor : Int := 0
  began : Int := 0
deriving DecidableEq, Repr

namespace Hold

variable (h : Hold)

def held : Bool := decide (0 < h.began)

/-- `From`: the anchor the relay's next window is taken from. -/
def takeFrom (anchor : Int) : Int :=
  if h.held ∧ h.floor < anchor then h.floor else anchor

/-- `Start`: a runner starting on an address with the anchor it read. -/
def start (anchor now : Int) : Hold :=
  if ¬ h.held then { floor := anchor, began := now }
  else if anchor < h.floor then { h with floor := anchor }
  else h

/-- `Cut`: a walk stopping short.  One that carried on from a mark keeps the
hold it has. -/
def cut (base began : Int) (resumed : Bool) : Hold :=
  if resumed ∧ h.held then h
  else { floor := if h.held ∧ h.floor < base then h.floor else base, began := began }

/-- `Done`: a walk reaching the bottom of its window. -/
def done (stepped : Bool) : Hold :=
  if ¬ stepped ∨ ¬ h.held then {} else { floor := max h.floor h.began, began := h.began }

theorem takeFrom_le (anchor : Int) : h.takeFrom anchor ≤ anchor := by
  unfold takeFrom
  split_ifs <;> omega

theorem takeFrom_le_floor {h : Hold} (isHeld : h.held = true) (anchor : Int) :
    h.takeFrom anchor ≤ h.floor := by
  unfold takeFrom
  split_ifs with lower
  · exact le_rfl
  · rw [isHeld] at lower
    simp only [true_and] at lower
    omega

theorem takeFrom_eq (anchor : Int) :
    h.takeFrom anchor = anchor ∨ h.held = true ∧ h.takeFrom anchor = h.floor := by
  unfold takeFrom
  split_ifs with lower
  · exact .inr ⟨lower.1, rfl⟩
  · exact .inl rfl

end Hold

/-- `Freed`: a key let go of by another entry's pass or a refusal; `base` is the source's `From`. -/
structure Freed where
  n : Nat := 0
  base : Int := 0
deriving DecidableEq, Repr

structure Book (κ : Type*) where
  marks : κ → Mark
  holds : κ → Hold
  freed : κ → Freed

/-- `Conn`: what a connection took from the book as it connected. -/
structure Conn (κ : Type*) where
  key : κ
  own : Bool
  twins : List κ
  resumed : Bool
  base : Int
  owed : Hold
  freed : Nat
deriving DecidableEq, Repr

def newBook {κ : Type*} : Book κ where
  marks _ := {}
  holds _ := {}
  freed _ := {}

namespace Book

variable {κ : Type*} [DecidableEq κ] (b : Book κ)

def setHold (key : κ) (h : Hold) : Book κ :=
  { b with holds := Function.update b.holds key (if h.held then h else {}) }

def setMark (key : κ) (m : Mark) : Book κ :=
  { b with marks := Function.update b.marks key m }

/-- `Connect`: a connection to `key` from the anchor `last` at `now`. -/
def connect (key : κ) (own : List κ) (last now : Int) : Conn κ :=
  let twins := own.filter fun k => k ≠ key
  let resumed := (b.marks key).started
  let base := twins.foldl (fun base k => (b.holds k).takeFrom base)
    ((b.holds key).takeFrom last)
  if key ∈ own then
    { key, own := true, twins, resumed, base,
      owed := (b.holds key).cut base now resumed, freed := (b.freed key).n }
  else
    { key, own := false, twins, resumed, base := last, owed := {}, freed := (b.freed key).n }

/-- Another entry's pass, or a refusal, came after `c` connected and took all its walk owes. -/
def covered (c : Conn κ) : Bool :=
  decide ((b.freed c.key).n ≠ c.freed) && decide ((b.freed c.key).base ≤ c.owed.floor)

/-- `Owe`: a connection's first answer coming full. -/
def owe (c : Conn κ) : Book κ :=
  if c.own ∧ ¬ b.covered c then b.setHold c.key c.owed else b

/-- `Cut`: a walk stopping short at `m`. -/
def cut (c : Conn κ) (m : Mark) : Book κ :=
  if b.covered c then b
  else
    let marked := if m.started then b.setMark c.key m else b
    if c.own then marked.setHold c.key c.owed else marked

/-- The place `KeepFirst` keeps, if it moves. -/
def firstMark (m : Mark) (oldest top : Int) : Option Mark :=
  if ¬ m.started then some { top := top, cursor := oldest }
  else if oldest ≤ m.top then some { top := top, cursor := min m.cursor oldest }
  else none

/-- `KeepFirst`: a connection's first answer cut short, its oldest event at
`oldest`. -/
def keepFirst (c : Conn κ) (oldest top : Int) : Book κ :=
  if oldest ≤ 0 ∨ b.covered c then b
  else
    let owing := if c.own then b.setHold c.key c.owed else b
    match firstMark (b.marks c.key) oldest top with
    | some m => owing.setMark c.key m
    | none => owing

/-- What a pass from `base` does to another entry. -/
def letGo (base : Int) (b : Book κ) (k : κ) : Book κ :=
  let counted :=
    { b with freed := Function.update b.freed k { n := (b.freed k).n + 1, base := base } }
  if (b.holds k).held ∧ base ≤ (b.holds k).floor then
    { counted with
      holds := Function.update b.holds k {}
      marks := Function.update b.marks k {} }
  else counted

/-- `Done`: a walk reaching the bottom of its window. -/
def done (c : Conn κ) (stepped : Bool) : Book κ :=
  let unmarked := b.setMark c.key {}
  if c.own then
    c.twins.foldl (letGo c.base) (unmarked.setHold c.key ((b.holds c.key).done stepped))
  else unmarked

/-- `Refused`: the relay answering the subscription with CLOSED. -/
def refused (c : Conn κ) : Book κ where
  marks := Function.update b.marks c.key {}
  holds := Function.update b.holds c.key {}
  freed := Function.update b.freed c.key { n := (b.freed c.key).n + 1, base := 0 }

/-- `Start`: a runner starting on an address. -/
def start (own : List κ) (anchor now : Int) : Book κ :=
  own.foldl (fun b k => b.setHold k ((b.holds k).start anchor now)) b

/-- `Floor`: the lowest anchor a walk on our relay still owes, if any. -/
def floor (own : List κ) : Option Int :=
  own.foldl (fun low k =>
    if (b.holds k).held then
      match low with
      | none => some (b.holds k).floor
      | some low => if (b.holds k).floor < low then some (b.holds k).floor else some low
    else low) none

end Book

end Kryfo.Catchup
