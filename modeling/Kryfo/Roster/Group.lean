import Mathlib.Data.Finset.Card

/-!
# An ordinary group's member list

The admin's phone makes the group, changes its members and name and rides its list on every
message.  Each other phone keeps a list of its own from what comes.
-/

namespace Kryfo.Roster

abbrev Text := List Char

variable {ι : Type} [DecidableEq ι]

def kGroupMemberCap : Nat := 50

/-- What the admin's phone sends of a group: a control, or a message with its list. -/
inductive Frame (ι : Type) where
  | create (name : Text) (members : List ι) (stamp : Option Int)
  | add (members : List ι)
  | remove (members : List ι)
  | rename (name : Text)
  | message (roster : List ι)

/-! ## The admin's phone -/

/-- The group as its admin holds it, with the last stamp it gave a list. -/
structure Admin (ι : Type) where
  name : Text
  members : List ι
  stamp : Int

inductive Op (ι : Type) where
  | create (name : Text) (members : List ι) (now : Int)
  | add (members : List ι) (now : Int)
  | remove (members : List ι)
  | rename (name : Text)
  | message

def nextRosterStamp (held now : Int) : Int := max now (held + 1)

def Admin.next (admin : ι) : Option (Admin ι) → Op ι → Option (Admin ι)
  | none, .create name members now =>
    if (admin :: members).length ≤ kGroupMemberCap then
      some ⟨name, (admin :: members).dedup, nextRosterStamp 0 now⟩
    else none
  | none, _ => none
  | some a, .create _ _ _ => some a
  | some a, .add members now =>
    if a.members.length + members.length ≤ kGroupMemberCap then
      some { a with members := a.members ∪ members, stamp := nextRosterStamp a.stamp now }
    else some a
  | some a, .remove members => some { a with members := a.members.filter (· ∉ members) }
  | some a, .rename name => some { a with name }
  | some a, .message => some a

def Admin.sends (admin m : ι) : Option (Admin ι) → Op ι → List (Frame ι)
  | none, .create name members now =>
    if (admin :: members).length ≤ kGroupMemberCap ∧ m ≠ admin ∧ m ∈ members then
      [.create name (admin :: members) (some (nextRosterStamp 0 now))]
    else []
  | none, _ => []
  | some _, .create _ _ _ => []
  | some a, .add members now =>
    if a.members.length + members.length ≤ kGroupMemberCap ∧ m ≠ admin then
      (if m ∈ a.members then [.add members] else []) ++ if m ∈ members then
          [.create a.name (a.members ∪ members) (some (nextRosterStamp a.stamp now))]
        else []
    else []
  | some a, .remove members => if m ≠ admin ∧ m ∈ a.members then [.remove members] else []
  | some a, .rename name => if m ≠ admin ∧ m ∈ a.members then [.rename name] else []
  | some a, .message => if m ≠ admin ∧ m ∈ a.members then [.message a.members] else []

def Admin.after (admin : ι) (ops : List (Op ι)) : Option (Admin ι) :=
  ops.foldl (Admin.next admin) none

def Admin.sent (admin m : ι) : Option (Admin ι) → List (Op ι) → List (Frame ι)
  | _, [] => []
  | a, op :: ops => Admin.sends admin m a op ++ Admin.sent admin m (Admin.next admin a op) ops

/-! ## Another phone -/

/-- The group as another phone holds it, with the stamp of the last list it took. -/
structure Group (ι : Type) where
  name : Text
  members : Finset ι
  stamp : Int

/-- The groups of the phone, of which there is one or none. -/
abbrev Phone (ι : Type) := Option (Group ι)

/-- What the phone knows of people as it takes a frame: whether it let the admin in, which ids have
the shape of a member, who stands on a key it blocked, and where it seats each. -/
structure Seating (ι : Type) where
  accepted : Bool := true
  shaped : ι → Bool := fun _ => true
  out : ι → Bool := fun _ => false
  seat : ι → ι := id

/-- `_members`. -/
def Seating.members (v : Seating ι) (me : ι) (ids : List ι) : List ι :=
  ids.filter fun h => h = me ∨ v.shaped h

def Seating.seated (v : Seating ι) (ids : List ι) : Finset ι :=
  ((ids.filter fun h => !v.out h).map v.seat).toFinset

def fitsCap (n : Nat) : Bool := n ≤ kGroupMemberCap

/-- A list that is not newer than the last one taken changes nothing. -/
def takeRosterStamp (held : Int) : Option Int → Option Int
  | none => some held
  | some stamp => if stamp ≤ held then none else some stamp

/-- A frame of the admin's, taken by the phone `me`. -/
def take (admin me : ι) (v : Seating ι) : Phone ι → Frame ι → Phone ι
  | p, .create name ids stamp =>
    let members := v.members me ids
    if !v.accepted || !fitsCap members.toFinset.card then p
    else
      match takeRosterStamp ((p.map Group.stamp).getD 0) stamp with
      | none => p
      | some stamp => some ⟨name, v.seated members, stamp⟩
  | none, _ => none
  | some g, .add ids =>
    let adds := v.seated (v.members me ids) \ g.members
    if fitsCap (g.members.card + adds.card) then some { g with members := g.members ∪ adds }
    else some g
  | some g, .remove ids =>
    if admin ∉ g.members then some g
    else if me ∈ ids then none
    else some { g with members := g.members \ ids.toFinset }
  | some g, .rename name => if admin ∈ g.members then some { g with name } else some g
  | some g, .message roster =>
    let roster := v.members me roster
    if admin ∉ g.members ∨ admin ∉ roster then some g
    else if me ∉ roster then none
    else if fitsCap roster.toFinset.card then some { g with members := v.seated roster }
    else some g

/-! ## Runs -/

structure Taking (ι : Type) where
  phone : Phone ι := none
  taken : List Nat := []

/-- The phone takes one of the frames sent to it. -/
structure Act (ι : Type) where
  index : Nat
  seating : Seating ι

def Taking.next (admin me : ι) (sent : List (Frame ι)) (s : Taking ι) (act : Act ι) : Taking ι :=
  match sent[act.index]? with
  | some frame =>
    if act.index ∈ s.taken then s
    else ⟨take admin me act.seating s.phone frame, act.index :: s.taken⟩
  | none => s

def Taking.Step (admin me : ι) (sent : List (Frame ι)) (s : Taking ι) (act : Act ι)
    (s' : Taking ι) : Prop := s' = s.next admin me sent act

end Kryfo.Roster
