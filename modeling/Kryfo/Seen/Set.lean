import Kryfo.Seen.Load

/-!
# A running set and its file

`SeenIDs` has what the operations do to the set in memory; `Store` has a set on its file, with what
else they read: the count of times the address was let go of, which relays came back without an
id, and the clock.
-/

namespace Kryfo.Seen

open Library

namespace SeenIDs

/-- `claim`: whether the id is new to the runner, which then owns it. -/
def claim (s : SeenIDs) (id : ID) : Bool × SeenIDs :=
  if s.opened.has id || s.unopened.has id then (false, s)
  else if (s.held.lookup id).any fun h => !h.free then (false, s)
  else if id ∈ s.queued then (false, s)
  else (true, { s with queued := insert id s.queued })

/-- `holdIf` once the address is known not to have been let go of: the hold, if
it was taken. -/
def hold (digest : List Char → BitVec 64) (s : SeenIDs) (id : ID) (stamp : Int64)
    (name : List Char) (now : Int) (reachFrom reachUntil : Int64) : Option HeldAt × SeenIDs :=
  let s := { s with queued := s.queued.erase id, held := pruneHeld now s.held }
  let group := heldGroup digest id name
  if heldGone stamp now ∨ id ∉ s.held ∧ heldRoom s.held group = false then (none, s)
  else
    let h : HeldAt := ⟨stamp, false, group, reachFrom, reachUntil⟩
    (some h, { s with held := s.held.set id h })

def notOpened (s : SeenIDs) (id : ID) : SeenIDs :=
  { s with
    queued := s.queued.erase id
    held := s.held.unset id
    unopened := s.unopened.add id }

def release (s : SeenIDs) (id : ID) : SeenIDs := { s with queued := s.queued.erase id }

def handOver (s : SeenIDs) (id : ID) : SeenIDs :=
  { s with
    queued := s.queued.erase id
    held := s.held.unset id
    opened := s.opened.add id }

def handedOver (s : SeenIDs) (ids : List ID) : SeenIDs := ids.foldl handOver s

/-- The end of `notOnRelay`: of the ids no relay has, those let go of go as kept. -/
def dropMissing (s : SeenIDs) : List ID → SeenIDs × List (List Char)
  | [] => (s, [])
  | id :: gone =>
    if (s.held.lookup id).any HeldAt.free then
      let rest := dropMissing
        { s with held := s.held.unset id, opened := s.opened.add id } gone
      (rest.1, hex id :: rest.2)
    else dropMissing s gone

/-- `wanted`: the ids a connection asks for. -/
def wanted (visit : Visit) (s : SeenIDs) (now : Int) : List ID × SeenIDs :=
  let s := { s with held := pruneHeld now s.held }
  ((visit.order s.lines s.held.keys).filter fun id => (s.held.lookup id).any HeldAt.free, s)

end SeenIDs

/-- A running set on its file; `ρ` names the relays. -/
structure Store (ρ : Type*) where
  file : Option (List Char)
  set : SeenIDs
  gen : Nat
  missed : ID → ρ → Nat
  now : Int

namespace Store

variable {ρ : Type*} [DecidableEq ρ]

/-- The text of the file, none when there is no file yet. -/
def text (st : Store ρ) : List Char := st.file.getD []

/-- `writeLocked`. -/
def write (st : Store ρ) (ls : List (List Char)) : Store ρ :=
  if ls = [] then st
  else
    let file := st.text ++ unlines ls
    let count := st.set.lines + ls.length
    if seenFileMax < count then
      { st with
        file := some (compact file st.now)
        set := { st.set with lines := (compactLines (lines file) st.now).length } }
    else { st with file := some file, set := { st.set with lines := count } }

/-- `loadSeen`: a set on the file it is loaded from. -/
def start (visit : Visit) (file : Option (List Char)) (now : Int) : Store ρ :=
  let s := SeenIDs.load visit (file.getD []) now
  if seenFileMax < s.lines then
    { file := some (compact (file.getD []) now)
      set := { s with lines := (compactLines (lines (file.getD [])) now).length }
      gen := 0, missed := fun _ _ => 0, now := now }
  else { file := file, set := s, gen := 0, missed := fun _ _ => 0, now := now }

/-- One id a relay answered for without it, and whether no relay has it. -/
def miss (relay : ρ) (relays : List ρ) (missed : ID → ρ → Nat) (id : ID) :
    Bool × (ID → ρ → Nat) :=
  let counts := Function.update (missed id) relay (missed id relay + 1)
  if relays ≠ [] ∧ ∀ u ∈ relays, 2 ≤ counts u then
    (true, Function.update missed id fun _ => 0)
  else (false, Function.update missed id counts)

/-- The loop of `notOnRelay` over what an answer came back without. -/
def missAll (relay : ρ) (relays : List ρ) : List ID → (ID → ρ → Nat) → List ID × (ID → ρ → Nat)
  | [], missed => ([], missed)
  | id :: ids, missed =>
    let one := miss relay relays missed id
    let rest := missAll relay relays ids one.2
    (if one.1 then id :: rest.1 else rest.1, rest.2)

/-- What is done to a running set; `freed` is the count a hold was polled at, if
it is checked. -/
inductive Op (ρ : Type*) where
  | tick (seconds : Nat)
  | claim (id : ID)
  | hold (id : ID) (stamp : Int64) (name : List Char) (reachFrom reachUntil : Int64)
      (freed : Option Nat)
  | notOpened (id : ID)
  | release (id : ID)
  | handedOver (ids : List ID)
  | notOnRelay (relay : ρ) (relays : List ρ) (ids : List ID)
  | wanted
  | free
  | drop

/-- `markHeldFile`: the file first, where there is one, then the running set. -/
def mark (visit : Visit) (c : Char) (st : Store ρ) : Store ρ :=
  { st with
    file := st.file.map fun file => file ++ unlines [[c]]
    set := st.set.readLine visit [c] }

variable (digest : List Char → BitVec 64) (visit : Visit)

def holdIf (st : Store ρ) (id : ID) (stamp : Int64) (name : List Char)
    (reachFrom reachUntil : Int64) (freed : Option Nat) : Store ρ :=
  if freed.any fun gen => gen ≠ st.gen then st
  else
    match st.set.hold digest id stamp name st.now reachFrom reachUntil with
    | (none, s) => { st with set := s }
    | (some h, s) => { st with set := s }.write [heldLine id h]

def apply (st : Store ρ) : Op ρ → Store ρ
  | .tick seconds => { st with now := st.now + seconds }
  | .claim id => { st with set := (st.set.claim id).2 }
  | .hold id stamp name reachFrom reachUntil freed =>
    st.holdIf digest id stamp name reachFrom reachUntil freed
  | .notOpened id => { st with set := st.set.notOpened id }.write ['-' :: hex id]
  | .release id => { st with set := st.set.release id }
  | .handedOver ids => { st with set := st.set.handedOver ids }.write (ids.map hex)
  | .notOnRelay relay relays ids =>
    let gone := missAll relay relays ids st.missed
    let dropped := st.set.dropMissing gone.1
    { st with set := dropped.1, missed := gone.2 }.write dropped.2
  | .wanted => { st with set := (st.set.wanted visit st.now).2 }
  | .free => { st.mark visit '!' with gen := st.gen + 1 }
  | .drop => st.mark visit '~'

end Store

end Kryfo.Seen
