import Kryfo.Seen.Lines
import Mathlib.Data.Finset.Sort

/-!
# Loading and compacting a seen file

A start replays the file line by line.  A long file is rewritten to the newest lines of each kind
and to what is still held.
-/

namespace Kryfo.Seen

open Library

/-- `seenIDs`, its file apart. -/
structure SeenIDs where
  opened : Ring ID seenKeep
  unopened : Ring ID seenUnopenedKeep
  queued : Finset ID
  held : Held
  lines : Nat

/-- The order a loop goes through the ids of a map, which may be any. -/
structure Visit where
  order : Nat → Finset ID → List ID
  nodup : ∀ n ids, (order n ids).Nodup
  mem_order : ∀ n ids id, id ∈ order n ids ↔ id ∈ ids

def Visit.ascending : Visit where
  order _ ids := ((ids.image BitVec.toNat).sort (· ≤ ·)).map (BitVec.ofNat 256)
  nodup _ ids := by
    refine (Finset.sort_nodup _ _).map_on fun n inN m inM same => ?_
    simp only [Finset.mem_sort, Finset.mem_image] at inN inM
    obtain ⟨⟨id, -, rfl⟩, ⟨id', -, rfl⟩⟩ := And.intro inN inM
    simpa using congrArg BitVec.toNat same
  mem_order _ ids id := by
    simp only [List.mem_map, Finset.mem_sort, Finset.mem_image]
    constructor
    · rintro ⟨n, ⟨id', member, rfl⟩, rfl⟩
      simpa using member
    · exact fun member => ⟨id.toNat, ⟨id, member, rfl⟩, by simp⟩

def letGo (h : HeldAt) : HeldAt := { h with free := true }

namespace SeenIDs

def new : SeenIDs where
  opened := Ring.new (by decide)
  unopened := Ring.new (by decide)
  queued := ∅
  held := ∅
  lines := 0

/-- `readLine`.  An id already held takes what the line says, another needs room. -/
def readLine (visit : Visit) (s : SeenIDs) (line : List Char) : SeenIDs :=
  match parseLine line with
  | .free => { s with held := s.held.change letGo }
  | .drop =>
    { s with
      opened := (visit.order s.lines s.held.keys).foldl Ring.add s.opened
      held := ∅ }
  | .held none => s
  | .held (some (id, h)) =>
    { s with held := heldLimits.enter HeldAt.group s.held id h }
  | .unopened none => s
  | .unopened (some id) =>
    { s with unopened := s.unopened.add id, held := s.held.unset id }
  | .opened none => s
  | .opened (some id) => { s with opened := s.opened.add id, held := s.held.unset id }

def readNext (visit : Visit) (s : SeenIDs) (line : List Char) : SeenIDs :=
  { s with lines := s.lines + 1 }.readLine visit line

def replay (visit : Visit) (ls : List (List Char)) : SeenIDs := ls.foldl (readNext visit) new

/-- `loadSeen`, before it looks at the length of the file. -/
def load (visit : Visit) (file : List Char) (now : Int) : SeenIDs :=
  let s := replay visit (Library.lines file)
  { s with held := pruneHeld now s.held }

theorem load_opened (visit : Visit) (file : List Char) (now : Int) :
    (load visit file now).opened = (replay visit (Library.lines file)).opened := rfl

theorem load_unopened (visit : Visit) (file : List Char) (now : Int) :
    (load visit file now).unopened = (replay visit (Library.lines file)).unopened := rfl

theorem load_held (visit : Visit) (file : List Char) (now : Int) :
    (load visit file now).held = pruneHeld now (replay visit (Library.lines file)).held := rfl

end SeenIDs

/-! ## Compaction -/

/-- What `compactLocked` gathers as it reads. -/
structure Gathered where
  opened : List (List Char) := []
  unopened : List (List Char) := []
  held : Held := ∅
  order : List ID := []

/-- The held ids a drop mark takes as kept, in the order they were held. -/
def dropHeld : List ID → Held → List ID × Held
  | [], held => ([], held)
  | id :: order, held =>
    if id ∈ held then
      let rest := dropHeld order (held.unset id)
      (id :: rest.1, rest.2)
    else dropHeld order held

def gather (g : Gathered) (line : List Char) : Gathered :=
  match parseLine line with
  | .free => { g with held := g.held.change letGo }
  | .drop =>
    let dropped := dropHeld g.order g.held
    { g with opened := g.opened ++ dropped.1.map hex, held := dropped.2, order := [] }
  | .held none => g
  | .held (some (id, h)) =>
    if id ∈ g.held then { g with held := g.held.set id h }
    else if heldRoom g.held h.group then
      { g with held := g.held.set id h, order := g.order ++ [id] }
    else g
  | .unopened id =>
    { g with
      unopened := g.unopened ++ [line]
      held := id.elim g.held g.held.unset }
  | .opened id =>
    { g with
      opened := g.opened ++ [line]
      held := id.elim g.held g.held.unset }

def lastOf {α : Type*} (n : Nat) (xs : List α) : List α := xs.drop (xs.length - n)

/-- What is still held, once each: the ones let go of and the others. -/
def stillHeld (now : Int) : List ID → Held → List (ID × HeldAt) × List (ID × HeldAt)
  | [], _ => ([], [])
  | id :: order, held =>
    match held.lookup id with
    | none => stillHeld now order held
    | some h =>
      if heldGone h.stamp now then stillHeld now order held
      else
        let rest := stillHeld now order (held.unset id)
        if h.free then ((id, h) :: rest.1, rest.2) else (rest.1, (id, h) :: rest.2)

def heldLines (held : List (ID × HeldAt)) : List (List Char) :=
  held.map fun entry => heldLine entry.1 entry.2

def compactLines (ls : List (List Char)) (now : Int) : List (List Char) :=
  let g := ls.foldl gather {}
  let still := stillHeld now g.order g.held
  lastOf seenKeep g.opened ++ lastOf seenUnopenedKeep g.unopened ++ heldLines still.1 ++
    (if still.1 ≠ [] then [['!']] else []) ++ heldLines still.2

/-- `compactLocked`: the file it writes. -/
def compact (file : List Char) (now : Int) : List Char := unlines (compactLines (lines file) now)

end Kryfo.Seen
