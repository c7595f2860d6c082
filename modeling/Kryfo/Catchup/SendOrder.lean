import Kryfo.Library.JsonText
import Kryfo.Library.Reorder

/-!
# A catch-up back in the order it was sent

Before the frames of a catch-up are opened, those of each sender's chain are put in the order of
their numbers, and then those of each member's lane in a room, leaves and removals last.
-/

namespace Kryfo.Catchup

open Library Library.Reorder List

variable {T : Type}

section Chains

variable (peer cipher : T → List Char) (lane : Option (List Char → Bool))
  (place : List Char → Option (List Char × Int))

/-- The chain of a frame and its number there: the peer and the ratchet key that `_place` reads.  A
frame of a lane that is left as it came has none. -/
def chainOf (frame : T) : Option (List Char × Int) :=
  if lane.any fun leaves => leaves (peer frame) then none
  else (place (cipher frame)).map fun at' => (peer frame ++ ' ' :: at'.1, at'.2)

def inSendOrder (batch : List T) : List T := reorder (chainOf peer cipher lane place) 2 batch

end Chains

/-- What a catch-up needs of a room frame. -/
structure RoomPlace where
  number : Option Int
  shrinks : Bool
deriving DecidableEq

def roomFramePlace (content : List Char) : RoomPlace :=
  if "halo/1:".toList.isPrefixOf content then
    match Json.read (content.drop 7) with
    | some (.obj fields) =>
      let t := ((fields.lookup "gc".toList).bind fun gc => gc.field "t".toList).bind Json.text?
      { number := ((fields.lookup "rn".toList).bind Json.num?).filter fun n => 0 < n
        shrinks := t = some "leave".toList || t = some "remove".toList }
    | _ => ⟨none, false⟩
  else ⟨none, false⟩

section Rooms

variable (peer : T → List Char) (place : T → RoomPlace)

def isRoom (from' : List Char) : Bool := "room:".toList.isPrefixOf from'

def laneOf (frame : T) : Option (List Char × Int) :=
  if isRoom (peer frame) then (place frame).number.map fun n => (peer frame, n) else none

def shrinksRoster (frame : T) : Bool := isRoom (peer frame) && (place frame).shrinks

def roomsInSendOrder (batch : List T) : List T :=
  let sorted := reorder (laneOf peer place) 0 batch
  let shrinks := arrange (laneOf peer place) 0 batch (batch.map fun m => (place m).shrinks)
    (batch.map fun m => isRoom (peer m) && (place m).number.isNone && (place m).shrinks)
  (sorted.zip shrinks).filterMap (fun entry => if entry.2 then none else some entry.1) ++
    (sorted.zip shrinks).filterMap fun entry => if entry.2 then some entry.1 else none

variable {peer place} {batch : List T}

theorem shrinks_of_untagged {m : T} (untagged : laneOf peer place m = none) :
    (isRoom (peer m) && (place m).number.isNone && (place m).shrinks) =
      shrinksRoster peer place m := by
  unfold laneOf at untagged
  unfold shrinksRoster
  split_ifs at untagged with room
  · rw [Option.map_eq_none_iff.mp untagged, Option.isNone_none, Bool.and_true]
  · rw [Bool.not_eq_true] at room
    rw [room, Bool.false_and, Bool.false_and]

theorem shrinks_of_tagged {m : T} (tagged : laneOf peer place m ≠ none) :
    (place m).shrinks = shrinksRoster peer place m := by
  unfold laneOf at tagged
  split_ifs at tagged with room
  · rw [shrinksRoster, room, Bool.true_and]
  · exact absurd rfl tagged

theorem arrange_shrinks :
    arrange (laneOf peer place) 0 batch (batch.map fun m => (place m).shrinks)
      (batch.map fun m => isRoom (peer m) && (place m).number.isNone && (place m).shrinks) =
        (reorder (laneOf peer place) 0 batch).map (shrinksRoster peer place) := by
  refine ext_getElem? fun i => ?_
  by_cases there : i < batch.length
  · rw [getElem?_arrange (Nat.zero_le 2) (length_map _) (by rwa [length_map])
      (fun never => by omega), getElem?_map, getElem?_map, getElem?_map,
      getElem?_reorder (Nat.zero_le 2) there]
    split_ifs with untagged
    · rw [source_of_untagged untagged]
      rw [tagAt_of_getElem? (getElem?_eq_getElem there), Option.map_eq_none_iff] at untagged
      rw [getElem?_eq_getElem there, Option.map_some, Option.map_some, shrinks_of_untagged untagged]
    · have there' : source (laneOf peer place) batch i < batch.length := source_lt i there
      rw [← tagAt_source, tagAt_of_getElem? (getElem?_eq_getElem there'),
        Option.map_eq_none_iff] at untagged
      rw [getElem?_eq_getElem there', Option.map_some, Option.map_some, shrinks_of_tagged untagged]
  · rw [getElem?_eq_none (by rw [length_arrange, length_map]; omega),
      getElem?_eq_none (by rw [length_map, length_reorder]; omega)]

theorem roomsInSendOrder_eq : roomsInSendOrder peer place batch =
    (reorder (laneOf peer place) 0 batch).filter (fun m => !shrinksRoster peer place m) ++
      (reorder (laneOf peer place) 0 batch).filter (shrinksRoster peer place) := by
  unfold roomsInSendOrder
  dsimp only
  rw [arrange_shrinks]
  generalize reorder (laneOf peer place) 0 batch = sorted
  congr 1
  · induction sorted with
    | nil => rfl
    | cons m sorted ih =>
      rw [map_cons, zip_cons_cons, filterMap_cons, ih, filter_cons]
      cases shrinksRoster peer place m <;> rfl
  · induction sorted with
    | nil => rfl
    | cons m sorted ih =>
      rw [map_cons, zip_cons_cons, filterMap_cons, ih, filter_cons]
      cases shrinksRoster peer place m <;> rfl

/-- Each lane is sorted in the places of its numbered frames, and every leave and removal comes
after all the other frames. -/
structure RoomsOrdered (peer : T → List Char) (place : T → RoomPlace) (batch out : List T) :
    Prop where
  perm : out.Perm batch
  parts : ∃ sorted, Ordered (laneOf peer place) batch sorted ∧
    out = sorted.filter (fun m => !shrinksRoster peer place m) ++
      sorted.filter (shrinksRoster peer place)
  ascending : (out.filter fun m => !shrinksRoster peer place m).Pairwise fun a b =>
    ∀ k m n, laneOf peer place a = some (k, m) → laneOf peer place b = some (k, n) → m ≤ n
  last : out.Pairwise fun a b =>
    shrinksRoster peer place a = true → shrinksRoster peer place b = true

/-- No leave or removal is numbered below another frame of its lane. -/
def ShrinksLast (peer : T → List Char) (place : T → RoomPlace) (batch : List T) : Prop :=
  ∀ a ∈ batch, ∀ b ∈ batch, shrinksRoster peer place a = true →
    shrinksRoster peer place b = false → ∀ k m n,
      laneOf peer place a = some (k, m) → laneOf peer place b = some (k, n) → n ≤ m

theorem roomsInSendOrder_ordered :
    RoomsOrdered peer place batch (roomsInSendOrder peer place batch) := by
  have ordered : Ordered (laneOf peer place) batch (reorder (laneOf peer place) 0 batch) :=
    reorder_ordered (Nat.zero_le 2)
  rw [roomsInSendOrder_eq]
  generalize reorder (laneOf peer place) 0 batch = sorted at ordered ⊢
  refine ⟨?_, ⟨sorted, ordered, rfl⟩, ?_, ?_⟩
  · refine List.Perm.trans ?_ ordered.perm
    exact perm_append_comm.trans (filter_append_perm _ sorted)
  · rw [filter_append, filter_filter, filter_filter]
    simp only [Bool.and_self, Bool.not_and_self, filter_false, append_nil]
    exact ordered.ascending.filter _
  · refine pairwise_append.mpr ⟨?_, ?_, ?_⟩
    · refine pairwise_iff_forall_sublist.mpr fun {a b} both shrinks => ?_
      have kept := (mem_filter.mp (both.subset mem_cons_self)).2
      rw [shrinks] at kept
      cases kept
    · refine pairwise_iff_forall_sublist.mpr fun {a b} both _ => ?_
      exact (mem_filter.mp (both.subset (mem_cons_of_mem _ mem_cons_self))).2
    · intro a _ b inside _
      exact (mem_filter.mp inside).2

/-- Where no leave or removal is numbered below another frame, a second pass changes nothing. -/
theorem roomsInSendOrder_again (last : ShrinksLast peer place batch) :
    roomsInSendOrder peer place (roomsInSendOrder peer place batch) =
      roomsInSendOrder peer place batch := by
  have ordered : Ordered (laneOf peer place) batch (reorder (laneOf peer place) 0 batch) :=
    reorder_ordered (Nat.zero_le 2)
  have first : roomsInSendOrder peer place batch = _ := roomsInSendOrder_eq
  rw [first]
  generalize reorder (laneOf peer place) 0 batch = sorted at ordered ⊢
  have still : reorder (laneOf peer place) 0
      (sorted.filter (fun m => !shrinksRoster peer place m) ++
        sorted.filter (shrinksRoster peer place)) =
      sorted.filter (fun m => !shrinksRoster peer place m) ++
        sorted.filter (shrinksRoster peer place) := by
    refine reorder_eq_self (Nat.zero_le 2) (pairwise_append.mpr
      ⟨ordered.ascending.filter _, ordered.ascending.filter _, ?_⟩)
    intro a inside b inside' k m n isM isN
    obtain ⟨member, stays⟩ := mem_filter.mp inside
    obtain ⟨member', shrinks⟩ := mem_filter.mp inside'
    exact last b (ordered.perm.subset member') a (ordered.perm.subset member) shrinks
      (by simpa using stays) k n m isN isM
  rw [roomsInSendOrder_eq, still, filter_append, filter_append, filter_filter,
    filter_filter, filter_filter, filter_filter]
  simp

end Rooms

section Chains

variable {peer cipher : T → List Char} {lane : Option (List Char → Bool)}
  {place : List Char → Option (List Char × Int)} {batch : List T}

theorem inSendOrder_ordered :
    Ordered (chainOf peer cipher lane place) batch (inSendOrder peer cipher lane place batch) :=
  reorder_ordered le_rfl

theorem inSendOrder_again :
    inSendOrder peer cipher lane place (inSendOrder peer cipher lane place batch) =
      inSendOrder peer cipher lane place batch :=
  reorder_eq_self le_rfl inSendOrder_ordered.ascending

end Chains

/-- Both orders: each chain and each lane is sorted in the places of its numbered frames and
everything else keeps its own, but for leaves and removals, which come after all the rest. -/
theorem sendOrder_restored {T : Type} (peer cipher : T → List Char)
    (lane : Option (List Char → Bool)) (chain : List Char → Option (List Char × Int))
    (place : T → RoomPlace) (batch : List T) :
    (Ordered (chainOf peer cipher lane chain) batch (inSendOrder peer cipher lane chain batch) ∧
      inSendOrder peer cipher lane chain (inSendOrder peer cipher lane chain batch) =
        inSendOrder peer cipher lane chain batch) ∧
    RoomsOrdered peer place batch (roomsInSendOrder peer place batch) ∧
    (ShrinksLast peer place batch →
      roomsInSendOrder peer place (roomsInSendOrder peer place batch) =
        roomsInSendOrder peer place batch) :=
  ⟨⟨inSendOrder_ordered, inSendOrder_again⟩, roomsInSendOrder_ordered, roomsInSendOrder_again⟩

def removal : List Char × List Char :=
  ("room:a".toList, "halo/1:\x7b\"rn\":1,\"gc\":\x7b\"t\":\"remove\"\x7d\x7d".toList)

def message : List Char × List Char := ("room:a".toList, "halo/1:\x7b\"rn\":2\x7d".toList)

def unnumbered : List Char × List Char := ("room:b".toList, "halo/1:\x7b\x7d".toList)

/-- A removal, the messages of another room with the later one first, and a frame without a
number. -/
def mixedBatch : List (List Char × List Char) :=
  [removal, ("room:c".toList, message.2), unnumbered,
    ("room:c".toList, "halo/1:\x7b\"rn\":1\x7d".toList)]

theorem sendOrder_restored_mixedBatch :
    let sent := roomsInSendOrder Prod.fst fun m => roomFramePlace m.2
    ShrinksLast Prod.fst (fun m => roomFramePlace m.2) mixedBatch ∧ sent mixedBatch ≠ mixedBatch ∧
      sent (sent mixedBatch) = sent mixedBatch := by
  have last : ShrinksLast Prod.fst (fun m => roomFramePlace m.2) mixedBatch := by
    intro a insideA b insideB shrinks stays k m n isM isN
    have apart : ∀ a ∈ mixedBatch, ∀ b ∈ mixedBatch,
        shrinksRoster Prod.fst (fun m => roomFramePlace m.2) a = true →
        shrinksRoster Prod.fst (fun m => roomFramePlace m.2) b = false →
        (laneOf Prod.fst (fun m => roomFramePlace m.2) a).map Prod.fst ≠
          (laneOf Prod.fst (fun m => roomFramePlace m.2) b).map Prod.fst := by decide +kernel
    exact absurd (by rw [isM, isN]; rfl) (apart a insideA b insideB shrinks stays)
  exact ⟨last, by decide +kernel, (sendOrder_restored Prod.fst Prod.snd none (fun _ => none)
    (fun m => roomFramePlace m.2) mixedBatch).2.2 last⟩

/-- A removal and the next message of the same member, and a frame without a number: the
lane's frames come out of order, and a second pass moves them again. -/
theorem roomsInSendOrder_moves :
    ¬ ((roomsInSendOrder Prod.fst (fun m => roomFramePlace m.2)
        [removal, message, unnumbered]).Pairwise fun a b => ∀ k m n,
          laneOf Prod.fst (fun m => roomFramePlace m.2) a = some (k, m) →
          laneOf Prod.fst (fun m => roomFramePlace m.2) b = some (k, n) → m ≤ n) ∧
      roomsInSendOrder Prod.fst (fun m => roomFramePlace m.2)
          (roomsInSendOrder Prod.fst (fun m => roomFramePlace m.2)
            [removal, message, unnumbered]) ≠
        roomsInSendOrder Prod.fst (fun m => roomFramePlace m.2)
          [removal, message, unnumbered] := by
  have once : roomsInSendOrder Prod.fst (fun m => roomFramePlace m.2)
      [removal, message, unnumbered] = [message, unnumbered, removal] := by decide +kernel
  rw [once]
  refine ⟨fun ascending => ?_, by decide +kernel⟩
  have le := pairwise_iff_getElem.mp ascending 0 2 (by decide) (by decide) (by decide)
    "room:a".toList 2 1 (by decide +kernel) (by decide +kernel)
  revert le
  decide

end Kryfo.Catchup
