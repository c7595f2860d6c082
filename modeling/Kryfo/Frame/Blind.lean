import Kryfo.Frame.Rewrite
import Kryfo.Wire.Pad

/-!
# A rewritten frame says nothing of its sender

Two frames that differ in who sends them are the same after they are rewritten for a room,
or for the developer under an anonymous name.
-/

namespace Kryfo.Frame

open Library List

theorem readFrame_write {fields : List (Text × Json)} (proper : (Json.obj fields).Proper) :
    readFrame (envelopeHead ++ Json.write (.obj fields)) = some fields := by
  have head : envelopeHead.isPrefixOf (envelopeHead ++ Json.write (.obj fields)) = true :=
    isPrefixOf_iff_prefix.mpr (prefix_append _ _)
  rw [readFrame, if_pos head, drop_left, Json.read_write proper]

variable (o : Options)

theorem readFrame_wrapMessage (who : Identity) (writtenAt : Int) :
    readFrame (wrapMessage o who writtenAt) = some (present (bodyRow o who writtenAt)) :=
  readFrame_write (proper_body o who writtenAt)

section Rows

variable {row : Row} {key : Text}

@[simp] theorem present_cons_none (key : Text) (row : Row) :
    present ((key, none) :: row) = present row := rfl

@[simp] theorem present_cons_some (key : Text) (j : Json) (row : Row) :
    present ((key, some j) :: row) = (key, j) :: present row := rfl

def putRow (key : Text) (j : Json) (row : Row) : Row :=
  row.map fun field => if field.1 = key then (key, some j) else field

theorem putRow_of_notMem (j : Json) (absent : key ∉ row.map Prod.fst) : putRow key j row = row := by
  conv_rhs => rw [← map_id row]
  refine map_congr_left fun field inside => if_neg ?_
  rintro rfl
  exact absent (mem_map_of_mem inside)

theorem setField_present (j : Json) (keys : (row.map Prod.fst).Nodup)
    (there : ∃ j', (key, some j') ∈ row) :
    Json.setField key j (present row) = present (putRow key j row) := by
  obtain ⟨j', inside⟩ := there
  induction row with
  | nil => exact nomatch inside
  | cons field row ih =>
    obtain ⟨key', o⟩ := field
    rw [map_cons, nodup_cons] at keys
    obtain same | later := mem_cons.mp inside
    · cases same
      have rest : putRow key j row = row := putRow_of_notMem j keys.1
      rw [present_cons_some, Json.setField, if_pos rfl, putRow, map_cons, if_pos rfl,
        present_cons_some, ← putRow, rest]
    · have differs : key' ≠ key := by
        rintro rfl
        exact keys.1 (mem_map.mpr ⟨_, later, rfl⟩)
      rw [putRow, map_cons, if_neg differs, ← putRow]
      cases o with
      | none => exact ih keys.2 later
      | some j'' =>
        rw [present_cons_some, present_cons_some, Json.setField, if_neg differs, ih keys.2 later]

def pickRow (p : Text → Bool) (row : Row) : Row :=
  row.map fun field => if p field.1 then field else (field.1, none)

theorem filter_present (p : Text → Bool) (row : Row) :
    ((present row).filter fun field => p field.1) = present (pickRow p row) := by
  induction row with
  | nil => rfl
  | cons field row ih =>
    obtain ⟨key, o⟩ := field
    rw [pickRow, map_cons]
    cases o with
    | none =>
      rw [present_cons_none, ih]
      split_ifs <;> rfl
    | some j =>
      rw [present_cons_some, filter_cons, ih]
      split_ifs <;> rfl

theorem all_present (p : Text → Bool) (row : Row) :
    ((present row).all fun field => p field.1) =
      row.all fun field => field.2.isNone || p field.1 := by
  induction row with
  | nil => rfl
  | cons field row ih =>
    obtain ⟨key, o⟩ := field
    cases o with
    | none => simpa using ih
    | some j => simp [ih]

end Rows

/-! ## To a room -/

/-- The row of a room frame: the key in place of the sender's, and nothing that is stripped. -/
def roomRow (pub : Text) (row : Row) : Row :=
  pickRow (fun key => key ∉ roomStripped) (putRow ['x'] (.str pub) (putRow ['h'] (.str pub) row))

theorem mem_bodyRow_sender (s : SenderInfo) (badge : Option Text)
    (keys : Option (List (Dict Text Text))) (writtenAt : Int) :
    (['h'], some (.str s.haloId)) ∈ bodyRow o ⟨some s, badge, keys⟩ writtenAt ∧
      (['x'], some (.str s.xPub)) ∈ bodyRow o ⟨some s, badge, keys⟩ writtenAt := by
  simp [bodyRow]

theorem roomFields_body (s : SenderInfo) (badge : Option Text)
    (keys : Option (List (Dict Text Text))) (writtenAt : Int) (pub : Text) :
    roomFields (present (bodyRow o ⟨some s, badge, keys⟩ writtenAt)) pub none =
      present (roomRow pub (bodyRow o ⟨some s, badge, keys⟩ writtenAt)) := by
  have nodup : ((bodyRow o ⟨some s, badge, keys⟩ writtenAt).map Prod.fst).Nodup :=
    keys_bodyRow o _ writtenAt ▸ by decide
  obtain ⟨h, x⟩ := mem_bodyRow_sender o s badge keys writtenAt
  have xThere : (['x'], some (.str s.xPub)) ∈
      putRow ['h'] (.str pub) (bodyRow o ⟨some s, badge, keys⟩ writtenAt) :=
    mem_map.mpr ⟨_, x, if_neg (by simp)⟩
  have nodupToo : ((putRow ['h'] (.str pub)
      (bodyRow o ⟨some s, badge, keys⟩ writtenAt)).map Prod.fst).Nodup := by
    exact nodup
  rw [roomFields, setField_present _ nodup ⟨_, h⟩, setField_present _ nodupToo ⟨_, xThere⟩]
  exact filter_present (fun key => decide (key ∉ roomStripped)) _

theorem roomRow_body (s s' : SenderInfo) (badge badge' : Option Text)
    (keys keys' : Option (List (Dict Text Text))) (writtenAt : Int) (pub : Text) :
    roomRow pub (bodyRow o ⟨some s, badge, keys⟩ writtenAt) =
      roomRow pub (bodyRow o ⟨some s', badge', keys'⟩ writtenAt) := by
  simp [roomRow, bodyRow, putRow, pickRow, roomStripped]

theorem roomFields_eq (s s' : SenderInfo) (badge badge' : Option Text)
    (keys keys' : Option (List (Dict Text Text))) (writtenAt : Int) (pub : Text)
    (number : Option Int) :
    roomFields (present (bodyRow o ⟨some s, badge, keys⟩ writtenAt)) pub number =
      roomFields (present (bodyRow o ⟨some s', badge', keys'⟩ writtenAt)) pub number := by
  have same : roomFields (present (bodyRow o ⟨some s, badge, keys⟩ writtenAt)) pub none =
      roomFields (present (bodyRow o ⟨some s', badge', keys'⟩ writtenAt)) pub none := by
    rw [roomFields_body, roomFields_body, roomRow_body o s s' badge badge' keys keys']
  cases number with
  | none => exact same
  | some n => exact congrArg (Json.setField ['r', 'n'] (.num n)) same

theorem roomFrame_eq (s s' : SenderInfo) (badge badge' : Option Text)
    (keys keys' : Option (List (Dict Text Text))) (writtenAt : Int) (pub : Text)
    (number : Option Int) :
    roomFrame (wrapMessage o ⟨some s, badge, keys⟩ writtenAt) pub number =
      roomFrame (wrapMessage o ⟨some s', badge', keys'⟩ writtenAt) pub number := by
  rw [roomFrame, roomFrame, readFrame_wrapMessage, readFrame_wrapMessage]
  simp only [roomFields_eq o s s' badge badge' keys keys' writtenAt pub number]

/-! ## To the developer -/

/-- A field that goes on to the developer as it is. -/
def devGoes (key : Text) : Bool := key ∈ devKept ∨ key ∈ devPow

def devAllowed (key : Text) : Bool :=
  devGoes key || key ∈ devSender || key ∈ devIgnored || key = devMarker

/-- Every field is allowed, and those that go are kept in their order. -/
theorem devLoop_eq {fields out : List (Text × Json)} {sender : Bool}
    (nodup : ((out ++ fields).map Prod.fst).Nodup) :
    devLoop fields out sender = if fields.all fun field => devAllowed field.1 then
        some (out ++ fields.filter (fun field => devGoes field.1),
          sender || fields.any fun field => !devGoes field.1 && field.1 ∈ devSender)
      else none := by
  induction fields generalizing out sender with
  | nil => simp [devLoop]
  | cons field fields ih =>
    obtain ⟨key, j⟩ := field
    have shorter : ((out ++ fields).map Prod.fst).Nodup :=
      nodup.sublist (((sublist_cons_self _ _).append_left out).map _)
    rw [devLoop]
    by_cases goes : key ∈ devKept ∨ key ∈ devPow
    · have new : key ∉ out.map Prod.fst := by
        rw [map_append, nodup_append] at nodup
        exact fun inside => nodup.2.2 _ inside _ mem_cons_self rfl
      have isGoing : devGoes key = true := decide_eq_true goes
      have allowed : devAllowed key = true := by simp [devAllowed, isGoing]
      rw [if_pos goes, Json.setField_of_notMem j new, ih (by simpa using nodup)]
      simp only [all_cons, filter_cons, any_cons, allowed, isGoing, Bool.true_and,
        if_true, Bool.not_true, Bool.false_and, Bool.false_or, append_assoc,
        singleton_append]
    · have notGoing : devGoes key = false := decide_eq_false goes
      rw [if_neg goes]
      by_cases isSender : key ∈ devSender
      · have allowed : devAllowed key = true := by simp [devAllowed, isSender]
        rw [if_pos isSender, ih shorter]
        simp only [all_cons, filter_cons, any_cons, allowed, notGoing, isSender,
          Bool.true_and, if_false, Bool.false_eq_true, Bool.not_false, decide_true, Bool.true_or,
          Bool.or_true]
      · rw [if_neg isSender]
        by_cases bad : key ∉ devIgnored ∧ key ≠ devMarker
        · have refused : devAllowed key = false := by
            simp [devAllowed, notGoing, isSender, bad.1, bad.2]
          rw [if_pos bad]
          simp [refused]
        · rw [if_neg bad, ih shorter]
          have allowed : devAllowed key = true := by
            simp only [devAllowed, Bool.or_eq_true, decide_eq_true_eq]
            tauto
          simp only [all_cons, filter_cons, any_cons, allowed, notGoing, isSender,
            Bool.true_and, if_false, Bool.false_eq_true, Bool.not_false, decide_false,
            Bool.false_or]

theorem devFields_body (s : SenderInfo) (badge : Option Text)
    (keys : Option (List (Dict Text Text))) (writtenAt : Int) (anon : DevSelf) :
    devFields (present (bodyRow o ⟨some s, badge, keys⟩ writtenAt)) (some anon) =
      if (bodyRow o ⟨some s, badge, keys⟩ writtenAt).all
          (fun field => field.2.isNone || devAllowed field.1) then
        some (Json.setField devMarker devSupport (Json.setField ['o'] (.str []) (devName []
          (present (pickRow devGoes (bodyRow o ⟨some s, badge, keys⟩ writtenAt))) (some anon))))
      else none := by
  have nodup : ((present (bodyRow o ⟨some s, badge, keys⟩ writtenAt)).map Prod.fst).Nodup :=
    (Json.proper_obj.mp (proper_body o ⟨some s, badge, keys⟩ writtenAt)).1
  have sender : ((present (bodyRow o ⟨some s, badge, keys⟩ writtenAt)).any fun field =>
      !devGoes field.1 && field.1 ∈ devSender) = true :=
    any_eq_true.mpr ⟨(['h'], .str s.haloId),
      mem_present.mpr (mem_bodyRow_sender o s badge keys writtenAt).1, rfl⟩
  rw [devFields, devLoop_eq (by simpa using nodup), all_present, filter_present, sender]
  split_ifs with allowed <;> rfl

theorem pickRow_body (who who' : Identity) (writtenAt : Int) :
    pickRow devGoes (bodyRow o who writtenAt) = pickRow devGoes (bodyRow o who' writtenAt) := by
  simp [pickRow, bodyRow, devGoes, devKept, devPow]

/-- Of who sends it only the roster's keys make a frame that may not go. -/
theorem all_bodyRow (s s' : SenderInfo) (badge badge' : Option Text)
    {keys keys' : Option (List (Dict Text Text))} (writtenAt : Int)
    (both : keys.isSome = keys'.isSome) :
    (bodyRow o ⟨some s, badge, keys⟩ writtenAt).all
        (fun field => field.2.isNone || devAllowed field.1) =
      (bodyRow o ⟨some s', badge', keys'⟩ writtenAt).all
        (fun field => field.2.isNone || devAllowed field.1) := by
  have none : keys.isNone = keys'.isNone := by
    cases keys <;> cases keys' <;> simp_all
  simp [bodyRow, devAllowed, devIgnored, none]

theorem lookup_filter {fields : List (Text × Json)} {key : Text} {p : Text → Bool}
    (picked : p key = true) :
    (fields.filter fun field => p field.1).lookup key = fields.lookup key := by
  induction fields with
  | nil => rfl
  | cons field fields ih =>
    obtain ⟨key', j⟩ := field
    rw [filter_cons]
    by_cases same : key = key'
    · subst same
      rw [if_pos picked, lookup_cons_self, lookup_cons_self]
    · have apart : (key == key') = false := beq_false_of_ne same
      split_ifs
      · rw [lookup_cons, lookup_cons, ih]
      · rw [lookup_cons, apart, ih]

theorem devFieldOk_congr {was was' : List (Text × Json)} (anon : DevSelf) (field : Text × Json)
    (same : ∀ key, devGoes key = true → was.lookup key = was'.lookup key) :
    devFieldOk was (some anon) field = devFieldOk was' (some anon) field := by
  unfold devFieldOk
  by_cases goes : field.1 ∈ devKept ∨ field.1 ∈ devPow
  · simp only [same field.1 (decide_eq_true goes)]
  · simp only [if_neg goes]

theorem devOutFrame_eq (s s' : SenderInfo) (badge badge' : Option Text)
    {keys keys' : Option (List (Dict Text Text))} (writtenAt : Int) (anon : DevSelf)
    (both : keys.isSome = keys'.isSome) :
    devOutFrame (wrapMessage o ⟨some s, badge, keys⟩ writtenAt) (some anon) =
      devOutFrame (wrapMessage o ⟨some s', badge', keys'⟩ writtenAt) (some anon) := by
  have picked := pickRow_body o ⟨some s, badge, keys⟩ ⟨some s', badge', keys'⟩ writtenAt
  have fields : devFields (present (bodyRow o ⟨some s, badge, keys⟩ writtenAt)) (some anon) =
      devFields (present (bodyRow o ⟨some s', badge', keys'⟩ writtenAt)) (some anon) := by
    rw [devFields_body, devFields_body, all_bodyRow o s s' badge badge' writtenAt both, picked]
  have lookups : ∀ key, devGoes key = true →
      (present (bodyRow o ⟨some s, badge, keys⟩ writtenAt)).lookup key =
        (present (bodyRow o ⟨some s', badge', keys'⟩ writtenAt)).lookup key := by
    intro key goes
    have here := @lookup_filter (present (bodyRow o ⟨some s, badge, keys⟩ writtenAt)) key devGoes goes
    rw [← here, filter_present, picked, ← filter_present, lookup_filter goes]
  have checks : ∀ back, outOk back (present (bodyRow o ⟨some s, badge, keys⟩ writtenAt)) (some anon) =
      outOk back (present (bodyRow o ⟨some s', badge', keys'⟩ writtenAt)) (some anon) := by
    intro back
    exact congrArg back.all (funext fun field => devFieldOk_congr anon field lookups)
  rw [devOutFrame, devOutFrame, readFrame_wrapMessage, readFrame_wrapMessage]
  simp only [fields, checks]

/-- A frame that no seal covers as it goes out, filled to one of a few sizes. -/
def filled (jsonDecode : Utf16.Text → Option Json) (frame : Text) :
    Except Wire.FrameTooLarge Utf16.Text :=
  Wire.padRumor jsonDecode (frame.flatMap Utf16.encode)

/-- A room frame, filled out, and a frame to the developer under an anonymous name are the
same whoever sends them.  To the developer nothing goes out with the keys of a roster, so
there both have such keys or neither. -/
theorem frames_blind (s s' : SenderInfo) (badge badge' : Option Text)
    (keys keys' : Option (List (Dict Text Text))) (writtenAt : Int) :
    (∀ pub number jsonDecode,
      (roomFrame (wrapMessage o ⟨some s, badge, keys⟩ writtenAt) pub number).map (filled jsonDecode) =
        (roomFrame (wrapMessage o ⟨some s', badge', keys'⟩ writtenAt) pub number).map
          (filled jsonDecode)) ∧
      (keys.isSome = keys'.isSome → ∀ anon,
        devOutFrame (wrapMessage o ⟨some s, badge, keys⟩ writtenAt) (some anon) =
          devOutFrame (wrapMessage o ⟨some s', badge', keys'⟩ writtenAt) (some anon)) := by
  refine ⟨fun pub number jsonDecode => ?_, fun both anon => ?_⟩
  · rw [roomFrame_eq o s s' badge badge' keys keys']
  · exact devOutFrame_eq o s s' badge badge' writtenAt anon both

def SenderInfo.named (name : Text) : SenderInfo := ⟨name, name, name, name, none⟩

def aReply : Options where
  plain := "hi".toList
  burnSeconds := some 60
  msgUid := some ['u']
  replyTo := some ['q']

/-- A reply that burns, from one who has a badge and a picture and from one who has neither. -/
theorem frames_blind_aReply :
    let toDev (who : Identity) := devOutFrame (wrapMessage aReply who 5) (some ⟨['n'], ['n'], ['n']⟩)
    (toDev ⟨some (.named ['a']), none, none⟩).isSome ∧
      toDev ⟨some (.named ['a']), none, none⟩ =
        toDev ⟨some { SenderInfo.named ['b'] with avatar := some 3 }, some ['g'], none⟩ :=
  ⟨by decide, (frames_blind aReply _ _ _ _ _ _ _).2 rfl _⟩

/-- One who sends the keys of a roster along sends the developer nothing, where another's
message goes out. -/
theorem devOutFrame_rosterKeys_ne :
    devOutFrame (wrapMessage { plain := ['m'] } ⟨some (.named ['a']), none, none⟩ 5)
        (some ⟨['n'], ['n'], ['n']⟩) ≠
      devOutFrame (wrapMessage { plain := ['m'] } ⟨some (.named ['a']), none, some []⟩ 5)
        (some ⟨['n'], ['n'], ['n']⟩) := by
  decide

end Kryfo.Frame
