import Kryfo.Library.Latest
import Kryfo.Library.Run
import Kryfo.Library.Utf16
import Mathlib.Algebra.GroupWithZero.Nat

/-!
# Edits and reactions before and after their message

An edit or a reaction is compared, by the time it was written, with the last one taken from its
sender.  One whose message is not here waits, within limits, until it is filed.
-/

namespace Kryfo.FrameOrder

open Library List
open Library.Utf16 (Text)

def isControl (u : UInt16) : Bool :=
  u = 0x061C || u = 0x200E || u = 0x200F || (0x202A ≤ u && u ≤ 0x202E) ||
    (0x2066 ≤ u && u ≤ 0x2069)

def unmarked (s : Text) : Text := s.filter fun u => !isControl u

inductive Kind where
  | edit
  | reaction
  deriving DecidableEq

/-- `text` is an edit's new text or a reaction's emoji, `chars` the length of the wire. -/
structure Frame where
  kind : Kind
  targetUid : Text
  text : Text
  sender : Text
  groupId : Option Text := none
  writtenAt : Option Nat
  chars : Nat := 0

structure Message where
  uid : Text
  sender : Text
  groupId : Option Text := none
  text : Text
  sticker : Bool := false

structure Row where
  peer : Text
  incoming : Bool
  groupId : Option Text
  text : Text
  sticker : Bool

structure Early where
  frame : Frame
  time : Int

structure Phone where
  rows : Text → Option Row
  order : Text → Text → Kind → Option Nat
  reactions : Text → Text → Option Text
  early : List Early

/-- Who is let in, and who is in a group. -/
structure Book where
  isAccepted : Text → Bool
  getGroupMembers : Text → List Text

/-! ## What waits -/

def kTakenBackFor : Int := 2 * 24 * 60 * 60 * 1000
def kEarlyChars : Nat := 2 ^ 20
def kEarlyPerUid : Nat := 32
def kEarlyPerSender : Nat := 64

def earlyChars (early : List Early) : Nat := (early.map (·.frame.chars)).sum

def unparkFirst (picks : Early → Bool) : Nat → List Early → List Early
  | 0, early => early
  | _ + 1, [] => []
  | n + 1, e :: early =>
    if picks e then unparkFirst picks n early else e :: unparkFirst picks (n + 1) early

def trimEarly (picks : Early → Bool) (keep : Nat) (early : List Early) : List Early :=
  unparkFirst picks (early.countP picks - keep) early

def dropOldest : List Early → List Early
  | [] => []
  | e :: early => if kEarlyChars < earlyChars (e :: early) then dropOldest early else e :: early

def Early.isFor (uid : Text) (e : Early) : Bool := e.frame.targetUid = uid

def Early.isBy (sender : Text) (e : Early) : Bool := e.frame.sender = sender

/-- One more to wait, and what came too long ago goes. -/
def addEarly (early : List Early) (e : Early) : List Early :=
  early.filter (fun x => !decide (x.time < e.time - kTakenBackFor)) ++ [e]

def parkEarly (early : List Early) (e : Early) : List Early :=
  dropOldest (trimEarly (Early.isBy e.frame.sender) kEarlyPerSender
    (trimEarly (Early.isFor e.frame.targetUid) kEarlyPerUid (addEarly early e)))

/-- One more to wait, within the limits, and those of its message are not too old. -/
structure Fits (early : List Early) (e : Early) : Prop where
  young : ∀ x ∈ early, x.isFor e.frame.targetUid → e.time - kTakenBackFor ≤ x.time
  perUid : (addEarly early e).countP (Early.isFor e.frame.targetUid) ≤ kEarlyPerUid
  perSender : (addEarly early e).countP (Early.isBy e.frame.sender) ≤ kEarlyPerSender
  chars : earlyChars (addEarly early e) ≤ kEarlyChars

theorem trimEarly_of_le {picks : Early → Bool} {keep : Nat} {early : List Early}
    (few : early.countP picks ≤ keep) : trimEarly picks keep early = early := by
  rw [trimEarly, Nat.sub_eq_zero_of_le few, unparkFirst]

theorem dropOldest_of_le {early : List Early} (small : earlyChars early ≤ kEarlyChars) :
    dropOldest early = early := by
  cases early with
  | nil => rfl
  | cons e early => rw [dropOldest, if_neg (not_lt.mpr small)]

theorem parkEarly_of_fits {early : List Early} {e : Early} (fits : Fits early e) :
    parkEarly early e = addEarly early e := by
  rw [parkEarly, trimEarly_of_le fits.perUid, trimEarly_of_le fits.perSender,
    dropOldest_of_le fits.chars]

theorem Fits.mem_addEarly {early : List Early} {e x : Early} (fits : Fits early e)
    (isFor : x.isFor e.frame.targetUid) : x ∈ addEarly early e ↔ x ∈ early ∨ x = e := by
  simp only [addEarly, mem_append, mem_filter, mem_singleton, Bool.not_eq_true',
    decide_eq_false_iff_not, not_lt]
  exact or_congr_left (and_iff_left_of_imp fun waits => fits.young x waits isFor)

/-! ## Filing -/

variable (book : Book)

def Book.letsIn (f : Frame) : Bool :=
  match f.groupId with
  | none => book.isAccepted f.sender
  | some g => f.sender ∈ book.getGroupMembers g

def Phone.park (s : Phone) (now : Int) (f : Frame) : Phone :=
  if book.letsIn f then { s with early := parkEarly s.early ⟨f, now⟩ } else s

/-- Both directions of a chat of two are filed under the other's id. -/
def pinAllowed (rowPeer : Text) (rowGroup : Option Text) (f : Frame) : Bool :=
  match rowGroup with
  | none => f.groupId = none ∧ rowPeer = f.sender
  | some g => f.groupId = some g ∧ f.sender ∈ book.getGroupMembers g

def Phone.takeFrameOrder (s : Phone) (f : Frame) (w : Nat) : Option Phone :=
  if (s.order f.targetUid f.sender f.kind).any (w < ·) then none
  else some { s with
    order := fun u p k =>
      if u = f.targetUid ∧ p = f.sender ∧ k = f.kind then some w else s.order u p k }

/-- A frame without a time goes in. -/
def Phone.inOrder (s : Phone) (f : Frame) : Option Phone :=
  match f.writtenAt with
  | none => some s
  | some w => s.takeFrameOrder f w

/-- A sticker has no words to edit. -/
def Row.edited (row : Row) (newText : Text) : Row :=
  if row.sticker then row else { row with text := unmarked newText }

def Phone.editMessage (s : Phone) (uid newText : Text) : Phone :=
  { s with rows := Function.update s.rows uid ((s.rows uid).map (·.edited newText)) }

def Phone.setReaction (s : Phone) (uid reactor : Text) (emoji : Option Text) : Phone :=
  { s with
    reactions := fun u p => if u = uid ∧ p = reactor then emoji else s.reactions u p }

/-- An empty emoji clears a reaction. -/
def reactionOf (emoji : Text) : Option Text := if emoji = [] then none else some emoji

def Phone.fileFrame (s : Phone) (now : Int) (f : Frame) : Phone :=
  match s.rows f.targetUid with
  | none => s.park book now f
  | some row =>
    match f.kind with
    | .reaction =>
      if ¬ pinAllowed book row.peer row.groupId f ∨ 32 < f.text.length then s
      else match s.inOrder f with
        | none => s
        | some s' => s'.setReaction f.targetUid f.sender (reactionOf f.text)
    | .edit =>
      if row.incoming ∧ row.peer = f.sender then match s.inOrder f with
        | none => s
        | some s' => s'.editMessage f.targetUid f.text
      else s

def Phone.applyEarly (s : Phone) (now : Int) (uid : Text) : Phone :=
  (s.early.filter (Early.isFor uid)).foldl
    (fun s e => if e.time < now - kTakenBackFor then s else s.fileFrame book now e.frame)
    { s with early := s.early.filter fun e => !e.isFor uid }

/-- A copy of a message that is here changes nothing. -/
def Phone.fileMessage (s : Phone) (now : Int) (m : Message) : Phone :=
  if (s.rows m.uid).isSome then s
  else
    let row := ⟨m.sender, true, m.groupId, unmarked m.text, m.sticker⟩
    Phone.applyEarly book { s with rows := Function.update s.rows m.uid (some row) } now m.uid

inductive Act where
  | message (m : Message)
  | frame (f : Frame)

def next (s : Phone) : Int × Act → Phone
  | (now, .message m) => s.fileMessage book now m
  | (now, .frame f) => s.fileFrame book now f

/-! ## What is shown -/

def Frame.value (f : Frame) : Option Text :=
  match f.kind with
  | .edit => some (unmarked f.text)
  | .reaction => reactionOf f.text

/-- The text of a message, or a person's reaction to it. -/
def Phone.shown (s : Phone) (uid p : Text) : Kind → Option Text
  | .edit => (s.rows uid).map (·.text)
  | .reaction => s.reactions uid p

def Message.own (m : Message) : Kind → Option Text
  | .edit => some (unmarked m.text)
  | .reaction => none

/-- An edit of a message by its author, or a reaction by a member of its chat, from someone let
in. -/
structure IsOf (m : Message) (f : Frame) : Prop where
  target : f.targetUid = m.uid
  written : f.writtenAt.isSome
  letIn : book.letsIn f
  edit : f.kind = .edit → f.sender = m.sender
  reaction : f.kind = .reaction → pinAllowed book m.sender m.groupId f ∧ f.text.length ≤ 32

def Phone.slot (s : Phone) (uid p : Text) (k : Kind) : Latest Nat (Option Text) :=
  ⟨s.order uid p k, s.shown uid p k⟩

/-- What a person wrote in some frames of one kind. -/
def said (frames : Set Frame) (p : Text) (k : Kind) : Set (Nat × Option Text) :=
  {x | ∃ f ∈ frames, f.sender = p ∧ f.kind = k ∧ f.writtenAt = some x.1 ∧ f.value = x.2}

/-- The message is here, and so is what was written last in the frames taken. -/
structure Filed (m : Message) (taken : Set Frame) (s : Phone) : Prop where
  row : ∃ text, s.rows m.uid = some ⟨m.sender, true, m.groupId, text, false⟩
  slots : ∀ p k, (k = .edit → p = m.sender) →
    Latest.Holds (m.own k) (said taken p k) (s.slot m.uid p k)

/-- The message is not here, and the frames that came wait for it. -/
structure Waiting (m : Message) (came : Set Frame) (s : Phone) : Prop where
  row : s.rows m.uid = none
  order : ∀ p k, s.order m.uid p k = none
  reactions : ∀ p, s.reactions m.uid p = none
  early : ∀ f, f ∈ came ↔ ∃ e ∈ s.early, e.isFor m.uid ∧ e.frame = f

variable {book} {m : Message} {f : Frame} {s : Phone} {frames taken : Set Frame} {now : Int}

theorem said_insert {w : Nat} (written : f.writtenAt = some w) :
    said (insert f frames) f.sender f.kind = insert (w, f.value) (said frames f.sender f.kind) := by
  ext ⟨time, value⟩
  constructor
  · rintro ⟨g, rfl | inside, isSender, isKind, isTime, rfl⟩
    · rw [written] at isTime
      cases isTime
      exact .inl rfl
    · exact .inr ⟨g, inside, isSender, isKind, isTime, rfl⟩
  · rintro (isThis | ⟨g, inside, rest⟩)
    · cases isThis
      exact ⟨f, .inl rfl, rfl, rfl, written, rfl⟩
    · exact ⟨g, .inr inside, rest⟩

theorem said_insert_of_ne {p : Text} {k : Kind} (other : ¬ (f.sender = p ∧ f.kind = k)) :
    said (insert f frames) p k = said frames p k := by
  ext x
  constructor
  · rintro ⟨g, rfl | inside, isSender, isKind, rest⟩
    · exact (other ⟨isSender, isKind⟩).elim
    · exact ⟨g, inside, isSender, isKind, rest⟩
  · rintro ⟨g, inside, rest⟩
    exact ⟨g, .inr inside, rest⟩

/-- The frame is noted as the last one taken, and shown. -/
def Phone.take (s : Phone) (f : Frame) (w : Nat) : Phone :=
  let s' := { s with
    order := fun u p k =>
      if u = f.targetUid ∧ p = f.sender ∧ k = f.kind then some w else s.order u p k }
  match f.kind with
  | .edit => s'.editMessage f.targetUid f.text
  | .reaction => s'.setReaction f.targetUid f.sender (reactionOf f.text)

theorem fileFrame_of_isOf {text : Text} {w : Nat}
    (here : s.rows m.uid = some ⟨m.sender, true, m.groupId, text, false⟩) (isOf : IsOf book m f)
    (written : f.writtenAt = some w) :
    s.fileFrame book now f =
      if (s.order m.uid f.sender f.kind).any (w < ·) then s else s.take f w := by
  rw [Phone.fileFrame, isOf.target, here, Phone.inOrder, written, Phone.take, ← isOf.target]
  cases kind : f.kind with
  | edit =>
    dsimp only [Phone.takeFrameOrder]
    rw [if_pos ⟨rfl, (isOf.edit kind).symm⟩, kind]
    split_ifs <;> rfl
  | reaction =>
    obtain ⟨allowed, short⟩ := isOf.reaction kind
    dsimp only [Phone.takeFrameOrder]
    rw [if_neg (by simp [allowed, short]), kind]
    split_ifs <;> rfl

theorem slot_take {text : Text} (w : Nat)
    (here : s.rows m.uid = some ⟨m.sender, true, m.groupId, text, false⟩) (isOf : IsOf book m f)
    {p : Text} {k : Kind} (edits : k = .edit → p = m.sender) :
    (s.take f w).slot m.uid p k =
      if f.sender = p ∧ f.kind = k then ⟨some w, f.value⟩ else s.slot m.uid p k := by
  cases kind : f.kind with
  | edit =>
    have isAuthor : f.sender = m.sender := isOf.edit kind
    cases k with
    | edit =>
      simp [Phone.slot, Phone.shown, Phone.take, Phone.editMessage, kind, isOf.target, here,
        Row.edited, Frame.value, isAuthor, edits rfl]
    | reaction => simp [Phone.slot, Phone.shown, Phone.take, Phone.editMessage, kind]
  | reaction =>
    cases k with
    | edit => simp [Phone.slot, Phone.shown, Phone.take, Phone.setReaction, kind]
    | reaction =>
      by_cases same : p = f.sender
      · simp [Phone.slot, Phone.shown, Phone.take, Phone.setReaction, kind, isOf.target, same,
          Frame.value]
      · simp [Phone.slot, Phone.shown, Phone.take, Phone.setReaction, kind, same, Ne.symm same]

theorem exists_row_take {text : Text} (w : Nat)
    (here : s.rows m.uid = some ⟨m.sender, true, m.groupId, text, false⟩) (isOf : IsOf book m f) :
    ∃ text', (s.take f w).rows m.uid = some ⟨m.sender, true, m.groupId, text', false⟩ := by
  cases kind : f.kind with
  | edit =>
    exact ⟨unmarked f.text, by
      simp [Phone.take, Phone.editMessage, kind, isOf.target, here, Row.edited]⟩
  | reaction => exact ⟨text, by simp [Phone.take, Phone.setReaction, kind, here]⟩

theorem Filed.fileFrame (filed : Filed m taken s) (now : Int) (isOf : IsOf book m f) :
    Filed m (insert f taken) (s.fileFrame book now f) := by
  obtain ⟨text, here⟩ := filed.row
  obtain ⟨w, written⟩ := Option.isSome_iff_exists.mp isOf.written
  have put (p : Text) (k : Kind) (edits : k = .edit → p = m.sender) :
      Latest.Holds (m.own k) (said (insert f taken) p k)
        (if f.sender = p ∧ f.kind = k then (s.slot m.uid p k).put w f.value
          else s.slot m.uid p k) := by
    split_ifs with same
    · obtain ⟨rfl, rfl⟩ := same
      rw [said_insert written]
      exact (filed.slots _ _ edits).put w f.value
    · rw [said_insert_of_ne same]
      exact filed.slots p k edits
  rw [fileFrame_of_isOf here isOf written]
  split_ifs with older
  · refine ⟨⟨text, here⟩, fun p k edits => ?_⟩
    have same := put p k edits
    split_ifs at same with isThis
    · obtain ⟨rfl, rfl⟩ := isThis
      rwa [Latest.put_of_older older] at same
    · exact same
  · refine ⟨exists_row_take w here isOf, fun p k edits => ?_⟩
    have same := put p k edits
    rw [slot_take w here isOf edits]
    split_ifs at same ⊢ with isThis
    · obtain ⟨rfl, rfl⟩ := isThis
      rwa [Latest.put_of_not_older older] at same
    · exact same

theorem Filed.foldl (filed : Filed m taken s) (due : List Early)
    (isOf : ∀ e ∈ due, IsOf book m e.frame) (young : ∀ e ∈ due, now - kTakenBackFor ≤ e.time) :
    Filed m (taken ∪ {f | ∃ e ∈ due, e.frame = f}) (due.foldl
      (fun s e => if e.time < now - kTakenBackFor then s else s.fileFrame book now e.frame) s) := by
  induction due generalizing taken s with
  | nil => simpa using filed
  | cons e due ih =>
    have isYoung : ¬ e.time < now - kTakenBackFor := not_lt.mpr (young e (.head _))
    have after := ih (filed.fileFrame now (isOf e (.head _)))
      (fun e' inside => isOf e' (.tail _ inside)) (fun e' inside => young e' (.tail _ inside))
    rw [foldl_cons, if_neg isYoung]
    convert after using 1
    ext f
    simp [or_assoc, or_left_comm, eq_comm]

theorem Waiting.fileMessage (waiting : Waiting m taken s) (words : m.sticker = false)
    (isOf : ∀ f ∈ taken, IsOf book m f)
    (young : ∀ e ∈ s.early, e.isFor m.uid → now - kTakenBackFor ≤ e.time) :
    Filed m taken (s.fileMessage book now m) := by
  have start : Filed m ∅ { s with
      rows := Function.update s.rows m.uid
        (some ⟨m.sender, true, m.groupId, unmarked m.text, m.sticker⟩)
      early := s.early.filter fun e => !e.isFor m.uid } := by
    refine ⟨⟨unmarked m.text, by simp [words]⟩, fun p k edits => ?_⟩
    have own : Latest.Holds (m.own k) (said ∅ p k) ⟨none, m.own k⟩ := .own (by simp [said])
    cases k with
    | edit => simpa [Phone.slot, Phone.shown, Message.own, waiting.order] using own
    | reaction =>
      simpa [Phone.slot, Phone.shown, Message.own, waiting.order, waiting.reactions] using own
  have isDue : ∀ e, e ∈ s.early.filter (Early.isFor m.uid) ↔ e ∈ s.early ∧ e.isFor m.uid :=
    fun e => mem_filter
  have after := start.foldl (s.early.filter (Early.isFor m.uid))
    (fun e inside => isOf _ ((waiting.early _).mpr
      ⟨e, ((isDue e).mp inside).1, ((isDue e).mp inside).2, rfl⟩))
    (fun e inside => young e ((isDue e).mp inside).1 ((isDue e).mp inside).2)
  have all : ∅ ∪ {f | ∃ e ∈ s.early.filter (Early.isFor m.uid), e.frame = f} = taken := by
    ext f
    simp [waiting.early, and_assoc]
  rw [all] at after
  rw [Phone.fileMessage, waiting.row]
  exact after

theorem Waiting.fileFrame (waiting : Waiting m taken s) (isOf : IsOf book m f)
    (fits : Fits s.early ⟨f, now⟩) : Waiting m (insert f taken) (s.fileFrame book now f) := by
  have parked : s.fileFrame book now f = { s with early := addEarly s.early ⟨f, now⟩ } := by
    rw [Phone.fileFrame, isOf.target, waiting.row]
    rw [Phone.park, if_pos isOf.letIn, parkEarly_of_fits fits]
  rw [parked]
  refine ⟨waiting.row, waiting.order, waiting.reactions, fun g => ?_⟩
  have isFor : (⟨f, now⟩ : Early).isFor m.uid := by simp [Early.isFor, isOf.target]
  have stays {e : Early} (own : e.isFor m.uid) :
      e ∈ addEarly s.early ⟨f, now⟩ ↔ e ∈ s.early ∨ e = ⟨f, now⟩ :=
    fits.mem_addEarly (isOf.target ▸ own)
  constructor
  · rintro (rfl | came)
    · exact ⟨_, (stays isFor).mpr (.inr rfl), isFor, rfl⟩
    · obtain ⟨e, waits, own, rfl⟩ := (waiting.early g).mp came
      exact ⟨e, (stays own).mpr (.inl waits), own, rfl⟩
  · rintro ⟨e, waits, own, rfl⟩
    rcases (stays own).mp waits with before | rfl
    · exact .inr ((waiting.early _).mpr ⟨e, before, own, rfl⟩)
    · exact .inl rfl

/-! ## Runs -/

/-- What waits stays within the limits as an act is handled. -/
def Within (s : Phone) : Int × Act → Prop
  | (now, .message m) => ∀ e ∈ s.early, e.isFor m.uid → now - kTakenBackFor ≤ e.time
  | (now, .frame f) => (s.rows f.targetUid).isNone → Fits s.early ⟨f, now⟩

def framesOf (acts : List (Int × Act)) : Set Frame := {f | ∃ now, (now, .frame f) ∈ acts}

variable (book) in
def Concerns (m : Message) : Act → Prop
  | .message m' => m' = m
  | .frame f => IsOf book m f

theorem framesOf_cons_message (acts : List (Int × Act)) :
    framesOf ((now, .message m) :: acts) = framesOf acts := by
  simp [framesOf]

theorem union_framesOf_cons (acts : List (Int × Act)) :
    taken ∪ framesOf ((now, .frame f) :: acts) = insert f taken ∪ framesOf acts := by
  ext g
  simp [framesOf, exists_or, or_assoc, or_left_comm]

theorem Filed.run (filed : Filed m taken s) (acts : List (Int × Act))
    (concerns : ∀ a ∈ acts, Concerns book m a.2) :
    Filed m (taken ∪ framesOf acts) (acts.foldl (next book) s) := by
  induction acts generalizing taken s with
  | nil => simpa [framesOf] using filed
  | cons act acts ih =>
    have rest : ∀ a ∈ acts, Concerns book m a.2 := fun a inside => concerns a (.tail _ inside)
    obtain ⟨now, m' | f⟩ := act
    · obtain rfl : m' = m := concerns _ (.head _)
      obtain ⟨text, here⟩ := filed.row
      have same : next book s (now, .message m') = s := by
        simp [next, Phone.fileMessage, here]
      rw [framesOf_cons_message, foldl_cons, same]
      exact ih filed rest
    · rw [union_framesOf_cons]
      exact ih (filed.fileFrame now (concerns _ (.head _))) rest

theorem Waiting.run (waiting : Waiting m taken s) (words : m.sticker = false)
    (isOf : ∀ f ∈ taken, IsOf book m f) (acts : List (Int × Act))
    (concerns : ∀ a ∈ acts, Concerns book m a.2) (within : Allowed (next book) Within s acts)
    (comes : ∃ now, (now, .message m) ∈ acts) :
    Filed m (taken ∪ framesOf acts) (acts.foldl (next book) s) := by
  induction acts generalizing taken s with
  | nil => simp at comes
  | cons act acts ih =>
    have rest : ∀ a ∈ acts, Concerns book m a.2 := fun a inside => concerns a (.tail _ inside)
    obtain ⟨now, m' | f⟩ := act
    · obtain rfl : m' = m := concerns _ (.head _)
      rw [framesOf_cons_message]
      exact (waiting.fileMessage words isOf within.1).run acts rest
    · have isOfMessage : IsOf book m f := concerns _ (.head _)
      have fits := within.1 (by simp [isOfMessage.target, waiting.row])
      rw [union_framesOf_cons]
      refine ih (waiting.fileFrame isOfMessage fits) ?_ rest within.2 (by simpa using comes)
      rintro g (rfl | inside)
      · exact isOfMessage
      · exact isOf g inside

/-- Of one person's frames of one kind, the one written last. -/
structure IsLast (frames : Set Frame) (p : Text) (k : Kind) (f : Frame) : Prop where
  isOne : f ∈ frames
  sender : f.sender = p
  kind : f.kind = k
  most : ∀ g ∈ frames, g.sender = p → g.kind = k → ∀ v ∈ g.writtenAt, ∀ w ∈ f.writtenAt, v ≤ w

/-- Frames that one person wrote at one time say the same. -/
def Distinct (frames : Set Frame) : Prop :=
  ∀ f ∈ frames, ∀ g ∈ frames, f.sender = g.sender → f.kind = g.kind →
    f.writtenAt = g.writtenAt → f.text = g.text

theorem value_eq {g : Frame} (kind : f.kind = g.kind) (text : f.text = g.text) :
    f.value = g.value := by
  rw [Frame.value, Frame.value, kind, text]

theorem Filed.shown_of_isLast (filed : Filed m frames s) (distinct : Distinct frames)
    (isOf : ∀ f ∈ frames, IsOf book m f) {p : Text} {k : Kind} (isLast : IsLast frames p k f) :
    s.shown m.uid p k = f.value := by
  obtain ⟨w, written⟩ := Option.isSome_iff_exists.mp (isOf f isLast.isOne).written
  have edits : k = .edit → p = m.sender := by
    intro isEdit
    rw [← isLast.sender]
    exact (isOf f isLast.isOne).edit (isLast.kind.trans isEdit)
  refine (filed.slots p k edits).eq_of_last ?_
    ⟨f, isLast.isOne, isLast.sender, isLast.kind, written, rfl⟩ ?_
  · rintro ⟨time, _⟩ ⟨f, inF, senderF, kindF, timeF, rfl⟩
      ⟨time', _⟩ ⟨g, inG, senderG, kindG, timeG, rfl⟩ sameTime
    have sameKind : f.kind = g.kind := kindF.trans kindG.symm
    exact value_eq sameKind (distinct f inF g inG (senderF.trans senderG.symm) sameKind
      (by rw [timeF, timeG]; exact congrArg some sameTime))
  · rintro x ⟨g, inside, sender, kind, time, -⟩
    exact isLast.most g inside sender kind x.1 time w written

/-- In whatever order a phone handles a message with words and frames of it, its text ends as
the edit written last and each person's reaction as the one they wrote last. -/
theorem frames_settle {acts : List (Int × Act)} (fresh : Waiting m ∅ s) (words : m.sticker = false)
    (concerns : ∀ a ∈ acts, Concerns book m a.2) (comes : ∃ now, (now, .message m) ∈ acts)
    (within : Allowed (next book) Within s acts) (distinct : Distinct (framesOf acts)) :
    (∀ p k f, IsLast (framesOf acts) p k f → (acts.foldl (next book) s).shown m.uid p k = f.value) ∧
    ∀ p k, (k = .edit → p = m.sender) → (∀ f ∈ framesOf acts, f.sender = p → f.kind ≠ k) →
      (acts.foldl (next book) s).shown m.uid p k = m.own k := by
  have filed := fresh.run words (by simp) acts concerns within comes
  rw [Set.empty_union] at filed
  constructor
  · have isOf : ∀ f ∈ framesOf acts, IsOf book m f := by
      rintro f ⟨now, inside⟩
      exact concerns _ inside
    exact fun p k f isLast => filed.shown_of_isLast distinct isOf isLast
  · intro p k edits none
    refine (filed.slots p k edits).eq_own (Set.eq_empty_of_forall_notMem ?_)
    rintro x ⟨f, inside, sender, kind, -⟩
    exact none f inside sender kind

def nothingHere : Phone := ⟨fun _ => none, fun _ _ _ => none, fun _ _ => none, []⟩

def letsAllIn : Book := ⟨fun _ => true, fun _ => []⟩

def hello : Message := { uid := [1], sender := [2], text := [7] }

def correction : Frame :=
  { kind := .edit, targetUid := [1], text := [8], sender := [2], writtenAt := some 5 }

def firstTry : Frame := { correction with text := [9], writtenAt := some 3 }

def cheer : Frame := { correction with kind := .reaction, text := [6] }

/-- The last edit comes before the message, the one before it after. -/
def mixedUp : List (Int × Act) :=
  [(0, .frame correction), (1, .message hello), (2, .frame cheer), (3, .frame firstTry)]

theorem frames_settle_correction :
    (mixedUp.foldl (next letsAllIn) nothingHere).shown [1] [2] .edit = some [8] := by
  have frames : ∀ f ∈ framesOf mixedUp, f = correction ∨ f = cheer ∨ f = firstTry := by
    rintro f ⟨now, inside⟩
    simp only [mixedUp, mem_cons, Prod.mk.injEq, Act.frame.injEq] at inside
    tauto
  have within : Allowed (next letsAllIn) Within nothingHere mixedUp := by
    refine ⟨fun _ => ⟨by simp [nothingHere], by decide, by decide, by decide⟩,
      (by dsimp only [Within]; decide), fun isNone => ?_, fun isNone => ?_, trivial⟩
    all_goals cases isNone
  have concerns : ∀ a ∈ mixedUp, Concerns letsAllIn hello a.2 := by
    have edit (f : Frame) (isEdit : f.kind = .edit) : f.kind = .reaction →
        pinAllowed letsAllIn hello.sender hello.groupId f ∧ f.text.length ≤ 32 := by simp [isEdit]
    simp only [mixedUp, forall_mem_cons]
    exact ⟨⟨rfl, rfl, rfl, fun _ => rfl, edit _ rfl⟩, rfl,
      ⟨rfl, rfl, rfl, by decide, fun _ => ⟨by decide, by decide⟩⟩,
      ⟨rfl, rfl, rfl, fun _ => rfl, edit _ rfl⟩, by simp⟩
  refine (frames_settle (m := hello) ⟨rfl, fun _ _ => rfl, fun _ => rfl, by simp [nothingHere]⟩ rfl
    concerns ⟨1, by simp [mixedUp]⟩ within ?_).1 [2] .edit correction
    ⟨⟨0, by simp [mixedUp]⟩, rfl, rfl, ?_⟩
  · intro f isF g isG _ kind written
    rcases frames f isF with rfl | rfl | rfl <;> rcases frames g isG with rfl | rfl | rfl <;>
      first | rfl | (cases kind; done) | cases written
  · intro g isG _ _ v isV w isW
    cases isW
    rcases frames g isG with rfl | rfl | rfl <;> cases isV <;> decide

def longReaction : Frame :=
  { kind := .reaction, targetUid := [1], text := List.replicate 33 1, sender := [2],
    writtenAt := some 5 }

/-- An edit of a sticker changes nothing, and neither does a reaction of 33 characters. -/
theorem sticker_and_long_left_out :
    ([(0, .message { hello with sticker := true }), (1, .frame correction)].foldl
      (next letsAllIn) nothingHere).shown [1] [2] .edit = some [7] ∧
    correction.value = some [8] ∧
    ([(0, .message hello), (1, .frame longReaction)].foldl
      (next letsAllIn) nothingHere).shown [1] [2] .reaction = none ∧
    longReaction.value = some (List.replicate 33 1) := by
  decide

end Kryfo.FrameOrder
