import Kryfo.Seen.Load

/-!
# What compaction keeps

A start and the compactor agree on what is held after each line.  So the compacted file reads back
as the file itself exactly when not too many lines follow the last one of an id a start keeps, and
what is still held fits the limits without what has expired.
-/

namespace Kryfo.Seen

open Library List

def openedID (line : List Char) : Option ID :=
  match parseLine line with
  | .opened id => id
  | _ => none

def unopenedID (line : List Char) : Option ID :=
  match parseLine line with
  | .unopened id => id
  | _ => none

def IsOpened (line : List Char) : Prop :=
  (line ≠ [] ∧ '\n' ∉ line) ∧ ∃ id, parseLine line = .opened id

def IsUnopened (line : List Char) : Prop :=
  (line ≠ [] ∧ '\n' ∉ line) ∧ ∃ id, parseLine line = .unopened id

theorem unset_empty (id : ID) : (∅ : Held).unset id = ∅ :=
  Table.eq_empty fun _ member => absurd ((Table.mem_unset ..).mp member).2 Finmap.notMem_empty

/-! ## The loops of the compactor -/

theorem dropHeld_fst (order : List ID) (held : Held) :
    (dropHeld order held).1 = (held.listed order).map Prod.fst := by
  induction order generalizing held with
  | nil => rfl
  | cons id order ih =>
    unfold dropHeld Table.listed
    cases found : held.lookup id with
    | none => rw [if_neg (Finmap.lookup_eq_none.mp found), ih]
    | some h =>
      rw [if_pos (Finmap.mem_of_lookup_eq_some found)]
      exact congrArg (id :: ·) (ih _)

theorem dropHeld_snd {order : List ID} {held : Held} (ordered : ∀ id ∈ held, id ∈ order) :
    (dropHeld order held).2 = ∅ := by
  induction order generalizing held with
  | nil => exact Table.eq_empty fun id member => not_mem_nil (ordered id member)
  | cons first order ih =>
    unfold dropHeld
    split_ifs with here
    · refine ih fun id member => ?_
      obtain ⟨other, inside⟩ := (Table.mem_unset ..).mp member
      exact (mem_cons.mp (ordered id inside)).resolve_left other
    · refine ih fun id member => (mem_cons.mp (ordered id member)).resolve_left ?_
      rintro rfl
      exact here member

theorem lookup_pruneHeld (now : Int) (held : Held) (id : ID) :
    (pruneHeld now held).lookup id = (held.lookup id).filter fun h => !heldGone h.stamp now :=
  Table.lookup_keep ..

theorem pruneHeld_unset (now : Int) (held : Held) (id : ID) :
    pruneHeld now (held.unset id) = (pruneHeld now held).unset id := by
  refine Finmap.ext_lookup fun id' => ?_
  rw [lookup_pruneHeld, Table.lookup_unset, Table.lookup_unset, lookup_pruneHeld]
  split_ifs <;> rfl

theorem stillHeld_eq (now : Int) (order : List ID) (held : Held) :
    stillHeld now order held = (((pruneHeld now held).listed order).filter fun e => e.2.free,
        ((pruneHeld now held).listed order).filter fun e => !e.2.free) := by
  induction order generalizing held with
  | nil => rfl
  | cons id order ih =>
    have prunes := lookup_pruneHeld now held id
    unfold stillHeld Table.listed
    cases found : held.lookup id with
    | none =>
      rw [found] at prunes
      rw [prunes]
      exact ih held
    | some h =>
      rw [found] at prunes
      by_cases gone : heldGone h.stamp now
      · rw [prunes, Option.filter_some]
        simp only [gone]
        exact ih held
      · rw [prunes, Option.filter_some]
        simp only [gone, ih, pruneHeld_unset]
        cases free : h.free <;> simp [free]

/-! ## A start and the compactor side by side -/

/-- A ring holds what is left of a sequence that has the ids of these lines. -/
def Keeps {cap : Nat} (r : Ring ID cap) (idOf : List Char → Option ID)
    (ls : List (List Char)) : Prop :=
  ∃ ids, r.queue = pushAll cap [] ids ∧ ls.filterMap idOf ⊆ ids

variable {ls : List (List Char)} {idOf : List Char → Option ID} {line : List Char} {cap : Nat}

theorem Keeps.addAll {r : Ring ID cap} (keeps : Keeps r idOf ls) {ids : List ID}
    {more : List (List Char)} (has : more.filterMap idOf ⊆ ids) :
    Keeps (ids.foldl Ring.add r) idOf (ls ++ more) := by
  obtain ⟨before, queue, hasBefore⟩ := keeps
  refine ⟨before ++ ids, ?_, ?_⟩
  · rw [Ring.queue_foldl_add, queue, pushAll, pushAll, pushAll, foldl_append]
  · intro id member
    rw [filterMap_append] at member
    exact (mem_append.mp member).elim (fun old => mem_append_left _ (hasBefore old))
      fun isNew => mem_append_right _ (has isNew)

structure Agree (s : SeenIDs) (g : Gathered) : Prop where
  held : g.held = s.held
  ordered : ∀ id ∈ s.held, id ∈ g.order
  reached : ∀ id h, s.held.lookup id = some h → h.Reached
  opened : Keeps s.opened openedID g.opened
  unopened : Keeps s.unopened unopenedID g.unopened
  openedLines : ∀ l ∈ g.opened, IsOpened l
  unopenedLines : ∀ l ∈ g.unopened, IsUnopened l

theorem agree_new : Agree SeenIDs.new {} where
  held := rfl
  ordered := fun _ member => absurd member Finmap.notMem_empty
  reached := fun _ _ found => by cases found
  opened := ⟨[], rfl, by simp⟩
  unopened := ⟨[], rfl, by simp⟩
  openedLines := by simp
  unopenedLines := by simp

theorem Agree.readNext {s : SeenIDs} {g : Gathered} (agree : Agree s g) (visit : Visit)
    (plain : line ≠ [] ∧ '\n' ∉ line) : Agree (s.readNext visit line) (gather g line) := by
  have sameHeld := agree.held
  have fewer (id : ID) : ∀ id' ∈ s.held.unset id, id' ∈ g.order :=
    fun id' member => agree.ordered id' ((Table.mem_unset ..).mp member).2
  have fewerReached (id : ID) : ∀ id' h, (s.held.unset id).lookup id' = some h → h.Reached :=
    fun id' h found => agree.reached id' h (Table.sub_unset _ _ _ _ found)
  unfold SeenIDs.readNext SeenIDs.readLine gather
  cases parsed : parseLine line with
  | free =>
    refine { agree with held := by simp only [sameHeld], ordered := ?_, reached := ?_ }
    · intro id member
      rw [← Finmap.mem_keys, Table.keys_change] at member
      exact agree.ordered id member
    · intro id h found
      obtain ⟨h', before, rfl⟩ := Option.map_eq_some_iff.mp ((Table.lookup_change ..).symm.trans found)
      exact agree.reached id h' before
  | drop =>
    have all : ∀ id ∈ g.held, id ∈ g.order := by rw [sameHeld]; exact agree.ordered
    refine { agree with
      held := dropHeld_snd all, ordered := ?_, reached := ?_, opened := ?_, openedLines := ?_ }
    · exact fun _ member => absurd member Finmap.notMem_empty
    · exact fun _ _ found => by cases found
    · refine agree.opened.addAll fun id member => ?_
      obtain ⟨line', inLines, same⟩ := mem_filterMap.mp member
      obtain ⟨id', dropped, rfl⟩ := mem_map.mp inLines
      rw [dropHeld_fst, sameHeld] at dropped
      obtain ⟨⟨id'', h⟩, listed, rfl⟩ := mem_map.mp dropped
      rw [openedID, parseLine_hex] at same
      cases same
      rw [visit.mem_order]
      exact Finmap.mem_keys.mpr (Finmap.mem_of_lookup_eq_some (Table.mem_listed.mp listed).2)
    · refine forall_mem_append.mpr ⟨agree.openedLines, forall_mem_map.mpr fun id _ => ?_⟩
      exact ⟨plain_hex id, some id, parseLine_hex id⟩
  | held read =>
    cases read with
    | none => exact { agree with }
    | some entry =>
      obtain ⟨id, h⟩ := entry
      have sense := reached_of_parseLine parsed
      have setReached : ∀ id' h', (s.held.set id h).lookup id' = some h' → h'.Reached := by
        intro id' h' found
        rw [Table.lookup_set] at found
        split_ifs at found
        · cases found
          exact sense
        · exact agree.reached id' h' found
      simp only [sameHeld, Table.Limits.enter, heldRoom]
      by_cases had : id ∈ s.held
      · simp only [had]
        refine { agree with held := rfl, ordered := ?_, reached := setReached }
        intro id' member
        rcases (Table.mem_set ..).mp member with rfl | old
        · exact agree.ordered id' had
        · exact agree.ordered id' old
      · simp only [had, false_or, if_false]
        split_ifs
        · refine { agree with held := rfl, ordered := ?_, reached := setReached }
          intro id' member
          rcases (Table.mem_set ..).mp member with rfl | old
          · exact mem_append_right _ mem_cons_self
          · exact mem_append_left _ (agree.ordered id' old)
        · exact { agree with }
  | unopened id =>
    have lines := forall_mem_append.mpr
      ⟨agree.unopenedLines, forall_mem_singleton.mpr ⟨plain, id, parsed⟩⟩
    have ring := agree.unopened.addAll (show [line].filterMap unopenedID ⊆ id.toList by
      cases id <;> simp [unopenedID, parsed])
    cases id with
    | none => exact { agree with unopened := ring, unopenedLines := lines }
    | some id =>
      exact { agree with
        held := by simp only [sameHeld, Option.elim_some]
        ordered := fewer id
        reached := fewerReached id
        unopened := ring
        unopenedLines := lines }
  | opened id =>
    have lines := forall_mem_append.mpr
      ⟨agree.openedLines, forall_mem_singleton.mpr ⟨plain, id, parsed⟩⟩
    have ring := agree.opened.addAll (show [line].filterMap openedID ⊆ id.toList by
      cases id <;> simp [openedID, parsed])
    cases id with
    | none => exact { agree with opened := ring, openedLines := lines }
    | some id =>
      exact { agree with
        held := by simp only [sameHeld, Option.elim_some]
        ordered := fewer id
        reached := fewerReached id
        opened := ring
        openedLines := lines }

theorem agree_replay (visit : Visit) (plain : ∀ l ∈ ls, l ≠ [] ∧ '\n' ∉ l) :
    Agree (SeenIDs.replay visit ls) (ls.foldl gather {}) := by
  have go : ∀ (s : SeenIDs) (g : Gathered), Agree s g →
      Agree (ls.foldl (SeenIDs.readNext visit) s) (ls.foldl gather g) := by
    induction ls with
    | nil => exact fun _ _ agree => agree
    | cons line ls ih =>
      intro s g agree
      exact ih (fun l member => plain l (by simp [member])) _ _
        (agree.readNext visit (plain line (by simp)))
  exact go _ _ agree_new

/-! ## Reading the compacted file back -/

theorem replay_ids (visit : Visit) (names : ∀ l ∈ ls, IsOpened l ∨ IsUnopened l) {s : SeenIDs}
    (noneHeld : s.held = ∅) :
    ∃ n, ls.foldl (SeenIDs.readNext visit) s = { s with
      opened := (ls.filterMap openedID).foldl Ring.add s.opened
      unopened := (ls.filterMap unopenedID).foldl Ring.add s.unopened
      lines := n } := by
  induction ls generalizing s with
  | nil => exact ⟨s.lines, rfl⟩
  | cons line ls ih =>
    have step : s.readNext visit line = { s with
        opened := (openedID line).toList.foldl Ring.add s.opened
        unopened := (unopenedID line).toList.foldl Ring.add s.unopened
        lines := s.lines + 1 } := by
      obtain ⟨-, id, parsed⟩ | ⟨-, id, parsed⟩ := names line mem_cons_self
      all_goals cases id <;>
        simp [SeenIDs.readNext, SeenIDs.readLine, openedID, unopenedID, parsed, noneHeld, unset_empty]
    obtain ⟨n, later⟩ := ih (s := s.readNext visit line)
      (fun l member => names l (mem_cons_of_mem _ member)) ((congrArg SeenIDs.held step).trans noneHeld)
    rw [foldl_cons, later, step, filterMap_cons, filterMap_cons]
    exact ⟨n, by cases openedID line <;> cases unopenedID line <;> rfl⟩

/-- As a line says it: whether it is let go of is said by the mark behind it. -/
def notYet (h : HeldAt) : HeldAt := { h with free := false }

def asLine (e : ID × HeldAt) : ID × HeldAt := (e.1, notYet e.2)

variable {h : HeldAt}

theorem letGo_notYet (free : h.free = true) : letGo (notYet h) = h := by
  cases h
  simp_all [letGo, notYet]

theorem notYet_eq (free : h.free = false) : notYet h = h := by
  cases h
  simp_all [notYet]

theorem replay_heldLines (visit : Visit) {es : List (ID × HeldAt)}
    (reached : ∀ e ∈ es, e.2.Reached) (s : SeenIDs) :
    ∃ n, (heldLines es).foldl (SeenIDs.readNext visit) s =
      { s with lines := n, held := heldLimits.enterAll HeldAt.group s.held (es.map asLine) } := by
  induction es generalizing s with
  | nil => exact ⟨s.lines, rfl⟩
  | cons e es ih =>
    have step : s.readNext visit (heldLine e.1 e.2) = { s with
          lines := s.lines + 1
          held := heldLimits.enter HeldAt.group s.held (asLine e).1 (asLine e).2 } := by
      simp only [SeenIDs.readNext, SeenIDs.readLine, parseLine_heldLine e.1 (reached e (by simp)),
        asLine, notYet]
    rw [heldLines, map_cons, foldl_cons, step]
    exact ih (fun e' member => reached e' (by simp [member])) _

/-- What is held once the held lines of a compacted file have been read. -/
def reread (frees others : List (ID × HeldAt)) : Held :=
  heldLimits.enterAll HeldAt.group
    ((heldLimits.enterAll HeldAt.group ∅ (frees.map asLine)).change letGo) (others.map asLine)

theorem mem_change_letGo (held : Held) (id : ID) : id ∈ held.change letGo ↔ id ∈ held := by
  rw [← Finmap.mem_keys, Table.keys_change, Finmap.mem_keys]

theorem map_fst_asLine (es : List (ID × HeldAt)) :
    (es.map asLine).map Prod.fst = es.map Prod.fst := by
  rw [map_map]
  rfl

section Reread

variable {held : Held} {order : List ID}

def freed (order : List ID) (held : Held) : List (ID × HeldAt) :=
  (held.listed order).filter fun e => e.2.free

def waiting (order : List ID) (held : Held) : List (ID × HeldAt) :=
  (held.listed order).filter fun e => !e.2.free

theorem mem_freed {id : ID} :
    (id, h) ∈ freed order held ↔ (id ∈ order ∧ held.lookup id = some h) ∧ h.free = true := by
  rw [freed, mem_filter, Table.mem_listed]

theorem mem_waiting {id : ID} :
    (id, h) ∈ waiting order held ↔ (id ∈ order ∧ held.lookup id = some h) ∧ h.free = false := by
  rw [waiting, mem_filter, Table.mem_listed, Bool.not_eq_true']

theorem nodup_asLine (p : ID × HeldAt → Bool) :
    ((((held.listed order).filter p).map asLine).map Prod.fst).Nodup := by
  rw [map_fst_asLine]
  exact (Table.nodup_listed order held).sublist (filter_sublist.map _)

/-- Within the limits, what is still held is read back as it was. -/
theorem reread_of_within (within : heldLimits.Within HeldAt.group held)
    (ordered : ∀ id ∈ held, id ∈ order) :
    reread (freed order held) (waiting order held) = held := by
  have freedFound : ∀ e ∈ (freed order held).map asLine,
      (held.change notYet).lookup e.1 = some e.2 := by
    intro e member
    obtain ⟨⟨id, h⟩, listed, rfl⟩ := mem_map.mp member
    change (held.change notYet).lookup id = some (notYet h)
    rw [Table.lookup_change, (mem_freed.mp listed).1.2, Option.map_some]
  have waitingFound : ∀ e ∈ (waiting order held).map asLine, held.lookup e.1 = some e.2 := by
    intro e member
    obtain ⟨⟨id, h⟩, listed, rfl⟩ := mem_map.mp member
    obtain ⟨⟨-, found⟩, free⟩ := mem_waiting.mp listed
    change held.lookup id = some (notYet h)
    rw [found, notYet_eq free]
  obtain ⟨firstSub, firstMem⟩ := Table.Limits.enterAll_of_within
    (within.change (f := notYet) fun _ => rfl) (t := ∅) (fun _ _ found => by cases found) freedFound
  have markedSub : Table.Sub ((heldLimits.enterAll HeldAt.group ∅
      ((freed order held).map asLine)).change letGo) held := by
    intro id h marked
    rw [Table.lookup_change] at marked
    obtain ⟨h', entered, rfl⟩ := Option.map_eq_some_iff.mp marked
    have isFreed := (firstMem id).mp (Finmap.mem_of_lookup_eq_some entered)
    rw [map_fst_asLine] at isFreed
    obtain ⟨⟨id', h''⟩, listed, rfl⟩ := mem_map.mp (isFreed.resolve_left Finmap.notMem_empty)
    obtain ⟨⟨-, found⟩, free⟩ := mem_freed.mp listed
    have := firstSub _ _ entered
    rw [Table.lookup_change, found] at this
    cases this
    rw [found, letGo_notYet free]
  obtain ⟨lastSub, lastMem⟩ := Table.Limits.enterAll_of_within within markedSub waitingFound
  refine Table.eq_of_sub lastSub fun id member => ?_
  obtain ⟨h, found⟩ := Table.mem_iff.mp member
  rw [reread, lastMem, mem_change_letGo, firstMem, map_fst_asLine, map_fst_asLine]
  cases free : h.free with
  | true =>
    exact .inl (.inr (mem_map_of_mem (mem_freed.mpr ⟨⟨ordered id member, found⟩, free⟩)))
  | false =>
    exact .inr (mem_map_of_mem (mem_waiting.mpr ⟨⟨ordered id member, found⟩, free⟩))

theorem within_reread (order : List ID) (held : Held) :
    heldLimits.Within HeldAt.group (reread (freed order held) (waiting order held)) := by
  have positive : 0 < heldLimits.perGroup := by decide
  have first : heldLimits.Within HeldAt.group
      (heldLimits.enterAll HeldAt.group ∅ ((freed order held).map asLine)) :=
    Table.Limits.within_empty.enterAll positive (nodup_asLine _)
      fun _ _ member => absurd member Finmap.notMem_empty
  refine (first.change (f := letGo) fun _ => rfl).enterAll positive (nodup_asLine _) ?_
  intro e member inside
  obtain ⟨⟨id, h⟩, listed, rfl⟩ := mem_map.mp member
  rw [mem_change_letGo] at inside
  have isFreed := (Table.Limits.mem_enterAll inside).resolve_left Finmap.notMem_empty
  rw [map_fst_asLine] at isFreed
  obtain ⟨⟨id', h'⟩, listed', same⟩ := mem_map.mp isFreed
  obtain ⟨⟨-, found⟩, free⟩ := mem_waiting.mp listed
  obtain ⟨⟨-, found'⟩, free'⟩ := mem_freed.mp listed'
  obtain rfl : id' = id := same
  rw [found] at found'
  cases found'
  rw [free] at free'
  cases free'

theorem pruneHeld_pruneHeld (now : Int) (held : Held) :
    pruneHeld now (pruneHeld now held) = pruneHeld now held := by
  refine Finmap.ext_lookup fun id => ?_
  rw [lookup_pruneHeld, lookup_pruneHeld, Option.filter_filter]
  simp only [Bool.and_self]

/-- What is still held is read back as it was exactly within the limits. -/
theorem pruneHeld_reread_iff (now : Int) (ordered : ∀ id ∈ pruneHeld now held, id ∈ order) :
    pruneHeld now held = pruneHeld now (reread (freed order (pruneHeld now held))
          (waiting order (pruneHeld now held))) ↔
      heldLimits.Within HeldAt.group (pruneHeld now held) := by
  constructor
  · intro same
    rw [same]
    exact (within_reread _ _).sub (Table.sub_keep _ _)
  · intro within
    rw [reread_of_within within ordered, pruneHeld_pruneHeld]

end Reread

/-! ## Before and after -/

theorem mem_of_mem_pruneHeld {now : Int} {held : Held} {id : ID}
    (member : id ∈ pruneHeld now held) : id ∈ held := by
  obtain ⟨h, found⟩ := Table.mem_iff.mp member
  exact Table.mem_iff.mpr ⟨h, Table.sub_keep _ _ _ _ found⟩

/-- Two rings, of all the lines and of the newest, hold the same ids exactly when the newest lines
have all of them. -/
theorem same_has_iff {r r' : Ring ID cap} (keeps : Keeps r idOf ls) {newest : List ID}
    (newest_eq : newest = (lastOf cap ls).filterMap idOf)
    (reads : r'.queue = pushAll cap [] newest) :
    (∀ id, r.has id = r'.has id) ↔ ∀ id, r.has id = true → id ∈ newest := by
  obtain ⟨ids, queue, has⟩ := keeps
  have part : newest ⊆ ids := by
    rw [newest_eq]
    exact List.Subset.trans (filterMap_subset _ (drop_subset _ _)) has
  have short : newest.length ≤ cap := by
    rw [newest_eq]
    refine (length_filterMap_le ..).trans ?_
    rw [lastOf, length_drop]
    omega
  have positive : 0 < cap := Nat.zero_lt_of_lt r.next_lt
  have core := pushAll_same_iff positive part short
  rw [← queue, ← reads] at core
  simp only [← Ring.has_iff] at core
  constructor
  · intro same id member
    exact core.mp (fun id' => by rw [same]) ((Ring.has_iff ..).mp member)
  · intro kept id
    exact Bool.eq_iff_iff.mpr (core.mpr (fun id' member => kept id' ((Ring.has_iff ..).mpr member)) id)

/-- An id a drop mark took as kept counts as an opened line where the mark is. -/
def newestOpened (ls : List (List Char)) : List ID :=
  (lastOf seenKeep (ls.foldl gather {}).opened).filterMap openedID

def newestUnopened (ls : List (List Char)) : List ID :=
  (lastOf seenUnopenedKeep (ls.foldl gather {}).unopened).filterMap unopenedID

theorem lastOf_subset {α : Type*} (n : Nat) (xs : List α) : lastOf n xs ⊆ xs :=
  drop_subset _ _

theorem mem_heldLines {es : List (ID × HeldAt)} (member : line ∈ heldLines es) :
    line ≠ [] ∧ '\n' ∉ line := by
  obtain ⟨e, -, rfl⟩ := mem_map.mp member
  exact plain_heldLine e.1 e.2

theorem replay_mark (visit : Visit) (es : List (ID × HeldAt)) {s : SeenIDs}
    (held : s.held = heldLimits.enterAll HeldAt.group ∅ (es.map asLine)) :
    ∃ n, (if es ≠ [] then [['!']] else []).foldl (SeenIDs.readNext visit) s =
      { s with lines := n, held := s.held.change letGo } := by
  by_cases none : es = []
  · subst none
    have same : s.held.change letGo = s.held := by
      rw [held]
      exact Table.eq_empty fun id member =>
        absurd ((mem_change_letGo ..).mp member) Finmap.notMem_empty
    exact ⟨s.lines, by rw [same]; rfl⟩
  · rw [if_pos none]
    exact ⟨s.lines + 1, rfl⟩

theorem replay_names (visit : Visit) {os us : List (List Char)} (opened : ∀ l ∈ os, IsOpened l)
    (unopened : ∀ l ∈ us, IsUnopened l) :
    ∃ n, SeenIDs.replay visit (os ++ us) = { SeenIDs.new with
      opened := (os.filterMap openedID).foldl Ring.add SeenIDs.new.opened
      unopened := (us.filterMap unopenedID).foldl Ring.add SeenIDs.new.unopened
      lines := n } := by
  have names : ∀ l ∈ os ++ us, IsOpened l ∨ IsUnopened l := fun l member =>
    (mem_append.mp member).imp (opened l) (unopened l)
  have noOpened : us.filterMap openedID = [] := filterMap_eq_nil_iff.mpr fun l member => by
    obtain ⟨-, id, parsed⟩ := unopened l member
    rw [openedID, parsed]
  have noUnopened : os.filterMap unopenedID = [] := filterMap_eq_nil_iff.mpr fun l member => by
    obtain ⟨-, id, parsed⟩ := opened l member
    rw [unopenedID, parsed]
  have replayed := replay_ids visit names (s := SeenIDs.new) rfl
  rwa [filterMap_append, filterMap_append, noOpened, noUnopened, append_nil, nil_append] at replayed

theorem replay_still (visit : Visit) (frees others : List (ID × HeldAt))
    (reached : ∀ e ∈ frees, e.2.Reached) (reached' : ∀ e ∈ others, e.2.Reached)
    {s : SeenIDs} (none : s.held = ∅) :
    ∃ n, (heldLines frees ++ (if frees ≠ [] then [['!']] else []) ++ heldLines others).foldl
      (SeenIDs.readNext visit) s = { s with lines := n, held := reread frees others } := by
  obtain ⟨n, first⟩ := replay_heldLines visit reached s
  rw [none] at first
  obtain ⟨m, marked⟩ := replay_mark visit frees (congrArg SeenIDs.held first)
  rw [foldl_append, foldl_append, marked, first]
  exact replay_heldLines visit reached' _

theorem compactLines_eq (ls : List (List Char)) (now : Int) :
    compactLines ls now = let g := ls.foldl gather {}
      let held := pruneHeld now g.held
      (lastOf seenKeep g.opened ++ lastOf seenUnopenedKeep g.unopened) ++
        (heldLines (freed g.order held) ++ (if freed g.order held ≠ [] then [['!']] else []) ++
          heldLines (waiting g.order held)) := by
  simp only [compactLines, stillHeld_eq, append_assoc]
  rfl

theorem replay_compactLines (visit : Visit) (plain : ∀ l ∈ ls, l ≠ [] ∧ '\n' ∉ l) (now : Int) :
    (SeenIDs.replay visit (compactLines ls now)).opened.queue =
        pushAll seenKeep [] (newestOpened ls) ∧
      (SeenIDs.replay visit (compactLines ls now)).unopened.queue =
        pushAll seenUnopenedKeep [] (newestUnopened ls) ∧
      (SeenIDs.replay visit (compactLines ls now)).held =
        reread (freed (ls.foldl gather {}).order (pruneHeld now (ls.foldl gather {}).held))
          (waiting (ls.foldl gather {}).order (pruneHeld now (ls.foldl gather {}).held)) := by
  have agree := agree_replay visit plain
  rw [compactLines_eq]
  unfold newestOpened newestUnopened
  generalize ls.foldl gather {} = g at agree ⊢
  have reached : ∀ e ∈ (pruneHeld now g.held).listed g.order, e.2.Reached := by
    rintro ⟨id, h⟩ listed
    have found := Table.sub_keep _ _ _ _ (Table.mem_listed.mp listed).2
    exact agree.reached id h (agree.held ▸ found)
  obtain ⟨m, named⟩ := replay_names visit
    (fun l member => agree.openedLines l (lastOf_subset seenKeep _ member))
    (fun l member => agree.unopenedLines l (lastOf_subset seenUnopenedKeep _ member))
  obtain ⟨n, still⟩ := replay_still visit
    (freed g.order (pruneHeld now g.held)) (waiting g.order (pruneHeld now g.held))
    (fun e member => reached e (mem_of_mem_filter member))
    (fun e member => reached e (mem_of_mem_filter member)) (congrArg SeenIDs.held named)
  rw [SeenIDs.replay, foldl_append, ← SeenIDs.replay, still, named]
  rw [Ring.queue_foldl_add, Ring.queue_foldl_add]
  exact ⟨rfl, rfl, rfl⟩

theorem lines_compact (visit : Visit) (file : List Char) (now : Int) :
    lines (compact file now) = compactLines (lines file) now := by
  have plain : ∀ l ∈ lines file, l ≠ [] ∧ '\n' ∉ l := fun l member => plain_of_mem_lines member
  have agree := agree_replay visit plain
  refine lines_unlines fun l member => ?_
  simp only [compactLines, mem_append] at member
  rcases member with (((opened | unopened) | held) | mark) | held
  · exact (agree.openedLines l (lastOf_subset _ _ opened)).1
  · exact (agree.unopenedLines l (lastOf_subset _ _ unopened)).1
  · exact mem_heldLines held
  · split_ifs at mark
    · cases mem_singleton.mp mark
      decide
    · cases mark
  · exact mem_heldLines held

/-- Two sets a runner may start with that are the same to it. -/
structure Same (s s' : SeenIDs) : Prop where
  opened : ∀ id, s.opened.has id = s'.opened.has id
  unopened : ∀ id, s.unopened.has id = s'.unopened.has id
  held : s.held = s'.held

/-! ## Which files are safe -/

def openedLine (line : List Char) : Bool :=
  match parseLine line with
  | .opened _ => true
  | _ => false

def unopenedLine (line : List Char) : Bool :=
  match parseLine line with
  | .unopened _ => true
  | _ => false

/-- The lines, with a drop mark written out as the opened lines of the ids it takes as kept. -/
def spelled : Gathered → List (List Char) → List (List Char)
  | _, [] => []
  | g, line :: ls =>
    (if parseLine line = .drop then (dropHeld g.order g.held).1.map hex else [line]) ++
      spelled (gather g line) ls

/-- From the last line of `id` on there are no more than `cap` lines of its kind, repeats counted. -/
def NearEnd (idOf : List Char → Option ID) (kind : List Char → Bool) (cap : Nat)
    (ls : List (List Char)) (id : ID) : Prop :=
  ∃ before line after, ls = before ++ line :: after ∧ idOf line = some id ∧
    (line :: after).countP kind ≤ cap

theorem openedLine_of_id (line : List Char) (id : ID) (names : openedID line = some id) :
    openedLine line := by
  unfold openedID at names
  unfold openedLine
  split at names <;> simp_all

theorem unopenedLine_of_id (line : List Char) (id : ID) (names : unopenedID line = some id) :
    unopenedLine line := by
  unfold unopenedID at names
  unfold unopenedLine
  split at names <;> simp_all

theorem nearEnd_iff {kind : List Char → Bool} (ofKind : ∀ line id, idOf line = some id → kind line)
    (id : ID) : id ∈ (lastOf cap (ls.filter kind)).filterMap idOf ↔ NearEnd idOf kind cap ls id := by
  rw [mem_filterMap]
  constructor
  · rintro ⟨line, member, names⟩
    have short := length_drop (i := (ls.filter kind).length - cap) (l := ls.filter kind)
    have whole := take_append_drop ((ls.filter kind).length - cap) (ls.filter kind)
    obtain ⟨earlier, later, parts⟩ := append_of_mem member
    rw [lastOf] at parts
    rw [parts, length_append, length_cons] at short
    rw [parts, ← append_assoc] at whole
    obtain ⟨before, rest, rfl, -, restEq⟩ := filter_eq_append_iff.mp whole.symm
    obtain ⟨skipped, after, rfl, -, -, laterEq⟩ := filter_eq_cons_iff.mp restEq
    refine ⟨before ++ skipped, line, after, (append_assoc ..).symm, names, ?_⟩
    rw [countP_cons_of_pos (ofKind line id names), countP_eq_length_filter, laterEq]
    omega
  · rintro ⟨before, line, after, rfl, names, few⟩
    refine ⟨line, ?_, names⟩
    rw [countP_eq_length_filter] at few
    rw [lastOf, filter_append, drop_append_of_le_length (by rw [length_append]; omega),
      filter_cons_of_pos (ofKind line id names)]
    exact mem_append_right _ mem_cons_self

theorem gather_of_held {read : Option (ID × HeldAt)} (parsed : parseLine line = .held read)
    (g : Gathered) : (gather g line).opened = g.opened ∧ (gather g line).unopened = g.unopened := by
  unfold gather
  rw [parsed]
  rcases read with _ | ⟨id, h⟩
  · exact ⟨rfl, rfl⟩
  · dsimp only
    split_ifs <;> exact ⟨rfl, rfl⟩

theorem gather_unopened (g : Gathered) :
    (ls.foldl gather g).unopened = g.unopened ++ ls.filter unopenedLine := by
  induction ls generalizing g with
  | nil => simp
  | cons line ls ih =>
    have step : (gather g line).unopened = g.unopened ++ [line].filter unopenedLine := by
      cases parsed : parseLine line with
      | held read => simp [unopenedLine, parsed, gather_of_held parsed]
      | _ => simp [gather, unopenedLine, parsed]
    rw [foldl_cons, ih, step, append_assoc, ← filter_append, singleton_append]

theorem gather_opened (g : Gathered) :
    (ls.foldl gather g).opened = g.opened ++ (spelled g ls).filter openedLine := by
  induction ls generalizing g with
  | nil => simp [spelled]
  | cons line ls ih =>
    have step : (gather g line).opened = g.opened ++ ((if parseLine line = .drop then
        (dropHeld g.order g.held).1.map hex else [line]).filter openedLine) := by
      cases parsed : parseLine line with
      | held read => simp [openedLine, parsed, gather_of_held parsed]
      | drop => simp [gather, openedLine, parsed, filter_map, Function.comp_def, parseLine_hex]
      | _ => simp [gather, openedLine, parsed]
    rw [foldl_cons, ih, step, append_assoc, ← filter_append, spelled]

/-- Loading the compacted file gives what loading the file gives exactly when of each id a start
keeps the last line is near enough the end, and what a start holds fits the limits. -/
theorem load_compact_same_iff (visit visit' : Visit) (file : List Char) (now : Int) :
    Same (SeenIDs.load visit file now) (SeenIDs.load visit' (compact file now) now) ↔
      (∀ id, (SeenIDs.load visit file now).opened.has id = true →
        NearEnd openedID openedLine seenKeep (spelled {} (lines file)) id) ∧
      (∀ id, (SeenIDs.load visit file now).unopened.has id = true →
        NearEnd unopenedID unopenedLine seenUnopenedKeep (lines file) id) ∧
      heldLimits.Within HeldAt.group (SeenIDs.load visit file now).held := by
  have plain : ∀ l ∈ lines file, l ≠ [] ∧ '\n' ∉ l := fun l member => plain_of_mem_lines member
  have agree := agree_replay visit plain
  obtain ⟨opened, unopened, held⟩ := replay_compactLines visit' plain now
  have openedIff := same_has_iff agree.opened rfl opened
  have unopenedIff := same_has_iff agree.unopened rfl unopened
  simp only [gather_opened, nil_append, nearEnd_iff openedLine_of_id] at openedIff
  simp only [gather_unopened, nil_append, nearEnd_iff unopenedLine_of_id] at unopenedIff
  have heldIff := pruneHeld_reread_iff now
    fun id member => agree.ordered id (agree.held ▸ mem_of_mem_pruneHeld member)
  rw [← held, agree.held] at heldIff
  constructor
  · rintro ⟨sameOpened, sameUnopened, sameHeld⟩
    rw [SeenIDs.load_held, SeenIDs.load_held, lines_compact visit] at sameHeld
    simp only [SeenIDs.load_opened, SeenIDs.load_unopened,
      lines_compact visit] at sameOpened sameUnopened ⊢
    exact ⟨openedIff.mp sameOpened, unopenedIff.mp sameUnopened, heldIff.mp sameHeld⟩
  · rintro ⟨newestO, newestU, within⟩
    constructor
    all_goals simp only [SeenIDs.load_opened, SeenIDs.load_unopened, SeenIDs.load_held,
      lines_compact visit]
    · exact openedIff.mpr newestO
    · exact unopenedIff.mpr newestU
    · exact heldIff.mpr within

section Repeats

theorem spelled_of_opened (kind : ∀ l ∈ ls, IsOpened l) (g : Gathered) :
    (spelled g ls).filter openedLine = ls := by
  induction ls generalizing g with
  | nil => rfl
  | cons line ls ih =>
    obtain ⟨id, parsed⟩ := (kind line (by simp)).2
    rw [spelled, if_neg (by simp [parsed]), filter_append,
      ih fun l member => kind l (by simp [member]), filter_cons_of_pos (by simp [openedLine, parsed])]
    rfl

/-- One id, then another as often as a start keeps ids, as two runners on one
file may write it. -/
def repeated : List (List Char) := hex 0 :: List.replicate seenKeep (hex 1)

theorem isOpened_repeated : ∀ l ∈ repeated, IsOpened l := by
  have isHex : ∀ id, IsOpened (hex id) := fun id => ⟨plain_hex id, some id, parseLine_hex id⟩
  intro l member
  rcases mem_cons.mp member with rfl | later
  · exact isHex 0
  · exact eq_of_mem_replicate later ▸ isHex 1

theorem openedID_hex (id : ID) : openedID (hex id) = some id := by rw [openedID, parseLine_hex]

theorem filterMap_openedID_replicate (n : Nat) (id : ID) :
    (List.replicate n (hex id)).filterMap openedID = List.replicate n id :=
  filterMap_replicate_of_some (openedID_hex id)

theorem newestOpened_repeated : newestOpened repeated = List.replicate seenKeep 1 := by
  have last : lastOf seenKeep repeated = List.replicate seenKeep (hex 1) := by
    rw [lastOf, repeated, length_cons, length_replicate]
    rfl
  rw [newestOpened, gather_opened, spelled_of_opened isOpened_repeated, nil_append, last,
    filterMap_openedID_replicate]

/-- The one id is known after a start and not after a start on the compacted
file. -/
theorem not_load_compact_same :
    ¬ ∀ (visit visit' : Visit) (file : List Char) (now : Int),
      Same (SeenIDs.load visit file now) (SeenIDs.load visit' (compact file now) now) := by
  intro same
  have plain : ∀ l ∈ repeated, l ≠ [] ∧ '\n' ∉ l := fun l member => (isOpened_repeated l member).1
  have sameOpened := (same .ascending .ascending (unlines repeated) 0).opened 0
  rw [SeenIDs.load_opened, SeenIDs.load_opened, lines_compact .ascending,
    lines_unlines plain] at sameOpened
  have ids : repeated.filterMap openedID = 0 :: List.replicate seenKeep 1 := by
    rw [repeated, filterMap_cons, openedID_hex, filterMap_openedID_replicate]
  have two : (0 : ID) :: List.replicate seenKeep 1 ⊆ [0, 1] := by
    refine cons_subset.mpr ⟨mem_cons_self, fun id member => ?_⟩
    rw [eq_of_mem_replicate member]
    exact mem_cons_of_mem _ mem_cons_self
  have before : (0 : ID) ∈ (SeenIDs.replay .ascending repeated).opened.queue := by
    obtain ⟨n, replayed⟩ := replay_ids .ascending (s := SeenIDs.new)
      (fun l member => .inl (isOpened_repeated l member)) rfl
    rw [SeenIDs.replay, replayed, ids, Ring.queue_foldl_add]
    exact (mem_pushAll_of_subset two (by decide) 0).mpr mem_cons_self
  have after : (0 : ID) ∉ (SeenIDs.replay .ascending (compactLines repeated 0)).opened.queue := by
    rw [(replay_compactLines .ascending plain 0).1, newestOpened_repeated]
    intro member
    rcases mem_append.mp (pushAll_subset _ _ _ member) with none | another
    · cases none
    · exact absurd (eq_of_mem_replicate another) (by decide)
  rw [← Ring.has_iff] at before after
  exact after (sameOpened.symm.trans before)

end Repeats

end Kryfo.Seen
