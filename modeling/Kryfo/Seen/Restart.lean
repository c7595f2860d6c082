import Kryfo.Library.Run
import Kryfo.Seen.Compact
import Kryfo.Seen.Set
import Mathlib.Tactic.NormNum
import Mathlib.Tactic.Positivity

/-!
# What a restart finds held

Memory forgets an expired hold before it looks for room; the file is replayed with every hold in it
and pruned at the end.  The two agree as long as each hold the set takes also has room beside what
the replay holds, the expired ones included.
-/

namespace Kryfo.Seen

open Library List

/-! ## The held part of a replay -/

def nextHeld (held : Held) (line : List Char) : Held :=
  match parseLine line with
  | .free => held.change letGo
  | .drop => ∅
  | .held none => held
  | .held (some (id, h)) => heldLimits.enter HeldAt.group held id h
  | .unopened id => id.elim held held.unset
  | .opened id => id.elim held held.unset

def heldAfter (ls : List (List Char)) : Held := ls.foldl nextHeld ∅

theorem readLine_held (visit : Visit) (s : SeenIDs) (line : List Char) :
    (s.readLine visit line).held = nextHeld s.held line := by
  unfold SeenIDs.readLine nextHeld
  cases parseLine line with
  | free | drop => rfl
  | held read => cases read <;> rfl
  | unopened id | opened id => cases id <;> rfl

theorem replay_held (visit : Visit) (ls : List (List Char)) :
    (SeenIDs.replay visit ls).held = heldAfter ls := by
  have go : ∀ s : SeenIDs,
      (ls.foldl (SeenIDs.readNext visit) s).held = ls.foldl nextHeld s.held := by
    induction ls with
    | nil => exact fun _ => rfl
    | cons line ls ih =>
      exact fun s => by rw [foldl_cons, ih, SeenIDs.readNext, readLine_held, foldl_cons]
  exact go SeenIDs.new

theorem nextHeld_hex (held : Held) (id : ID) : nextHeld held (hex id) = held.unset id := by
  rw [nextHeld, parseLine_hex]
  rfl

theorem nextHeld_unopened (held : Held) (id : ID) :
    nextHeld held ('-' :: hex id) = held.unset id := by
  have parsed : parseLine ('-' :: hex id) = .unopened (some id) := by
    rw [← parseSeenID_hex id]
    rfl
  rw [nextHeld, parsed]
  rfl

variable {h : HeldAt}

theorem nextHeld_heldLine (held : Held) (id : ID) (reached : h.Reached) (kept : h.free = false) :
    nextHeld held (heldLine id h) = heldLimits.enter HeldAt.group held id h := by
  rw [nextHeld, parseLine_heldLine id reached]
  exact congrArg (heldLimits.enter HeldAt.group held id) (notYet_eq kept)

variable {ls : List (List Char)}

/-- The compacted file holds what the file holds and has not expired. -/
theorem heldAfter_compactLines (plain : ∀ l ∈ ls, l ≠ [] ∧ '\n' ∉ l) (now : Int)
    (within : heldLimits.Within HeldAt.group (pruneHeld now (heldAfter ls))) :
    heldAfter (compactLines ls now) = pruneHeld now (heldAfter ls) := by
  have agree := agree_replay .ascending plain
  have held := (replay_compactLines .ascending plain now).2.2
  rw [agree.held, replay_held, replay_held] at held
  rw [held]
  refine reread_of_within within fun id member => agree.ordered id ?_
  rw [replay_held]
  exact mem_of_mem_pruneHeld member

/-! ## Pruning -/

theorem pruneHeld_later {now later : Int} (after : now ≤ later) (held : Held) :
    pruneHeld later (pruneHeld now held) = pruneHeld later held := by
  refine Finmap.ext_lookup fun id => ?_
  rw [lookup_pruneHeld, lookup_pruneHeld, lookup_pruneHeld, Option.filter_filter]
  congr 1
  funext h
  simp only [heldGone]
  by_cases early : h.stamp.toInt < now - seenHeldFor
  · have : h.stamp.toInt < later - seenHeldFor := by omega
    simp [this]
  · simp [early]

theorem pruneHeld_change_letGo (now : Int) (held : Held) :
    pruneHeld now (held.change letGo) = (pruneHeld now held).change letGo := by
  refine Finmap.ext_lookup fun id => ?_
  rw [lookup_pruneHeld, Table.lookup_change, Table.lookup_change, lookup_pruneHeld]
  cases held.lookup id with
  | none => rfl
  | some h => by_cases gone : heldGone h.stamp now <;> simp [letGo, gone, Option.filter]

theorem pruneHeld_set {now : Int} (held : Held) (id : ID) (kept : heldGone h.stamp now = false) :
    pruneHeld now (held.set id h) = (pruneHeld now held).set id h := by
  refine Finmap.ext_lookup fun id' => ?_
  rw [lookup_pruneHeld, Table.lookup_set, Table.lookup_set, lookup_pruneHeld]
  split_ifs
  · simp [kept]
  · rfl

/-! ## The invariant -/

namespace Store

variable {ρ : Type*}

/-- What the lines of the file hold, the expired ones too. -/
def fileHeld (st : Store ρ) : Held := heldAfter (lines st.text)

def Whole (text : List Char) : Prop := text = [] ∨ ∃ before, text = before ++ ['\n']

theorem whole_append_unlines (text : List Char) (ls : List (List Char)) :
    Whole (text ++ unlines ls) :=
  .inr ⟨text ++ ['\n'].intercalate ls, by rw [unlines, append_assoc]⟩

theorem whole_compact (file : List Char) (now : Int) : Whole (compact file now) := by
  rw [compact, ← nil_append (unlines _)]
  exact whole_append_unlines ..

theorem lines_append_unlines {text : List Char} (whole : Whole text)
    (plain : ∀ l ∈ ls, l ≠ [] ∧ '\n' ∉ l) : lines (text ++ unlines ls) = lines text ++ ls := by
  rcases whole with rfl | ⟨before, rfl⟩
  · exact lines_unlines plain
  · rw [append_assoc, singleton_append, lines_append, lines_unlines plain, lines_append,
      lines_nil, append_nil]

theorem heldAfter_append (ls more : List (List Char)) :
    heldAfter (ls ++ more) = more.foldl nextHeld (heldAfter ls) := foldl_append ..

theorem write_set_held (st : Store ρ) (ls : List (List Char)) :
    (st.write ls).set.held = st.set.held := by
  unfold write
  dsimp only
  split_ifs <;> rfl

theorem write_now (st : Store ρ) (ls : List (List Char)) : (st.write ls).now = st.now := by
  unfold write
  dsimp only
  split_ifs <;> rfl

theorem fileHeld_write {st : Store ρ} (whole : Whole st.text) (plain : ∀ l ∈ ls, l ≠ [] ∧ '\n' ∉ l)
    (within : heldLimits.Within HeldAt.group (ls.foldl nextHeld st.fileHeld)) :
    Whole (st.write ls).text ∧ ((st.write ls).fileHeld = ls.foldl nextHeld st.fileHeld ∨
      (st.write ls).fileHeld = pruneHeld st.now (ls.foldl nextHeld st.fileHeld)) := by
  unfold write
  by_cases none : ls = []
  · subst none
    exact ⟨whole, .inl rfl⟩
  have said : ls.foldl nextHeld st.fileHeld = heldAfter (lines (st.text ++ unlines ls)) := by
    rw [lines_append_unlines whole plain, heldAfter_append, fileHeld]
  rw [said] at within ⊢
  dsimp only
  split_ifs with long
  · refine ⟨whole_compact _ _, .inr ?_⟩
    change heldAfter (lines (compact _ st.now)) = _
    rw [lines_compact .ascending]
    exact heldAfter_compactLines (fun l member => plain_of_mem_lines member) st.now
      (within.sub (Table.sub_keep _ _))
  · exact ⟨whole_append_unlines _ _, .inl rfl⟩

def unsetAll (ids : List ID) (held : Held) : Held := ids.foldl (fun held id => held.unset id) held

theorem foldl_nextHeld_hex (ids : List ID) (held : Held) :
    (ids.map hex).foldl nextHeld held = unsetAll ids held := by
  induction ids generalizing held with
  | nil => rfl
  | cons id ids ih => rw [map_cons, foldl_cons, nextHeld_hex, ih]; rfl

theorem handedOver_held (s : SeenIDs) (ids : List ID) :
    (s.handedOver ids).held = Store.unsetAll ids s.held := by
  induction ids generalizing s with
  | nil => rfl
  | cons id ids ih => exact ih (s.handOver id)

theorem dropMissing_spec (s : SeenIDs) (gone : List ID) :
    ∃ ids, (s.dropMissing gone).2 = ids.map hex ∧
      (s.dropMissing gone).1.held = Store.unsetAll ids s.held := by
  induction gone generalizing s with
  | nil => exact ⟨[], rfl, rfl⟩
  | cons id gone ih =>
    unfold SeenIDs.dropMissing
    split_ifs
    · obtain ⟨ids, lines, held⟩ :=
        ih { s with held := s.held.unset id, opened := s.opened.add id }
      exact ⟨id :: ids, congrArg (hex id :: ·) lines, held⟩
    · exact ih s

theorem claim_held (s : SeenIDs) (id : ID) : (s.claim id).2.held = s.held := by
  unfold SeenIDs.claim
  split_ifs <;> rfl

theorem fileHeld_mark {st : Store ρ} (whole : Whole st.text) (visit : Visit) (c : Char) (gen : Nat)
    (plain : [c] ≠ [] ∧ '\n' ∉ [c]) (empty : nextHeld ∅ [c] = ∅) :
    Whole (text { st.mark visit c with gen := gen }) ∧
      fileHeld { st.mark visit c with gen := gen } = nextHeld st.fileHeld [c] := by
  cases file : st.file with
  | none =>
    have before : st.text = [] := by rw [text, file]; rfl
    have after : text { st.mark visit c with gen := gen } = [] := by
      change (st.file.map _).getD [] = []
      rw [file]
      rfl
    rw [fileHeld, fileHeld, after, before]
    exact ⟨.inl rfl, empty.symm⟩
  | some t =>
    have before : st.text = t := by rw [text, file]; rfl
    have after : text { st.mark visit c with gen := gen } = t ++ unlines [[c]] := by
      change (st.file.map _).getD [] = _
      rw [file]
      rfl
    have whole : Whole t := before ▸ whole
    refine ⟨after ▸ whole_append_unlines t _, ?_⟩
    rw [fileHeld, fileHeld, after, before, lines_append_unlines whole (by simpa using plain),
      heldAfter_append]
    rfl

theorem pruneHeld_empty (now : Int) : pruneHeld now ∅ = ∅ :=
  Table.eq_empty fun _ member => Finmap.notMem_empty (mem_of_mem_pruneHeld member)

theorem start_set_held (visit : Visit) (file : Option (List Char)) (now : Int) :
    (start visit file now : Store ρ).set.held =
      pruneHeld now (heldAfter (lines (file.getD []))) := by
  rw [← replay_held visit, ← SeenIDs.load_held]
  unfold start
  dsimp only
  split_ifs <;> rfl

theorem fileHeld_start (visit : Visit) {file : Option (List Char)} (whole : Whole (file.getD []))
    (within : heldLimits.Within HeldAt.group (heldAfter (lines (file.getD [])))) (now : Int) :
    Whole (start visit file now : Store ρ).text ∧
      ((start visit file now : Store ρ).fileHeld = heldAfter (lines (file.getD [])) ∨
        (start visit file now : Store ρ).fileHeld =
          pruneHeld now (heldAfter (lines (file.getD [])))) := by
  unfold start
  dsimp only
  split_ifs with long
  · refine ⟨whole_compact _ _, .inr ?_⟩
    change heldAfter (lines (compact _ now)) = _
    rw [lines_compact visit]
    exact heldAfter_compactLines (fun l member => plain_of_mem_lines member) now
      (within.sub (Table.sub_keep _ _))
  · exact ⟨whole, .inl rfl⟩

theorem start_now (visit : Visit) (file : Option (List Char)) (now : Int) :
    (start visit file now : Store ρ).now = now := by
  unfold start
  dsimp only
  split_ifs <;> rfl

variable (digest : List Char → BitVec 64)

/-- The set takes a hold: the address was not let go of since, the relays still keep the event, and
it is held already or there is room for it. -/
def Takes (st : Store ρ) (id : ID) (stamp : Int64) (name : List Char) (freed : Option Nat) : Prop :=
  ¬(freed.any fun gen => gen ≠ st.gen) ∧ ¬heldGone stamp st.now ∧
    (id ∈ pruneHeld st.now st.set.held ∨
      heldRoom (pruneHeld st.now st.set.held) (heldGroup digest id name) = true)

theorem takes_of_not {st : Store ρ} {id : ID} {stamp : Int64} {name : List Char}
    {freed : Option Nat} (current : ¬(freed.any fun gen => gen ≠ st.gen))
    (taken : ¬(heldGone stamp st.now ∨ id ∉ pruneHeld st.now st.set.held ∧
      heldRoom (pruneHeld st.now st.set.held) (heldGroup digest id name) = false)) :
    st.Takes digest id stamp name freed := by
  obtain ⟨notGone, roomHere⟩ := not_or.mp taken
  refine ⟨current, notGone, by_contra fun neither => ?_⟩
  obtain ⟨notHad, full⟩ := not_or.mp neither
  exact roomHere ⟨notHad, eq_false_of_ne_true full⟩

/-! ## What lasts -/

/-- Said of what the file and memory hold at a time, and kept by everything but a hold. -/
structure Lasting (said : Int → Held → Held → Prop) : Prop where
  within {now file memory} : said now file memory → heldLimits.Within HeldAt.group file
  compacted {now file memory} : said now file memory → said now (pruneHeld now file) memory
  pruned {now file memory} : said now file memory → said now file (pruneHeld now memory)
  later {now file memory} (seconds : Nat) : said now file memory → said (now + seconds) file memory
  unset {now file memory} (id : ID) :
    said now file memory → said now (file.unset id) (memory.unset id)
  letGo {now file memory} :
    said now file memory → said now (file.change letGo) (memory.change letGo)
  empty (now : Int) : said now ∅ ∅

structure Meets (said : Int → Held → Held → Prop) (st : Store ρ) : Prop where
  whole : Whole st.text
  said : said st.now st.fileHeld st.set.held

/-- What a hold the set takes has to leave. -/
def Op.Leaves (said : Int → Held → Held → Prop) (st : Store ρ) : Op ρ → Prop
  | hold id stamp name reachFrom reachUntil freed => st.Takes digest id stamp name freed →
    ∀ h : HeldAt, h = ⟨stamp, false, heldGroup digest id name, reachFrom, reachUntil⟩ →
    said st.now (nextHeld st.fileHeld (heldLine id h)) ((pruneHeld st.now st.set.held).set id h)
  | _ => True

variable {digest} {said : Int → Held → Held → Prop}

theorem Lasting.unsetAll (lasting : Lasting said) {now : Int} {file memory : Held}
    (before : said now file memory) (ids : List ID) :
    said now (Store.unsetAll ids file) (Store.unsetAll ids memory) := by
  induction ids generalizing file memory with
  | nil => exact before
  | cons id ids ih => exact ih (lasting.unset id before)

namespace Meets

variable (lasting : Lasting said) {st : Store ρ}

include lasting in
theorem start (visit : Visit) {file : Option (List Char)} (whole : Whole (file.getD [])) {now : Int}
    (after : said now (heldAfter (lines (file.getD [])))
      (pruneHeld now (heldAfter (lines (file.getD []))))) :
    (start visit file now : Store ρ).Meets said := by
  obtain ⟨whole', file'⟩ := @fileHeld_start ρ visit file whole (lasting.within after) now
  refine ⟨whole', ?_⟩
  rw [start_now, start_set_held]
  obtain file' | file' := file' <;> rw [file']
  · exact after
  · exact lasting.compacted after

variable (meets : st.Meets said)
include lasting meets

theorem write {st' : Store ρ} (text : st'.text = st.text) (now : st'.now = st.now)
    (plain : ∀ l ∈ ls, l ≠ [] ∧ '\n' ∉ l)
    (after : said st.now (ls.foldl nextHeld st.fileHeld) st'.set.held) :
    (st'.write ls).Meets said := by
  have file : st'.fileHeld = st.fileHeld := congrArg (fun t => heldAfter (lines t)) text
  rw [← now, ← file] at after
  obtain ⟨whole', file'⟩ := fileHeld_write (text ▸ meets.whole) plain (lasting.within after)
  refine ⟨whole', ?_⟩
  rw [write_now, write_set_held]
  obtain file' | file' := file' <;> rw [file']
  · exact after
  · exact lasting.compacted after

theorem unsetAll {st' : Store ρ} (text : st'.text = st.text) (now : st'.now = st.now)
    {ids : List ID} (held : st'.set.held = Store.unsetAll ids st.set.held) :
    (st'.write (ids.map hex)).Meets said := by
  refine write lasting meets text now (fun l member => ?_) ?_
  · obtain ⟨id, -, rfl⟩ := mem_map.mp member
    exact plain_hex id
  · rw [foldl_nextHeld_hex, held]
    exact lasting.unsetAll meets.said ids

theorem notOpened (id : ID) :
    ({ st with set := st.set.notOpened id }.write ['-' :: hex id]).Meets said := by
  refine write lasting meets rfl rfl (fun l member => ?_) ?_
  · obtain rfl := mem_singleton.mp member
    exact ⟨cons_ne_nil _ _, by simpa using (plain_hex id).2⟩
  · rw [foldl_cons, nextHeld_unopened]
    exact lasting.unset id meets.said

omit lasting in
theorem mark (visit : Visit) (c : Char) (gen : Nat) (plain : [c] ≠ [] ∧ '\n' ∉ [c])
    (empty : nextHeld ∅ [c] = ∅)
    (next : said st.now (nextHeld st.fileHeld [c]) (nextHeld st.set.held [c])) :
    Meets said { st.mark visit c with gen := gen } := by
  obtain ⟨whole, file⟩ := fileHeld_mark meets.whole visit c gen plain empty
  refine ⟨whole, ?_⟩
  rw [file]
  change said st.now _ (st.set.readLine visit [c]).held
  rw [readLine_held]
  exact next

theorem holdIf {id : ID} {stamp : Int64} {name : List Char} {reachFrom reachUntil : Int64}
    {freed : Option Nat}
    (leaves : (Op.hold id stamp name reachFrom reachUntil freed).Leaves digest said st) :
    (st.holdIf digest id stamp name reachFrom reachUntil freed).Meets said := by
  unfold Store.holdIf SeenIDs.hold
  dsimp only
  split_ifs with stale refused
  · exact meets
  · exact ⟨meets.whole, lasting.pruned meets.said⟩
  · refine write lasting meets ?_ ?_ (fun l member => ?_) ?_
    · rfl
    · rfl
    · obtain rfl := mem_singleton.mp member
      exact plain_heldLine ..
    · rw [foldl_cons, foldl_nil]
      exact leaves (takes_of_not digest stale refused) _ rfl

theorem apply [DecidableEq ρ] (visit : Visit) {op : Op ρ} (leaves : op.Leaves digest said st) :
    (st.apply digest visit op).Meets said := by
  cases op with
  | tick seconds => exact ⟨meets.whole, lasting.later seconds meets.said⟩
  | claim id => exact ⟨meets.whole, (claim_held st.set id).symm ▸ meets.said⟩
  | hold id stamp name reachFrom reachUntil freed => exact holdIf lasting meets leaves
  | notOpened id => exact notOpened lasting meets id
  | release id => exact ⟨meets.whole, meets.said⟩
  | handedOver ids => refine unsetAll lasting meets ?_ ?_ (handedOver_held ..) <;> rfl
  | notOnRelay relay relays ids =>
    obtain ⟨kept, lines, held⟩ :=
      dropMissing_spec st.set (missAll relay relays ids st.missed).1
    unfold Store.apply
    dsimp only
    rw [lines]
    refine unsetAll lasting meets ?_ ?_ held <;> rfl
  | wanted => exact ⟨meets.whole, lasting.pruned meets.said⟩
  | free =>
    refine mark meets visit '!' _ (by decide) (Table.eq_empty fun _ member => ?_)
      (lasting.letGo meets.said)
    exact Finmap.notMem_empty ((mem_change_letGo ..).mp member)
  | drop => exact mark meets visit '~' st.gen (by decide) rfl (lasting.empty st.now)

end Meets

/-! ## What a start finds -/

/-- The file holds no more than the limits and, but for what has expired, what memory holds. -/
def Sound (now : Int) (file memory : Held) : Prop :=
  heldLimits.Within HeldAt.group file ∧ pruneHeld now file = pruneHeld now memory

theorem lasting_sound : Lasting Sound where
  within sound := sound.1
  compacted sound :=
    ⟨sound.1.sub (Table.sub_keep _ _), (pruneHeld_pruneHeld ..).trans sound.2⟩
  pruned sound := ⟨sound.1, sound.2.trans (pruneHeld_pruneHeld ..).symm⟩
  later {now _ _} seconds sound := by
    have later : now ≤ now + seconds := by omega
    exact ⟨sound.1, by rw [← pruneHeld_later later, sound.2, pruneHeld_later later]⟩
  unset id sound :=
    ⟨sound.1.sub (Table.sub_unset id _), by rw [pruneHeld_unset, pruneHeld_unset, sound.2]⟩
  letGo sound := ⟨sound.1.change fun _ => rfl,
    by rw [pruneHeld_change_letGo, pruneHeld_change_letGo, sound.2]⟩
  empty _ := ⟨Table.Limits.within_empty, rfl⟩

variable (digest)

/-- A hold the set takes has room beside what the file holds, and its reach times make sense. -/
def Fits (st : Store ρ) (id : ID) (stamp : Int64) (name : List Char) (reachFrom reachUntil : Int64)
    (freed : Option Nat) : Prop :=
  st.Takes digest id stamp name freed →
    heldRoom (st.fileHeld.unset id) (heldGroup digest id name) = true ∧
      0 ≤ reachFrom ∧ reachFrom ≤ reachUntil

def Op.Fits (st : Store ρ) : Op ρ → Prop
  | hold id stamp name reachFrom reachUntil freed =>
    st.Fits digest id stamp name reachFrom reachUntil freed
  | _ => True

variable {held : Held}

theorem enter_of_room (within : heldLimits.Within HeldAt.group held) {id : ID}
    (room : heldRoom (held.unset id) h.group = true) :
    heldLimits.enter HeldAt.group held id h = held.set id h ∧
      heldLimits.Within HeldAt.group (held.set id h) := by
  have same : (held.unset id).set id h = held.set id h := by
    refine Finmap.ext_lookup fun id' => ?_
    rw [Table.lookup_set, Table.lookup_set, Table.lookup_unset]
    split_ifs <;> rfl
  constructor
  · refine if_pos ?_
    by_cases had : id ∈ held
    · exact .inl had
    · have apart : held.unset id = held := by
        refine Table.eq_of_sub (Table.sub_unset id held) fun id' member => ?_
        exact (Table.mem_unset ..).mpr ⟨fun equal => had (equal ▸ member), member⟩
      rw [apart] at room
      exact .inr room
  · rw [← same]
    exact (within.sub (Table.sub_unset id held)).set (by decide) room

theorem leaves_of_fits {st : Store ρ} (sound : Sound st.now st.fileHeld st.set.held) {op : Op ρ}
    (fits : op.Fits digest st) : op.Leaves digest Sound st := by
  cases op with
  | hold id stamp name reachFrom reachUntil freed =>
    intro takes h isH
    obtain ⟨room, reached⟩ : heldRoom (st.fileHeld.unset id) h.group = true ∧ h.Reached :=
      isH ▸ fits takes
    have kept : heldGone h.stamp st.now = false := by simpa [isH] using takes.2.1
    obtain ⟨entered, within⟩ := enter_of_room sound.1 room
    rw [nextHeld_heldLine _ id reached (by rw [isH]), entered]
    exact ⟨within, by rw [pruneHeld_set _ _ kept, pruneHeld_set _ _ kept, pruneHeld_pruneHeld,
      sound.2]⟩
  | _ => trivial

variable [DecidableEq ρ] (visit : Visit)

def Step (st : Store ρ) (op : Op ρ) (st' : Store ρ) : Prop := st' = st.apply digest visit op

/-- Whenever a run whose holds all fit is cut off, a start finds exactly what the
running set holds and has not expired. -/
theorem load_held_of_run (file : Option (List Char)) (whole : Whole (file.getD []))
    (within : heldLimits.Within HeldAt.group (heldAfter (lines (file.getD [])))) {now : Int}
    {st : Store ρ}
    (run : Run (Step digest visit) (fun st op => op.Fits digest st) (start visit file now) st)
    (visit' : Visit) :
    (SeenIDs.load visit' st.text st.now).held = pruneHeld st.now st.set.held := by
  have meets : st.Meets Sound := by
    refine run.invariant (Meets Sound) ?_ fun before fits step => ?_
    · exact .start lasting_sound visit whole ⟨within, (pruneHeld_pruneHeld ..).symm⟩
    · exact step ▸ before.apply lasting_sound visit (leaves_of_fits digest before.said fits)
  rw [SeenIDs.load_held, replay_held]
  exact meets.said.2

section Runs

/-- A text held on an address that has no file yet. -/
def firstHold : Op Unit := .hold 0 2000000 [] 0 0 none

theorem fits_firstHold :
    firstHold.Fits (fun _ => 0) (start .ascending none 2000000 : Store Unit) := by
  intro _
  decide

theorem load_held_of_run_firstHold :
    (SeenIDs.load .ascending
        ((start .ascending none 2000000 : Store Unit).apply (fun _ => 0) .ascending firstHold).text
        2000000).held =
      pruneHeld 2000000
        ((start .ascending none 2000000 : Store Unit).apply (fun _ => 0) .ascending
          firstHold).set.held :=
  load_held_of_run (fun _ => 0) .ascending none (.inl rfl) Table.Limits.within_empty
    (.snoc .refl rfl fits_firstHold) .ascending

/-- The `i`-th of a row of texts, each in a group of its own. -/
def textID (i : Nat) : ID := BitVec.ofNat 256 (i * 16 ^ 48)

def textIDs : Nat → List ID
  | 0 => []
  | n + 1 => textID n :: textIDs n

theorem apart_textIDs {n : Nat} (small : n ≤ 16 ^ 16) : ((textIDs n).map shortHex).Nodup := by
  have digits {i : Nat} (small : i < 16 ^ 16) : (shortHex (textID i)).val = hexOf 16 i := by
    have number : (textID i).toNat = i * 16 ^ 48 := by
      rw [textID, BitVec.toNat_ofNat, Nat.mod_eq_of_lt]
      calc i * 16 ^ 48 < 16 ^ 16 * 16 ^ 48 := Nat.mul_lt_mul_of_pos_right small (by positivity)
        _ = 2 ^ 256 := by norm_num
    rw [val_shortHex, number, Nat.mul_div_cancel _ (by positivity)]
  have inside {n : Nat} {id : ID} (member : id ∈ textIDs n) : ∃ i < n, textID i = id := by
    induction n with
    | zero => cases member
    | succ n ih =>
      obtain rfl | earlier := mem_cons.mp member
      · exact ⟨n, by omega, rfl⟩
      · exact (ih earlier).imp fun i => .imp_left (by omega)
  induction n with
  | zero => exact nodup_nil
  | succ n ih =>
    refine nodup_cons.mpr ⟨fun member => ?_, ih (by omega)⟩
    obtain ⟨id, earlier, same⟩ := mem_map.mp member
    obtain ⟨i, less, rfl⟩ := inside earlier
    have equal := congrArg Subtype.val same
    rw [digits (by omega), digits (by omega)] at equal
    have := hexOf_inj (by omega) (by omega) equal
    omega

/-- A text stamped at 0. -/
def textAt (id : ID) : HeldAt := ⟨0, false, shortHex id, 0, 0⟩

def texts (ids : List ID) : Held := ids.foldr (fun id held => held.set id (textAt id)) ∅

section Texts

variable {id : ID} {ids : List ID}

theorem lookup_texts : (texts ids).lookup id = some h ↔ id ∈ ids ∧ textAt id = h := by
  induction ids with
  | nil => simp [texts]
  | cons id' ids ih =>
    rw [texts, foldr_cons, Table.lookup_set]
    split_ifs with same
    · simp [same]
    · exact ih.trans (by simp [same])

theorem mem_texts : id ∈ texts ids ↔ id ∈ ids := by
  simp [Table.mem_iff, lookup_texts]

theorem card_keys_texts : (texts ids).keys.card ≤ ids.length := by
  have keys : (texts ids).keys = ids.toFinset := by
    ext
    rw [Finmap.mem_keys, mem_texts, mem_toFinset]
  exact keys ▸ toFinset_card_le ids

theorem card_tags_texts (apart : (ids.map shortHex).Nodup) :
    ((texts ids).tags HeldAt.group).card = ids.length := by
  have tags : (texts ids).tags HeldAt.group = (ids.map shortHex).toFinset := by
    ext g
    simp [Table.mem_tags, lookup_texts, textAt]
  rw [tags, toFinset_card_of_nodup apart, length_map]

theorem within_texts (apart : (ids.map shortHex).Nodup) (few : ids.length ≤ 200) :
    heldLimits.Within HeldAt.group (texts ids) where
  keys_le := (card_keys_texts.trans few).trans (by decide)
  members_le g := ((Finset.card_le_card (Finset.filter_subset _ _)).trans
    (card_keys_texts.trans few)).trans (by decide)
  tags_le := (card_tags_texts apart).trans_le few

theorem room_texts (apart : ((id :: ids).map shortHex).Nodup) (few : ids.length ≤ 200) :
    heldRoom (texts ids) (shortHex id) = decide (ids.length < 200) := by
  obtain ⟨other, apart⟩ := nodup_cons.mp apart
  have members : (texts ids).members HeldAt.group (shortHex id) = ∅ := by
    refine Finset.eq_empty_of_forall_notMem fun id' member => other ?_
    obtain ⟨h, found, same⟩ := Table.mem_members.mp member
    obtain ⟨inside, rfl⟩ := lookup_texts.mp found
    exact mem_map.mpr ⟨id', inside, same⟩
  have most : ¬ heldLimits.most ≤ (texts ids).keys.card :=
    not_le.mpr ((card_keys_texts.trans few).trans_lt (by decide))
  rw [heldRoom, Table.Limits.room, if_neg most, members, if_neg (by simp), card_tags_texts apart]
  rfl

theorem prune_texts (ids : List ID) : pruneHeld 0 (texts ids) = texts ids := by
  induction ids with
  | nil => exact pruneHeld_empty 0
  | cons id ids ih =>
    have kept : heldGone (textAt id).stamp 0 = false := (by decide : heldGone 0 0 = false)
    rw [texts, foldr_cons, pruneHeld_set _ _ kept]
    exact congrArg _ ih

theorem gone_texts {now : Int} (gone : heldGone 0 now = true) (ids : List ID) :
    pruneHeld now (texts ids) = ∅ := by
  refine Table.eq_empty fun id member => ?_
  obtain ⟨h, found⟩ := Table.mem_iff.mp member
  rw [lookup_pruneHeld, Option.filter_eq_some_iff, lookup_texts] at found
  obtain ⟨⟨-, rfl⟩, kept⟩ := found
  simp [textAt, gone] at kept

end Texts

theorem apply_hold {st : Store Unit} {id : ID} {stamp : Int64} {name : List Char}
    (takes : st.Takes digest id stamp name none) {h : HeldAt}
    (isH : h = ⟨stamp, false, heldGroup digest id name, 0, 0⟩) :
    let st' := st.apply digest .ascending (.hold id stamp name 0 0 none)
    st'.now = st.now ∧ st'.set.held = (pruneHeld st.now st.set.held).set id h ∧
      ∀ file, heldLimits.enter HeldAt.group st.fileHeld id h = file → Whole st.text →
        heldLimits.Within HeldAt.group file →
        Whole st'.text ∧ (st'.fileHeld = file ∨ st'.fileHeld = pruneHeld st.now file) := by
  obtain ⟨-, notGone, room⟩ := takes
  have taken : ¬(heldGone stamp st.now ∨ id ∉ pruneHeld st.now st.set.held ∧
      heldRoom (pruneHeld st.now st.set.held) (heldGroup digest id name) = false) := by
    rintro (gone | ⟨notHad, full⟩)
    · exact notGone gone
    · exact room.elim notHad fun room => absurd (room.symm.trans full) (by decide)
  obtain ⟨before, eq, text, now, held⟩ : ∃ before : Store Unit,
      st.apply digest .ascending (.hold id stamp name 0 0 none) = before.write [heldLine id h] ∧
      before.text = st.text ∧ before.now = st.now ∧
      before.set.held = (pruneHeld st.now st.set.held).set id h := by
    refine ⟨{ st with set := { st.set with
      queued := st.set.queued.erase id
      held := (pruneHeld st.now st.set.held).set id h } }, ?_, rfl, rfl, rfl⟩
    simp only [apply, holdIf, SeenIDs.hold]
    rw [if_neg taken, isH]
    rfl
  have reached : h.Reached := isH ▸ ⟨Int64.le_refl _, Int64.le_refl _⟩
  have line : [heldLine id h].foldl nextHeld before.fileHeld =
      heldLimits.enter HeldAt.group st.fileHeld id h := by
    rw [foldl_cons, foldl_nil, nextHeld_heldLine _ _ reached (by rw [isH]), fileHeld, text]
    rfl
  dsimp only
  rw [eq, write_now, write_set_held, now, held]
  refine ⟨rfl, rfl, ?_⟩
  rintro file rfl whole within
  rw [← line, ← now]
  exact fileHeld_write (text ▸ whole) (by simpa using plain_heldLine id h) (line ▸ within)

/-- An address that has held texts, one after another. -/
def full : List ID → Store Unit
  | [] => start .ascending none 0
  | id :: ids => (full ids).apply digest .ascending (.hold id 0 [] 0 0 none)

theorem held_full {ids : List ID} (apart : (ids.map shortHex).Nodup) (few : ids.length ≤ 200) :
    Whole (full digest ids).text ∧ (full digest ids).now = 0 ∧
      (full digest ids).set.held = texts ids ∧ (full digest ids).fileHeld = texts ids := by
  induction ids with
  | nil => exact ⟨.inl rfl, rfl, rfl, rfl⟩
  | cons id ids ih =>
    rw [length_cons] at few
    obtain ⟨whole, now, memory, file⟩ := ih (nodup_cons.mp apart).2 (by omega)
    have room : heldRoom (texts ids) (shortHex id) = true :=
      (room_texts apart (by omega)).trans (decide_eq_true (by omega))
    have takes : (full digest ids).Takes digest id 0 [] none :=
      ⟨by simp, by rw [now]; decide, .inr (by rw [now, memory, prune_texts]; exact room)⟩
    obtain ⟨now', held, file'⟩ := apply_hold digest takes (h := textAt id) rfl
    obtain ⟨whole', file'⟩ := file' (texts (id :: ids))
      (by rw [file]; exact if_pos (.inr room)) whole (within_texts apart few)
    rw [now, prune_texts, or_self] at file'
    rw [now, memory, prune_texts] at held
    exact ⟨whole', now'.trans now, held, file'⟩

/-- When they have expired, memory has room for one more; the replay of the file has none. -/
theorem load_oneMore {id : ID} {ids : List ID} (apart : ((id :: ids).map shortHex).Nodup)
    (count : ids.length = 200) {st : Store Unit} (gone : heldGone 0 st.now = true)
    (isH : h = { textAt id with stamp := h.stamp }) (kept : heldGone h.stamp st.now = false)
    (whole : Whole st.text)
    (memory : st.set.held = texts ids) (file : st.fileHeld = texts ids) :
    let st' := st.apply (fun _ => 0) .ascending (.hold id h.stamp [] 0 0 none)
    (SeenIDs.load .ascending st'.text st'.now).held = ∅ ∧ id ∈ pruneHeld st'.now st'.set.held := by
  obtain ⟨other, apart'⟩ := nodup_cons.mp apart
  have takes : st.Takes (fun _ => 0) id h.stamp [] none := by
    refine ⟨by simp, by simp [kept], .inr ?_⟩
    rw [memory, gone_texts gone]
    rfl
  obtain ⟨now, held, file'⟩ := apply_hold (fun _ => 0) takes isH
  have noRoom : heldLimits.enter HeldAt.group st.fileHeld id h = texts ids := by
    rw [file, isH]
    refine if_neg (not_or.mpr ⟨fun had => ?_, fun room => ?_⟩)
    · exact other (mem_map_of_mem (mem_texts.mp had))
    · have := (room_texts apart count.le).symm.trans room
      simp [count] at this
  obtain ⟨-, file'⟩ := file' _ noRoom whole (within_texts apart' count.le)
  rw [gone_texts gone] at file'
  dsimp only
  rw [SeenIDs.load_held, replay_held, now, held, pruneHeld_set _ _ kept]
  refine ⟨?_, (Table.mem_set ..).mpr (.inl rfl)⟩
  change pruneHeld st.now (Store.fileHeld _) = ∅
  obtain file' | file' := file' <;> rw [file']
  · exact gone_texts gone _
  · exact pruneHeld_empty _

theorem ticks (st : Store Unit) (seconds : Nat) :
    ∃ late : Store Unit, late = st.apply (fun _ => 0) .ascending (.tick seconds) ∧
      late.text = st.text ∧ late.set = st.set ∧ late.now = st.now + seconds :=
  ⟨_, rfl, rfl, rfl, rfl⟩

theorem not_load_held :
    ¬ ∀ (file : Option (List Char)) (now : Int) (st : Store Unit), Whole (file.getD []) →
      heldLimits.Within HeldAt.group (heldAfter (lines (file.getD []))) →
      Run (Step (fun _ => 0) .ascending) (fun _ _ => True) (start .ascending file now) st →
      (SeenIDs.load .ascending st.text st.now).held = pruneHeld st.now st.set.held := by
  intro all
  have run (ids : List ID) : Run (Step (fun _ => 0) .ascending) (fun _ _ => True)
      (start .ascending none 0) (full (fun _ => 0) ids) := by
    induction ids with
    | nil => exact .refl
    | cons id ids ih => exact .snoc ih rfl trivial
  have reached := run (textIDs 200)
  obtain ⟨whole, now, memory, file⟩ := held_full (fun _ => 0)
    (apart_textIDs (n := 200) (by norm_num)) (by decide +kernel)
  generalize full (fun _ => 0) (textIDs 200) = st at reached whole now memory file
  obtain ⟨late, ticked, text, set, lateNow⟩ := ticks st 2000000
  rw [fileHeld, ← text] at file
  rw [← text] at whole
  rw [← set] at memory
  rw [now, zero_add, Int.cast_ofNat_Int] at lateNow
  obtain ⟨nothing, one⟩ := load_oneMore (apart_textIDs (n := 200 + 1) (by norm_num))
    (by decide +kernel) (by rw [lateNow]; decide) (h := { textAt _ with stamp := 2000000 }) rfl
    (by rw [lateNow]; decide) whole memory file
  rw [← all none 0 _ (.inl rfl) Table.Limits.within_empty
    (.snoc (.snoc reached ticked trivial) rfl trivial), nothing] at one
  exact Finmap.notMem_empty one

end Runs

end Store

end Kryfo.Seen
