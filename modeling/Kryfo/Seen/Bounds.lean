import Kryfo.Seen.Restart

/-!
# How much an address holds

Room is asked for when an id is new to what is held.  One that is held already takes what is said
of it now, so the limits are kept as long as it stays in its group or goes where there is room.
-/

namespace Kryfo.Seen

open Library List

variable {held : Held} {id : ID} {h : HeldAt}

/-- What is read back of a held line is in the group it was held in. -/
theorem parseLine_heldLine_group (id : ID) (h : HeldAt) :
    ∃ h', parseLine (heldLine id h) = .held (some (id, h')) ∧ h'.group = h.group := by
  have kept (rest : List Word) (h : HeldAt) : (readReach rest h).group = h.group := by
    unfold readReach
    split
    · split
      · split_ifs <;> rfl
      · rfl
    · rfl
  have shape : parseLine (heldLine id h) = .held (parseHeldLine (heldLine id h).tail) := rfl
  rw [shape, parseHeldLine, fields_heldLine]
  simp only [hexWord, intWord, parseSeenID_hex, parseInt64_formatInt]
  exact ⟨_, rfl, kept _ _⟩

/-- An id that is held stays in its group, or there is room for it in another. -/
def InGroup (held : Held) (id : ID) (group : Word) : Prop :=
  ∀ h, held.lookup id = some h → h.group = group ∨ heldRoom (held.unset id) group = true

theorem within_enter (within : heldLimits.Within HeldAt.group held)
    (inGroup : InGroup held id h.group) :
    heldLimits.Within HeldAt.group (heldLimits.enter HeldAt.group held id h) := by
  by_cases had : id ∈ held
  · obtain ⟨h', found⟩ := Table.mem_iff.mp had
    rw [Table.Limits.enter, if_pos (.inl had)]
    obtain same | room := inGroup h' found
    · exact within.set_of_tag found same
    · exact (Store.enter_of_room within room).2
  · exact within.enter (by decide) had h

namespace Store

variable {ρ : Type*} {st : Store ρ}

/-- Neither the file nor memory holds more than the limits. -/
def Bounded (_ : Int) (file memory : Held) : Prop :=
  heldLimits.Within HeldAt.group file ∧ heldLimits.Within HeldAt.group memory

theorem lasting_bounded : Lasting Bounded where
  within bounded := bounded.1
  compacted bounded := ⟨bounded.1.sub (Table.sub_keep _ _), bounded.2⟩
  pruned bounded := ⟨bounded.1, bounded.2.sub (Table.sub_keep _ _)⟩
  later _ bounded := bounded
  unset id bounded :=
    ⟨bounded.1.sub (Table.sub_unset id _), bounded.2.sub (Table.sub_unset id _)⟩
  letGo bounded := ⟨bounded.1.change fun _ => rfl, bounded.2.change fun _ => rfl⟩
  empty _ := ⟨Table.Limits.within_empty, Table.Limits.within_empty⟩

variable (digest : List Char → BitVec 64)

/-- An id held, or held by what is read back of the file, is held again in its group or where there
is room, if the set takes it. -/
def KeepsGroup (st : Store ρ) : Op ρ → Prop
  | .hold id stamp name _ _ freed => st.Takes digest id stamp name freed →
    InGroup (pruneHeld st.now st.set.held) id (heldGroup digest id name) ∧
      InGroup st.fileHeld id (heldGroup digest id name)
  | _ => True

theorem leaves_of_keepsGroup (bounded : Bounded st.now st.fileHeld st.set.held) {op : Op ρ}
    (keeps : st.KeepsGroup digest op) : op.Leaves digest Bounded st := by
  cases op with
  | hold id stamp name reachFrom reachUntil freed =>
    intro takes h isH
    obtain ⟨inMemory, inFile⟩ :
        InGroup (pruneHeld st.now st.set.held) id h.group ∧ InGroup st.fileHeld id h.group :=
      isH ▸ keeps takes
    obtain ⟨h', parsed, group⟩ := parseLine_heldLine_group id h
    have entered : heldLimits.enter HeldAt.group (pruneHeld st.now st.set.held) id h =
        (pruneHeld st.now st.set.held).set id h := if_pos (isH ▸ takes.2.2)
    constructor
    · rw [nextHeld, parsed]
      exact within_enter bounded.1 (group ▸ inFile)
    · rw [← entered]
      exact within_enter (bounded.2.sub (Table.sub_keep _ _)) inMemory
  | _ => trivial

variable [DecidableEq ρ] (visit : Visit)

inductive Act (ρ : Type*) where
  | does (op : Op ρ)
  | load (visit : Visit)

def act (st : Store ρ) : Act ρ → Store ρ
  | .does op => st.apply digest visit op
  | .load visit => start visit st.file st.now

def Act.KeepsGroup (st : Store ρ) : Act ρ → Prop
  | .does op => st.KeepsGroup digest op
  | .load _ => True

/-- In a run whose holds keep each id that is held in its group, an address never holds more
than the limits. -/
theorem held_bounded {now : Int}
    (run : Run (fun st a st' => st' = st.act digest visit a) (fun st a => a.KeepsGroup digest st)
      (start visit none now) st) :
    st.set.held.keys.card ≤ seenHeldMost ∧ (st.set.held.tags HeldAt.group).card ≤ seenHeldKeep ∧
      ∀ group, (st.set.held.members HeldAt.group group).card ≤ seenHeldPerGroup := by
  have pruned {now : Int} {held : Held} (within : heldLimits.Within HeldAt.group held) :
      Bounded now held (pruneHeld now held) := ⟨within, within.sub (Table.sub_keep _ _)⟩
  have meets : st.Meets Bounded := by
    refine run.invariant (Meets Bounded) ?_ fun {st st' a} before keeps step => ?_
    · exact .start lasting_bounded visit (.inl rfl) (pruned Table.Limits.within_empty)
    subst step
    cases a with
    | does op =>
      exact before.apply lasting_bounded visit (leaves_of_keepsGroup digest before.said keeps)
    | load visit' => exact .start lasting_bounded visit' before.whole (pruned before.said.1)
  obtain ⟨keys, members, tags⟩ := meets.said.2
  exact ⟨keys, tags, members⟩

theorem inGroup_of_all {group : Word} (all : (held.lookup id).all (·.group = group) = true) :
    InGroup held id group := fun h found => .inl (by simpa [found] using all)

/-- A text is held, its address loaded again, and the text held once more beside another. -/
def heldTwice : List (Act Unit) :=
  [.does firstHold, .load .ascending, .does firstHold, .does (.hold 1 2000000 ['x'] 0 0 none)]

theorem held_bounded_heldTwice :
    ((heldTwice.foldl (act (fun _ => 7) .ascending) (start .ascending none 2000000)).set.held.tags
      HeldAt.group).card ≤ seenHeldKeep := by
  have keeps : Allowed (act (fun _ => 7) .ascending) (fun st a => a.KeepsGroup (fun _ => 7) st)
      (start .ascending none 2000000) heldTwice :=
    ⟨fun _ => ⟨inGroup_of_all (by decide), inGroup_of_all (by decide)⟩, trivial,
      fun _ => ⟨inGroup_of_all (by decide), inGroup_of_all (by decide)⟩,
      fun _ => ⟨inGroup_of_all (by decide), inGroup_of_all (by decide)⟩, trivial⟩
  exact (held_bounded (fun _ => 7) .ascending (.of_allowed _ _ keeps)).2.1

/-! ## An id held again under another name -/

section Again

variable {ids : List ID}

theorem room_group (inside : id ∈ ids) (few : ids.length ≤ 200) :
    heldRoom (texts ids) (shortHex id) = true := by
  have keys := card_keys_texts.trans few
  have some_ : 0 < ((texts ids).members HeldAt.group (shortHex id)).card := Finset.card_pos.mpr
    ⟨id, Table.mem_members.mpr ⟨textAt id, lookup_texts.mpr ⟨inside, rfl⟩, rfl⟩⟩
  have most : ¬heldLimits.most ≤ (texts ids).keys.card := not_le.mpr (keys.trans_lt (by decide))
  rw [heldRoom, Table.Limits.room, if_neg most, if_pos some_, decide_eq_true_iff]
  exact ((Finset.card_le_card (Finset.filter_subset _ _)).trans keys).trans_lt (by decide)

theorem tags_lt {group : Word} (apart : (group :: ids.map shortHex).Nodup) (new : id ∉ ids)
    (h' : HeldAt) (own : h.group = group) :
    ids.length < ((((texts ids).set id h').set id h).tags HeldAt.group).card := by
  have groups : (group :: ids.map shortHex).toFinset ⊆
      (((texts ids).set id h').set id h).tags HeldAt.group := by
    intro g member
    rw [Table.mem_tags]
    rcases mem_cons.mp (mem_toFinset.mp member) with rfl | isText
    · exact ⟨id, h, by rw [Table.lookup_set, if_pos rfl], own⟩
    · obtain ⟨text, inside, rfl⟩ := mem_map.mp isText
      have other : text ≠ id := fun same => new (same ▸ inside)
      refine ⟨text, textAt text, ?_, rfl⟩
      rw [Table.lookup_set, if_neg other, Table.lookup_set, if_neg other]
      exact lookup_texts.mpr ⟨inside, rfl⟩
  have count := Finset.card_le_card groups
  rwa [toFinset_card_of_nodup apart, length_cons, length_map] at count

/-- Two hundred texts are held and the second id with the first of them. Held once more, under
a name, it makes the two hundred and first group. -/
theorem heldAgain_not_bounded :
    ∃ st, Run (fun st a st' => st' = st.act (fun _ => 200) .ascending a) (fun _ _ => True)
      (start .ascending none 0 : Store Unit) st ∧
      seenHeldKeep < (st.set.held.tags HeldAt.group).card := by
  have run (ids : List ID) : Run (fun st a st' => st' = st.act (fun _ => 200) .ascending a)
      (fun _ _ => True) (start .ascending none 0 : Store Unit) (full (fun _ => 200) ids) := by
    induction ids with
    | nil => exact .refl
    | cons id ids ih =>
      have step : full (fun _ => 200) (id :: ids) = (full (fun _ => 200) ids).act (fun _ => 200)
        .ascending (.does (.hold id 0 [] 0 0 none)) := rfl
      exact .snoc ih step trivial
  have reached := run (textIDs 200)
  have apart : ((textID 200 :: textIDs 200).map shortHex).Nodup :=
    apart_textIDs (n := 200 + 1) (by norm_num)
  have count : (textIDs 200).length = 200 := by decide +kernel
  have inside : textID 0 ∈ textIDs 200 := by decide +kernel
  have new : (1 : ID) ∉ textIDs 200 := by decide +kernel
  obtain ⟨-, now, holds, -⟩ := held_full (fun _ => 200) (nodup_cons.mp apart).2 count.le
  generalize full (fun _ => 200) (textIDs 200) = st at reached now holds
  generalize textIDs 200 = ids at apart count inside new holds
  have first : st.Takes (fun _ => 200) 1 0 [] none := by
    refine ⟨by simp, by rw [now]; decide, .inr ?_⟩
    rw [now, holds, prune_texts, show heldGroup (fun _ => 200) 1 [] = shortHex (textID 0) by decide]
    exact room_group inside count.le
  obtain ⟨now₁, held₁, -⟩ := apply_hold (fun _ => 200) first (h := textAt 1) rfl
  obtain ⟨st₁, next⟩ : ∃ st₁,
    st₁ = st.act (fun _ => 200) .ascending (.does (.hold 1 0 [] 0 0 none)) := ⟨_, rfl⟩
  have kept : heldGone (textAt 1).stamp 0 = false := (by decide : heldGone 0 0 = false)
  replace now₁ : st₁.now = 0 := next ▸ now₁.trans now
  replace held₁ : pruneHeld 0 st₁.set.held = (texts ids).set 1 (textAt 1) := by
    rw [next]
    change pruneHeld 0 (Store.apply ..).set.held = _
    rw [held₁, now, holds, prune_texts, pruneHeld_set _ _ kept, prune_texts]
  have again : st₁.Takes (fun _ => 200) 1 0 ['x'] none := by
    refine ⟨by simp, by rw [now₁]; decide, .inl ?_⟩
    rw [now₁, held₁]
    exact (Table.mem_set ..).mpr (.inl rfl)
  obtain ⟨-, held₂, -⟩ := apply_hold (fun _ => 200) again rfl
  have next' : st₁.apply (fun _ => 200) .ascending (.hold 1 0 ['x'] 0 0 none) =
    st₁.act (fun _ => 200) .ascending (.does (.hold 1 0 ['x'] 0 0 none)) := rfl
  refine ⟨_, .snoc (.snoc reached next trivial) next' trivial, ?_⟩
  rw [held₂, now₁, held₁, seenHeldKeep, ← count]
  exact tags_lt apart new _ (by decide)

end Again

end Store

end Kryfo.Seen
