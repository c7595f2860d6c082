import Kryfo.Helper.Slots
import Mathlib.Data.List.Pairwise

/-!
# An endpoint serves one group

A slot keeps its owner as long as its generation stays the same.  So over a whole run of plans a
slot and a generation stand for one group, and an address is only placed on a slot of its group.
-/

namespace Kryfo.Helper

open Library List

/-! ## The book on disk -/

structure SlotBook.InRange (b : SlotBook) : Prop where
  byAddress : ∀ a s, b.byAddress.lookup a = some s → s < kHelperSlots
  owner : ∀ s g, b.owner.lookup s = some g → s < kHelperSlots
  gen : ∀ s n, b.gen.lookup s = some n → s < kHelperSlots
  standIn : ∀ s key, b.standIn.lookup s = some key → s < kHelperSlots

namespace SlotBook

theorem lt_of_lookup_slots {ν : Type} {m : Option Json} {ok : Json → Option ν} {s : Nat} {v : ν}
    (found : (slots m ok).lookup s = some v) : s < kHelperSlots := by
  unfold slots at found
  split at found
  · obtain ⟨e, -, read⟩ := mem_filterMap.mp (Dict.mem_of_lookup_ofList found)
    unfold slotEntry at read
    split at read
    · split_ifs at read with inside
      have same := congrArg Prod.fst (Option.some.inj read)
      omega
    · contradiction
  · simp at found

theorem lt_of_lookup_places {m : Option Json} {a : List Char} {s : Nat}
    (found : (places m).lookup a = some s) : s < kHelperSlots := by
  unfold places at found
  split at found
  · obtain ⟨e, -, read⟩ := mem_filterMap.mp (Dict.mem_of_lookup_ofList found)
    unfold placeEntry at read
    split at read
    · split_ifs at read with inside
      have same := congrArg Prod.snd (Option.some.inj read)
      omega
    · contradiction
  · simp at found

/-- Whatever is on disk, a book that is read has only slots there are. -/
theorem inRange_read (raw : Option Json) : (read raw).InRange := by
  unfold read
  split
  · exact ⟨fun _ _ => lt_of_lookup_places, fun _ _ => lt_of_lookup_slots,
      fun _ _ => lt_of_lookup_slots, fun _ _ => lt_of_lookup_slots⟩
  · exact ⟨by simp, by simp, by simp, by simp⟩

theorem slots_writeSlots {ν : Type} {json : ν → Json} {ok : Json → Option ν}
    (readable : ∀ v, ok (json v) = some v) {d : Dict Nat ν}
    (inside : ∀ s v, d.lookup s = some v → s < kHelperSlots) :
    slots (some (writeSlots json d)) ok = d := by
  have back : (d.entries.map fun e => (Nat.toDigits 10 e.1, json e.2)).filterMap
      (slotEntry ok) = d.entries := by
    rw [filterMap_map]
    refine (filterMap_congr fun e member => ?_).trans filterMap_some
    have small := inside e.1 e.2 (Dict.mem_entries.mp member)
    simp [slotEntry, intTryParse_toDigits, readable, small]
  rw [writeSlots, slots, back, Dict.ofList_entries]

theorem places_write {d : Dict (List Char) Nat}
    (inside : ∀ a s, d.lookup a = some s → s < kHelperSlots) :
    places (some (.obj (d.entries.map fun e => (e.1, .num e.2)))) = d := by
  have back : (d.entries.map fun e => (e.1, Json.num e.2)).filterMap placeEntry = d.entries := by
    rw [filterMap_map]
    refine (filterMap_congr fun e member => ?_).trans filterMap_some
    have small := inside e.1 e.2 (Dict.mem_entries.mp member)
    simp [placeEntry, small]
  rw [places, back, Dict.ofList_entries]

theorem read_write {b : SlotBook} (inRange : b.InRange) : read (some b.write) = b := by
  have genBack : ∀ n : Nat, genOf (.num n) = some n := fun n => by simp [genOf, Json.num?]
  have textBack : ∀ g : List Char, Json.text? (.str g) = some g := fun _ => rfl
  have keyBack : ∀ key : StandIn, keyOf (.str key.val) = some key := fun key => by
    simp [keyOf, Json.text?, key.2]
  have fields : read (some b.write) =
      { byAddress := places (some (.obj (b.byAddress.entries.map fun e => (e.1, .num e.2))))
        owner := slots (some (writeSlots .str b.owner)) Json.text?
        gen := slots (some (writeSlots (fun n : Nat => .num n) b.gen)) genOf
        standIn := slots (some (writeSlots (fun key => .str key.val) b.standIn)) keyOf } := rfl
  rw [fields, places_write inRange.byAddress, slots_writeSlots textBack inRange.owner,
    slots_writeSlots genBack inRange.gen, slots_writeSlots keyBack inRange.standIn]

end SlotBook

/-! ## One plan -/

/-- A slot keeps its owner while its generation stays. -/
def SlotBook.Follows (b b' : SlotBook) : Prop :=
  ∀ s, b.generation s ≤ b'.generation s ∧
    (b'.generation s = b.generation s → ∀ g, b.owner.lookup s = some g → b'.owner.lookup s = some g)

theorem SlotBook.Follows.refl (b : SlotBook) : b.Follows b :=
  fun _ => ⟨le_rfl, fun _ _ => id⟩

variable {b : SlotBook}

theorem SlotBook.Follows.trans {b' b'' : SlotBook} (first : b.Follows b')
    (second : b'.Follows b'') : b.Follows b'' := by
  intro s
  obtain ⟨up, kept⟩ := first s
  obtain ⟨up', kept'⟩ := second s
  exact ⟨up.trans up', fun same g owned =>
    kept' (by omega) g (kept (by omega) g owned)⟩

/-- A slot in the same generation has the same owner in both. -/
def SlotBook.Agree (b b' : SlotBook) : Prop :=
  ∀ s g g', b.generation s = b'.generation s →
    b.owner.lookup s = some g → b'.owner.lookup s = some g' → g = g'

theorem SlotBook.Follows.agree {b' : SlotBook} (follows : b.Follows b') : b.Agree b' :=
  fun s g _ same owned owned' =>
    Option.some.inj (((follows s).2 same.symm g owned).symm.trans owned')

instance : Std.Symm fun e e' : Round × SlotPlan => e.2.book.Agree e'.2.book :=
  ⟨fun _ _ agree s g g' same owned owned' => (agree s g' g same.symm owned' owned).symm⟩

namespace Planning

/-- All through a plan there are slots, none to be renewed has an owner, and every address that has
a place is listed with the group of its slot. -/
structure Sound (live : List KnockAddress) (p : Planning) : Prop where
  inRange : p.InRange
  renew : ∀ s ∈ p.renew, s < kHelperSlots ∧ p.owner.lookup s = none
  placed : ∀ a s, p.byAddress.lookup a = some s → ∃ g, p.owner.lookup s = some g ∧ ⟨a, g⟩ ∈ live

/-- What holds while slots are let go: as far as the slots go. -/
structure LetGo (b : SlotBook) (p : Planning) : Prop where
  inRange : p.InRange
  renew : ∀ s ∈ p.renew, s < kHelperSlots ∧ p.owner.lookup s = none
  byAddress : p.byAddress = b.byAddress
  follows : b.Follows p.toSlotBook

theorem LetGo.step {p : Planning} (sound : LetGo b p) (keys : Nat → StandIn)
    (groups : List (List Char)) {e : Nat × List Char} (inside : e.1 < kHelperSlots) :
    LetGo b (p.letGo keys groups e) := by
  unfold letGo
  split_ifs with stays
  · exact sound
  · refine ⟨⟨sound.inRange.byAddress, fun s g => ?_, fun s n => ?_, fun s key => ?_⟩,
      fun s member => ?_, sound.byAddress, fun s => ?_⟩
    · simp only [Dict.lookup_remove]
      split_ifs
      · simp
      · exact sound.inRange.owner s g
    · simp only [Dict.lookup_set]
      split_ifs with same
      · exact fun _ => same ▸ inside
      · exact sound.inRange.gen s n
    · simp only [Dict.lookup_set]
      split_ifs with same
      · exact fun _ => same ▸ inside
      · exact sound.inRange.standIn s key
    · simp only [Dict.lookup_remove]
      obtain rfl | before := Finset.mem_insert.mp member
      · exact ⟨inside, if_pos rfl⟩
      · obtain ⟨small, unowned⟩ := sound.renew s before
        exact ⟨small, by split_ifs <;> trivial⟩
    · obtain ⟨up, kept⟩ := sound.follows s
      simp only [SlotBook.generation, Dict.lookup_set, Dict.lookup_remove] at up kept ⊢
      split_ifs with same
      · subst same
        refine ⟨by simpa using Nat.le_succ_of_le up, fun equal => ?_⟩
        simp only [Option.getD_some] at equal
        omega
      · exact ⟨up, kept⟩

theorem LetGo.steps {p : Planning} (sound : LetGo b p) (keys : Nat → StandIn)
    (groups : List (List Char)) {es : List (Nat × List Char)}
    (inside : ∀ e ∈ es, e.1 < kHelperSlots) : LetGo b (es.foldl (letGo keys groups) p) := by
  induction es generalizing p with
  | nil => exact sound
  | cons e es ih =>
    exact ih (sound.step keys groups (inside e mem_cons_self))
      fun e' member => inside e' (mem_cons_of_mem _ member)

end Planning

theorem planKept_sound (inRange : b.InRange) (live : List KnockAddress) (keys : Nat → StandIn) :
    (planKept b live keys).Sound live ∧ b.Follows (planKept b live keys).toSlotBook := by
  have first : Planning.LetGo b { toSlotBook := b } :=
    ⟨inRange, by simp, rfl, SlotBook.Follows.refl b⟩
  have done : Planning.LetGo b (b.owner.entries.foldl
      (Planning.letGo keys (groupsOf live).values) { toSlotBook := b }) :=
    first.steps keys _ fun e member => inRange.owner e.1 e.2 (Dict.mem_entries.mp member)
  unfold planKept
  dsimp only
  generalize b.owner.entries.foldl (Planning.letGo keys (groupsOf live).values)
    { toSlotBook := b } = p at done ⊢
  have kept : ∀ a s, (p.byAddress.keep fun a s => (Dict.lookup (groupsOf live) a).isSome &&
      p.owner.lookup s = (groupsOf live).lookup a).lookup a = some s →
        p.byAddress.lookup a = some s ∧ ∃ g, p.owner.lookup s = some g ∧ ⟨a, g⟩ ∈ live := by
    intro a s found
    rw [Dict.lookup_keep, Option.filter_eq_some_iff] at found
    obtain ⟨before, agrees⟩ := found
    rw [Bool.and_eq_true, Option.isSome_iff_exists, decide_eq_true_iff] at agrees
    obtain ⟨⟨g, isGroup⟩, same⟩ := agrees
    refine ⟨before, g, same.trans isGroup, ?_⟩
    obtain ⟨x, inside, eq⟩ := mem_map.mp (Dict.mem_of_lookup_ofList isGroup)
    obtain ⟨rfl, rfl⟩ := Prod.mk.inj eq
    exact inside
  refine ⟨⟨⟨fun a s found => ?_, done.inRange.owner, done.inRange.gen, done.inRange.standIn⟩,
    done.renew, fun a s found => (kept a s found).2⟩, done.follows⟩
  exact done.inRange.byAddress a s (kept a s found).1

namespace Planning

variable {p : Planning}

theorem mem_ownedBy {g : List Char} {s : Nat} :
    s ∈ p.ownedBy g ↔ s < kHelperSlots ∧ p.owner.lookup s = some g := by
  simp [ownedBy]

theorem mem_free {s : Nat} :
    s ∈ p.free ↔ s < kHelperSlots ∧ p.owner.lookup s = none ∧ s ∉ p.renew := by
  simp [free, Dict.has]

theorem mem_of_lightest {slots : List Nat} {s : Nat} (found : p.lightest slots = some s) :
    s ∈ slots := by
  have fold : ∀ (rest : List Nat) (x : Nat),
      rest.foldl (fun x y => if p.load y < p.load x then y else x) x ∈ x :: rest := by
    intro rest
    induction rest with
    | nil => simp
    | cons y rest ih =>
      intro x
      rw [foldl_cons]
      split_ifs with lighter
      · exact mem_cons_of_mem x (ih y)
      · obtain isX | later := mem_cons.mp (ih x)
        · rw [isX]
          exact mem_cons_self
        · exact mem_cons_of_mem x (mem_cons_of_mem y later)
  cases slots with
  | nil => simp [lightest] at found
  | cons x rest =>
    rw [← Option.some.inj found]
    exact fold rest x

theorem place_cases (p : Planning) (a : KnockAddress) :
    p.place a = p ∨ (∃ s ∈ p.free, p.reserveFor a.group < p.free.length ∧ p.place a = { p with
        owner := p.owner.set s a.group, byAddress := p.byAddress.set a.address s }) ∨
      ∃ s ∈ p.ownedBy a.group, p.place a = { p with
        byAddress := p.byAddress.set a.address s } := by
  unfold place
  dsimp only
  split_ifs with takes
  · split
    · exact .inl rfl
    · rename_i s rest isFree
      exact .inr (.inl ⟨s, by simp [isFree], takes.2, rfl⟩)
  · split
    · exact .inl rfl
    · rename_i s found
      exact .inr (.inr ⟨s, mem_of_lightest found, rfl⟩)

theorem Sound.place {live : List KnockAddress} (sound : Sound live p) {a : KnockAddress}
    (listed : a ∈ live) : Sound live (p.place a) ∧ p.Follows (p.place a).toSlotBook := by
  obtain same | ⟨s, isFree, -, after⟩ | ⟨s, isOwn, after⟩ := p.place_cases a
  · rw [same]
    exact ⟨sound, SlotBook.Follows.refl _⟩
  · obtain ⟨small, unowned, settled⟩ := mem_free.mp isFree
    rw [after]
    refine ⟨⟨⟨fun b t => ?_, fun t g => ?_, sound.inRange.gen, sound.inRange.standIn⟩,
      fun t member => ?_, fun b t => ?_⟩, fun t => ⟨le_rfl, fun _ g owned => ?_⟩⟩
    · simp only [Dict.lookup_set]
      split_ifs with same
      · exact fun eq => Option.some.inj eq ▸ small
      · exact sound.inRange.byAddress b t
    · simp only [Dict.lookup_set]
      split_ifs with same
      · exact fun _ => same ▸ small
      · exact sound.inRange.owner t g
    · obtain ⟨inside, none⟩ := sound.renew t member
      have other : t ≠ s := fun same => settled (same ▸ member)
      exact ⟨inside, by simp [other, none]⟩
    · simp only [Dict.lookup_set]
      split_ifs with same owned
      · exact fun _ => ⟨a.group, rfl, same ▸ listed⟩
      · exact fun eq => absurd (Option.some.inj eq).symm owned
      · intro found
        obtain ⟨g, owner, -⟩ := sound.placed b t found
        rename_i isTaken
        exact absurd owner (by simp [isTaken, unowned])
      · exact sound.placed b t
    · have other : t ≠ s := fun same => by simp [same, unowned] at owned
      simp [other, owned]
  · obtain ⟨small, owned⟩ := mem_ownedBy.mp isOwn
    rw [after]
    refine ⟨⟨⟨fun b t => ?_, sound.inRange.owner, sound.inRange.gen, sound.inRange.standIn⟩,
      sound.renew, fun b t => ?_⟩, SlotBook.Follows.refl _⟩
    · simp only [Dict.lookup_set]
      split_ifs with same
      · exact fun eq => Option.some.inj eq ▸ small
      · exact sound.inRange.byAddress b t
    · simp only [Dict.lookup_set]
      split_ifs with same
      · exact fun eq => ⟨a.group, Option.some.inj eq ▸ owned, same ▸ listed⟩
      · exact sound.placed b t

theorem Sound.placeAll {live : List KnockAddress} (sound : Sound live p) {as : List KnockAddress}
    (listed : as ⊆ live) :
    Sound live (as.foldl Planning.place p) ∧ p.Follows (as.foldl Planning.place p).toSlotBook := by
  induction as generalizing p with
  | nil => exact ⟨sound, SlotBook.Follows.refl _⟩
  | cons a as ih =>
    obtain ⟨one, follows⟩ := sound.place (listed mem_cons_self)
    obtain ⟨all, onward⟩ := ih one fun x member => listed (mem_cons_of_mem _ member)
    exact ⟨all, follows.trans onward⟩

theorem standFor_same (keys : Nat → StandIn) (p : Planning) (slots : List Nat) :
    let q := slots.foldl (standFor keys) p
    q.byAddress = p.byAddress ∧ q.owner = p.owner ∧ q.gen = p.gen ∧ q.renew = p.renew := by
  induction slots generalizing p with
  | nil => exact ⟨rfl, rfl, rfl, rfl⟩
  | cons s slots ih =>
    have one : (p.standFor keys s).byAddress = p.byAddress ∧
        (p.standFor keys s).owner = p.owner ∧ (p.standFor keys s).gen = p.gen ∧
        (p.standFor keys s).renew = p.renew := by
      unfold standFor
      split_ifs <;> exact ⟨rfl, rfl, rfl, rfl⟩
    obtain ⟨byAddress, owner, gen, renew⟩ := ih (p.standFor keys s)
    exact ⟨byAddress.trans one.1, owner.trans one.2.1, gen.trans one.2.2.1, renew.trans one.2.2.2⟩

theorem lt_of_standFor (keys : Nat → StandIn) {slots : List Nat}
    (inside : ∀ s ∈ slots, s < kHelperSlots)
    (before : ∀ s key, p.standIn.lookup s = some key → s < kHelperSlots) :
    ∀ s key, (slots.foldl (standFor keys) p).standIn.lookup s = some key → s < kHelperSlots := by
  induction slots generalizing p with
  | nil => exact before
  | cons t slots ih =>
    refine ih (fun s member => inside s (mem_cons_of_mem _ member)) fun s key => ?_
    unfold standFor
    split_ifs
    · exact before s key
    · simp only [Dict.lookup_set]
      split_ifs with same
      · exact fun _ => same ▸ inside t mem_cons_self
      · exact before s key

end Planning

structure SlotPlan.Sound (live : List KnockAddress) (plan : SlotPlan) : Prop where
  inRange : plan.book.InRange
  renew : ∀ s ∈ plan.renew, s < kHelperSlots ∧ plan.book.owner.lookup s = none
  placed : ∀ a s, plan.book.byAddress.lookup a = some s →
    ∃ g, plan.book.owner.lookup s = some g ∧ ⟨a, g⟩ ∈ live

theorem planSlots_sound (sorting : Sorting) (inRange : b.InRange) (live : List KnockAddress)
    (keys : Nat → StandIn) :
    (planSlots sorting b live keys).Sound live ∧
      b.Follows (planSlots sorting b live keys).book := by
  obtain ⟨kept, follows⟩ := planKept_sound inRange live keys
  unfold planSlots
  dsimp only
  generalize planKept b live keys = p at kept follows ⊢
  have listed : waiting sorting p live ⊆ live := fun a member =>
    mem_of_mem_filter ((sorting.perm _).mem_iff.mp member)
  obtain ⟨placed, onward⟩ := kept.placeAll listed
  generalize (waiting sorting p live).foldl Planning.place p = q at placed onward ⊢
  obtain ⟨byAddress, owner, gen, renew⟩ :=
    Planning.standFor_same keys q (List.range kHelperSlots)
  have standIn := Planning.lt_of_standFor keys (fun s => mem_range.mp)
    placed.inRange.standIn
  generalize (List.range kHelperSlots).foldl (Planning.standFor keys) q = r
    at byAddress owner gen renew standIn ⊢
  refine ⟨⟨⟨?_, ?_, ?_, standIn⟩, ?_, ?_⟩, (follows.trans onward).trans fun s => ?_⟩
  · rw [byAddress]
    exact placed.inRange.byAddress
  · rw [owner]
    exact placed.inRange.owner
  · rw [gen]
    exact placed.inRange.gen
  · rw [renew, owner]
    exact placed.renew
  · rw [byAddress, owner]
    exact placed.placed
  · simp only [SlotBook.generation, gen, owner]
    exact ⟨le_rfl, fun _ _ => id⟩

/-! ## Plan after plan -/

/-- All plans of a run are sound, and each follows those before it. -/
theorem plans_sound (sorting : Sorting) (inRange : b.InRange) (rounds : List Round) :
    (∀ e ∈ plans sorting b rounds, e.2.Sound e.1.live ∧ b.Follows e.2.book) ∧
      (plans sorting b rounds).Pairwise fun e e' => e.2.book.Follows e'.2.book := by
  induction rounds generalizing b with
  | nil => simp [plans]
  | cons round rounds ih =>
    obtain ⟨sound, follows⟩ := planSlots_sound sorting inRange round.live round.keys
    obtain ⟨later, ordered⟩ := ih sound.inRange
    simp only [plans, SlotBook.read_write sound.inRange, mem_cons, pairwise_cons]
    refine ⟨?_, fun e member => (later e member).2, ordered⟩
    rintro e (rfl | member)
    · exact ⟨sound, follows⟩
    · exact ⟨(later e member).1, follows.trans (later e member).2⟩

/-- Over a whole run, from whatever book is on disk and for any lists, a slot and a
generation stand for one group: an address is placed on a slot of a group it is
listed with, and that group is the same each time. -/
theorem plans_serve_one_group (sorting : Sorting) (raw : Option Json) (rounds : List Round) :
    ∃ serves : Nat → Nat → List Char, ∀ e ∈ plans sorting (SlotBook.read raw) rounds,
        (∀ a s, e.2.book.byAddress.lookup a = some s → s ∉ e.2.renew ∧
          e.2.book.owner.lookup s = some (serves s (e.2.book.generation s)) ∧
          ⟨a, serves s (e.2.book.generation s)⟩ ∈ e.1.live) ∧
        e.2.book.InRange ∧ ∀ s ∈ e.2.renew, s < kHelperSlots := by
  obtain ⟨sound, ordered⟩ := plans_sound sorting (SlotBook.inRange_read raw) rounds
  generalize plans sorting (SlotBook.read raw) rounds = run at sound ordered ⊢
  have agree : ∀ e ∈ run, ∀ e' ∈ run, e.2.book.Agree e'.2.book := fun e inside e' inside' =>
    List.Pairwise.forall_of_forall (fun e _ => (SlotBook.Follows.refl e.2.book).agree)
      (ordered.imp SlotBook.Follows.agree) inside inside'
  have group : ∀ s n, ∃ g, ∀ e ∈ run, e.2.book.generation s = n →
      ∀ g', e.2.book.owner.lookup s = some g' → g' = g := by
    intro s n
    by_cases served : ∃ e ∈ run, e.2.book.generation s = n ∧ ∃ g, e.2.book.owner.lookup s = some g
    · obtain ⟨e, inside, same, g, owned⟩ := served
      exact ⟨g, fun e' inside' same' g' owned' =>
        agree e' inside' e inside s g' g (same'.trans same.symm) owned' owned⟩
    · exact ⟨[], fun e inside same g owned => absurd ⟨e, inside, same, g, owned⟩ served⟩
  choose serves isServed using group
  refine ⟨serves, fun e inside => ⟨fun a s found => ?_, (sound e inside).1.inRange,
    fun s member => ((sound e inside).1.renew s member).1⟩⟩
  obtain ⟨g, owned, listed⟩ := (sound e inside).1.placed a s found
  rw [← isServed s _ e inside rfl g owned]
  refine ⟨fun renewed => ?_, owned, listed⟩
  rw [((sound e inside).1.renew s renewed).2] at owned
  contradiction

end Kryfo.Helper
