import Kryfo.Helper.Owners
import Mathlib.Data.Finset.Card

/-!
# The slots leave room for contacts

A slot is only taken while that leaves one for every contact lane and the first-contact address
still without one.  So after any history two plans in a row on one list give every address of a
main group a place.
-/

namespace Kryfo.Helper

open Library List

variable (owner : Dict Nat (List Char))

def unowned : Finset Nat :=
  (Finset.range kHelperSlots).filter fun s => owner.lookup s = none

def bareLanes : List Nat :=
  (List.range kContactLanes).filter fun i => lane i ∉ owner.values

/-- How many main groups own no slot, one first-contact address among them. -/
def lacking : Nat :=
  (bareLanes owner).length + if owner.values.any firstGroup then 0 else 1

/-- There is a slot for every main group without one. -/
def Roomy : Prop := lacking owner ≤ (unowned owner).card

/-! ## Taking a slot -/

variable {owner : Dict Nat (List Char)} {s : Nat}

theorem mem_values_set (free : owner.lookup s = none) (g g' : List Char) :
    g' ∈ (owner.set s g).values ↔ g' = g ∨ g' ∈ owner.values := by
  simp only [Dict.mem_values, Dict.lookup_set]
  constructor
  · rintro ⟨t, found⟩
    split_ifs at found with same
    · exact .inl (Option.some.inj found).symm
    · exact .inr ⟨t, found⟩
  · rintro (rfl | ⟨t, found⟩)
    · exact ⟨s, if_pos rfl⟩
    · refine ⟨t, ?_⟩
      rw [if_neg fun same => by simp [same, free] at found]
      exact found

variable {p : Planning}

theorem lacking_set (free : p.owner.lookup s = none) (g : List Char) :
    lacking (p.owner.set s g) = p.reserveFor g := by
  have any : (p.owner.set s g).values.any firstGroup =
      (p.owner.values.any firstGroup || firstGroup g) := by
    rw [Bool.eq_iff_iff]
    simp only [any_eq_true, mem_values_set free, Bool.or_eq_true]
    constructor
    · rintro ⟨x, rfl | inside, isFirst⟩
      · exact .inr isFirst
      · exact .inl ⟨x, inside, isFirst⟩
    · rintro (⟨x, inside, isFirst⟩ | isFirst)
      · exact ⟨x, .inr inside, isFirst⟩
      · exact ⟨g, .inl rfl, isFirst⟩
  simp only [lacking, bareLanes, Planning.reserveFor, any, mem_values_set free, not_or]

theorem unowned_set (small : s < kHelperSlots) (free : owner.lookup s = none) (g : List Char) :
    (unowned owner).card = (unowned (owner.set s g)).card + 1 := by
  have erased : unowned (owner.set s g) = (unowned owner).erase s := by
    ext t
    simp only [unowned, Finset.mem_filter, Dict.lookup_set]
    split_ifs with same <;> simp [same]
  rw [erased, Finset.card_erase_add_one]
  simp [unowned, small, free]

theorem length_free_le (p : Planning) : p.free.length ≤ (unowned p.owner).card := by
  have nodup : p.free.Nodup := nodup_range.filter _
  rw [← toFinset_card_of_nodup nodup]
  refine Finset.card_le_card fun s member => ?_
  obtain ⟨small, free, -⟩ := Planning.mem_free.mp (mem_toFinset.mp member)
  simp [unowned, small, free]

theorem Roomy.place (roomy : Roomy p.owner) (a : KnockAddress) : Roomy (p.place a).owner := by
  obtain same | ⟨s, isFree, reserved, after⟩ | ⟨s, -, after⟩ := p.place_cases a
  · rwa [same]
  · obtain ⟨small, free, -⟩ := Planning.mem_free.mp isFree
    have := length_free_le p
    have := unowned_set small free a.group
    rw [after]
    change lacking (p.owner.set s a.group) ≤ (unowned (p.owner.set s a.group)).card
    rw [lacking_set free]
    omega
  · rwa [after]

theorem Roomy.placeAll (roomy : Roomy p.owner) (as : List KnockAddress) :
    Roomy (as.foldl Planning.place p).owner := by
  induction as generalizing p with
  | nil => exact roomy
  | cons a as ih => exact ih (roomy.place a)

/-! ## Letting go of a slot -/

variable {g : List Char}

theorem unowned_remove (small : s < kHelperSlots) (owned : owner.lookup s = some g) :
    (unowned (owner.remove s)).card = (unowned owner).card + 1 := by
  have inserted : unowned (owner.remove s) = insert s (unowned owner) := by
    ext t
    simp only [unowned, Finset.mem_filter, Dict.lookup_remove]
    split_ifs with same
    · simp [same, small]
    · simp [same]
  rw [inserted]
  simp [unowned, owned]

theorem lacking_remove (owned : owner.lookup s = some g) (leaves : lastingGroup g = false) :
    lacking (owner.remove s) ≤ lacking owner + 1 := by
  have kept : ∀ i, lane i ∈ (owner.remove s).values ↔ lane i ∈ owner.values := fun i => by
    simp only [Dict.mem_values, Dict.lookup_remove]
    constructor
    · rintro ⟨t, found⟩
      split_ifs at found
      exact ⟨t, found⟩
    · rintro ⟨t, found⟩
      refine ⟨t, ?_⟩
      rw [if_neg fun same => ?_]
      · exact found
      · rw [same, owned] at found
        rw [Option.some.inj found] at leaves
        contradiction
  simp only [lacking, bareLanes, kept]
  split_ifs <;> omega

theorem Roomy.letGo (roomy : Roomy p.owner) (keys : Nat → StandIn) (groups : List (List Char))
    {e : Nat × List Char} (small : e.1 < kHelperSlots) (owned : p.owner.lookup e.1 = some e.2) :
    Roomy (p.letGo keys groups e).owner := by
  unfold Planning.letGo
  split_ifs with stays
  · exact roomy
  · rw [not_or, Bool.not_eq_true] at stays
    have := lacking_remove owned stays.1
    have := unowned_remove small owned
    unfold Roomy at roomy ⊢
    simp only
    omega

variable {es : List (Nat × List Char)}

theorem Roomy.letGoAll (roomy : Roomy p.owner) (keys : Nat → StandIn) (groups : List (List Char))
    (nodup : (es.map Prod.fst).Nodup) (small : ∀ e ∈ es, e.1 < kHelperSlots)
    (owned : ∀ e ∈ es, p.owner.lookup e.1 = some e.2) :
    Roomy (es.foldl (Planning.letGo keys groups) p).owner := by
  induction es generalizing p with
  | nil => exact roomy
  | cons e es ih =>
    obtain ⟨outside, rest⟩ := nodup_cons.mp nodup
    refine ih (roomy.letGo keys groups (small e mem_cons_self)
      (owned e mem_cons_self)) rest
      (fun e' member => small e' (mem_cons_of_mem _ member)) fun e' member => ?_
    have other : e'.1 ≠ e.1 := fun same => outside (same ▸ mem_map_of_mem member)
    unfold Planning.letGo
    split_ifs
    · exact owned e' (mem_cons_of_mem _ member)
    · simpa [other] using owned e' (mem_cons_of_mem _ member)

theorem Roomy.planSlots {b : SlotBook} (roomy : Roomy b.owner) (inRange : b.InRange)
    (sorting : Sorting) (live : List KnockAddress) (keys : Nat → StandIn) :
    Roomy (planSlots sorting b live keys).book.owner := by
  have kept : Roomy (planKept b live keys).owner :=
    roomy.letGoAll (p := { toSlotBook := b }) keys _ b.owner.nodup
      (fun e member => inRange.owner e.1 e.2 (Dict.mem_entries.mp member))
      fun e member => Dict.mem_entries.mp member
  have placed := kept.placeAll (waiting sorting (planKept b live keys) live)
  obtain ⟨-, owner, -, -⟩ := Planning.standFor_same keys
    ((waiting sorting (planKept b live keys) live).foldl Planning.place (planKept b live keys))
    (List.range kHelperSlots)
  unfold Helper.planSlots
  rw [owner]
  exact placed

/-! ## A second plan on the same list -/

/-- Every slot that is owned serves a lane or a group that is listed. -/
def OwnersLive (groups : List (List Char)) (owner : Dict Nat (List Char)) : Prop :=
  ∀ s g, owner.lookup s = some g → lastingGroup g = true ∨ g ∈ groups

def OneGroup (live : List KnockAddress) : Prop :=
  ∀ a ∈ live, ∀ b ∈ live, a.address = b.address → a.group = b.group

variable {live : List KnockAddress} {a : KnockAddress}

theorem group_mem_groupsOf (oneGroup : OneGroup live) (listed : a ∈ live) :
    a.group ∈ (groupsOf live).values := by
  have has : (groupsOf live).has a.address = true :=
    Dict.has_ofList (mem_map.mpr ⟨a, listed, rfl⟩)
  obtain ⟨g, found⟩ := Dict.has_iff.mp has
  obtain ⟨b, inside, same⟩ := mem_map.mp (Dict.mem_of_lookup_ofList found)
  obtain ⟨sameAddress, rfl⟩ := Prod.mk.inj same
  rw [oneGroup a listed b inside sameAddress.symm]
  exact Dict.mem_values.mpr ⟨_, found⟩

theorem listed_of_mem_groupsOf (inside : g ∈ (groupsOf live).values) : ∃ a ∈ live, a.group = g := by
  obtain ⟨k, found⟩ := Dict.mem_values.mp inside
  obtain ⟨a, listed, same⟩ := mem_map.mp (Dict.mem_of_lookup_ofList found)
  exact ⟨a, listed, (Prod.mk.inj same).2⟩

theorem ownersLive_letGo (keys : Nat → StandIn) (groups : List (List Char))
    (given : ∀ s g, p.owner.lookup s = some g → (s, g) ∈ es ∨ lastingGroup g = true ∨ g ∈ groups) :
    OwnersLive groups (es.foldl (Planning.letGo keys groups) p).owner := by
  induction es generalizing p with
  | nil => exact fun s g owned => (given s g owned).resolve_left not_mem_nil
  | cons e es ih =>
    refine ih fun s g owned => ?_
    unfold Planning.letGo at owned
    split_ifs at owned with stays
    · obtain first | rest := given s g owned
      · obtain rfl | later := mem_cons.mp first
        · exact .inr stays
        · exact .inl later
      · exact .inr rest
    · simp only [Dict.lookup_remove] at owned
      split_ifs at owned with same
      obtain first | rest := given s g owned
      · obtain rfl | later := mem_cons.mp first
        · exact absurd rfl same
        · exact .inl later
      · exact .inr rest

variable {groups : List (List Char)}

theorem letGo_of_ownersLive (keys : Nat → StandIn)
    (stay : ∀ e ∈ es, lastingGroup e.2 = true ∨ e.2 ∈ groups) (p : Planning) :
    es.foldl (Planning.letGo keys groups) p = p := by
  induction es with
  | nil => rfl
  | cons e es ih =>
    have one : p.letGo keys groups e = p := if_pos (stay e mem_cons_self)
    rw [foldl_cons, one]
    exact ih fun e' member => stay e' (mem_cons_of_mem _ member)

theorem OwnersLive.place (owners : OwnersLive groups p.owner) (listed : a.group ∈ groups) :
    OwnersLive groups (p.place a).owner := by
  obtain same | ⟨s, -, -, after⟩ | ⟨s, -, after⟩ := p.place_cases a
  · rwa [same]
  · rw [after]
    intro t g owned
    simp only [Dict.lookup_set] at owned
    split_ifs at owned
    · exact .inr (Option.some.inj owned ▸ listed)
    · exact owners t g owned
  · rwa [after]

theorem OwnersLive.placeAll (owners : OwnersLive groups p.owner) {as : List KnockAddress}
    (listed : ∀ a ∈ as, a.group ∈ groups) :
    OwnersLive groups (as.foldl Planning.place p).owner := by
  induction as generalizing p with
  | nil => exact owners
  | cons a as ih =>
    exact ih (owners.place (listed a mem_cons_self))
      fun b member => listed b (mem_cons_of_mem _ member)

variable (sorting : Sorting)

theorem ownersLive_planSlots (b : SlotBook) (oneGroup : OneGroup live) (keys : Nat → StandIn) :
    OwnersLive (groupsOf live).values (planSlots sorting b live keys).book.owner := by
  have kept : OwnersLive (groupsOf live).values (planKept b live keys).owner :=
    ownersLive_letGo keys _ fun s g owned => .inl (Dict.mem_entries.mpr owned)
  have listed : ∀ a ∈ waiting sorting (planKept b live keys) live,
      a.group ∈ (groupsOf live).values := fun a member =>
    group_mem_groupsOf oneGroup (mem_of_mem_filter ((sorting.perm _).mem_iff.mp member))
  have placed := kept.placeAll listed
  obtain ⟨-, owner, -, -⟩ := Planning.standFor_same keys
    ((waiting sorting (planKept b live keys) live).foldl Planning.place (planKept b live keys))
    (List.range kHelperSlots)
  unfold planSlots
  rw [owner]
  exact placed

namespace Planning

theorem renew_place (p : Planning) (a : KnockAddress) : (p.place a).renew = p.renew := by
  obtain same | ⟨s, -, -, after⟩ | ⟨s, -, after⟩ := p.place_cases a
  · rw [same]
  · rw [after]
  · rw [after]

theorem has_place {x : List Char} (placed : p.byAddress.has x = true) (a : KnockAddress) :
    (p.place a).byAddress.has x = true := by
  have set : ∀ s, (p.byAddress.set a.address s).has x = true := fun s => by
    simp only [Dict.has, Dict.lookup_set]
    split_ifs
    · rfl
    · exact placed
  obtain same | ⟨s, -, -, after⟩ | ⟨s, -, after⟩ := p.place_cases a
  · rwa [same]
  · rw [after]
    exact set s
  · rw [after]
    exact set s

theorem length_free (none : p.renew = ∅) : (unowned p.owner).card ≤ p.free.length := by
  refine le_trans (Finset.card_le_card fun s member => ?_) (toFinset_card_le p.free)
  rw [unowned, Finset.mem_filter, Finset.mem_range] at member
  exact mem_toFinset.mpr (mem_free.mpr ⟨member.1, member.2, by simp [none]⟩)

theorem has_of_place (able : p.ownedBy a.group ≠ [] ∨ p.reserveFor a.group < p.free.length) :
    (p.place a).byAddress.has a.address = true := by
  have positive : 0 < slotCap a.group := by
    unfold slotCap
    split_ifs <;> decide
  unfold place
  dsimp only
  split_ifs with takes
  · split
    · rename_i nothing
      simp [nothing] at takes
    · simp [Dict.has]
  · split
    · rename_i nothing
      cases own : p.ownedBy a.group with
      | nil =>
        refine absurd ⟨?_, able.resolve_left (not_not.mpr own)⟩ takes
        simpa [own] using positive
      | cons s slots => simp [own, lightest] at nothing
    · simp [Dict.has]

end Planning

theorem reserveFor_lt_lacking (bare : g ∉ p.owner.values)
    (main : (∃ i < kContactLanes, g = lane i) ∨ firstGroup g = true ∧ p.owner.values.any firstGroup = false) :
    p.reserveFor g < lacking p.owner := by
  have lanes : ((List.range kContactLanes).filter fun i => lane i ≠ g ∧ lane i ∉ p.owner.values) =
      (bareLanes p.owner).filter fun i => lane i ≠ g := by
    rw [bareLanes, filter_filter]
    exact filter_congr fun i _ => by simp
  unfold Planning.reserveFor lacking
  rw [lanes]
  obtain ⟨i, small, rfl⟩ | ⟨isFirst, noFirst⟩ := main
  · have shorter : ((bareLanes p.owner).filter fun j => lane j ≠ lane i).length <
        (bareLanes p.owner).length := by
      refine length_filter_lt_length_iff_exists.mpr ⟨i, ?_, by simp⟩
      simpa [bareLanes, small] using bare
    have notFirst : firstGroup (lane i) = false := rfl
    rw [notFirst, Bool.or_false]
    omega
  · have := length_filter_le (fun i => decide (lane i ≠ g)) (bareLanes p.owner)
    rw [noFirst, isFirst]
    simp only [Bool.false_or, if_true, Bool.false_eq_true, if_false]
    omega

/-- The contact lanes, one first-contact address, and others, which are rooms. -/
structure Lanes (live : List KnockAddress) : Prop where
  lanes : ∀ a ∈ live, lastingGroup a.group = true → ∃ i < kContactLanes, a.group = lane i
  oneFirst : ∀ a ∈ live, ∀ b ∈ live, firstGroup a.group = true → firstGroup b.group = true →
    a.group = b.group

theorem firstGroup_of_lasting (isFirst : firstGroup g = true) : lastingGroup g = false := by
  obtain ⟨rest, rfl⟩ := isPrefixOf_iff_prefix.mp isFirst
  rfl

theorem has_of_place_main (lanes : Lanes live) (roomy : Roomy p.owner)
    (inRange : ∀ s g, p.owner.lookup s = some g → s < kHelperSlots) (none : p.renew = ∅)
    (owners : OwnersLive (groupsOf live).values p.owner) (listed : a ∈ live)
    (main : mainGroup a.group = true) : (p.place a).byAddress.has a.address = true := by
  refine Planning.has_of_place ?_
  by_cases bare : a.group ∈ p.owner.values
  · obtain ⟨s, owned⟩ := Dict.mem_values.mp bare
    exact .inl (ne_nil_of_mem (Planning.mem_ownedBy.mpr ⟨inRange s _ owned, owned⟩))
  · refine .inr ?_
    have reserved : p.reserveFor a.group < lacking p.owner := by
      refine reserveFor_lt_lacking bare ?_
      obtain isLane | isFirst := (Bool.or_eq_true _ _).mp main
      · exact .inl (lanes.lanes a listed isLane)
      · refine .inr ⟨isFirst, Bool.eq_false_iff.mpr fun other => bare ?_⟩
        obtain ⟨g, inside, isFirst'⟩ := any_eq_true.mp other
        obtain ⟨s, owned⟩ := Dict.mem_values.mp inside
        have named : g ∈ (groupsOf live).values :=
          (owners s g owned).resolve_left (by simp [firstGroup_of_lasting isFirst'])
        obtain ⟨b, listed', rfl⟩ := listed_of_mem_groupsOf named
        rwa [lanes.oneFirst a listed b listed' isFirst isFirst']
    exact reserved.trans_le (le_trans roomy (Planning.length_free none))

theorem has_placeAll {x : List Char} (placed : p.byAddress.has x = true) (as : List KnockAddress) :
    (as.foldl Planning.place p).byAddress.has x = true := by
  induction as generalizing p with
  | nil => exact placed
  | cons a as ih => exact ih (Planning.has_place placed a)

theorem has_of_placeAll_main (oneGroup : OneGroup live) (lanes : Lanes live)
    (sound : p.Sound live) (roomy : Roomy p.owner) (none : p.renew = ∅)
    (owners : OwnersLive (groupsOf live).values p.owner) {as : List KnockAddress}
    (listed : as ⊆ live) :
    ∀ a ∈ as, mainGroup a.group = true →
      (as.foldl Planning.place p).byAddress.has a.address = true := by
  induction as generalizing p with
  | nil => simp
  | cons b as ih =>
    have isListed := listed mem_cons_self
    intro a member main
    obtain rfl | later := mem_cons.mp member
    · exact has_placeAll (has_of_place_main lanes roomy sound.inRange.owner none owners
        isListed main) as
    · exact ih (sound.place isListed).1 (roomy.place b) ((p.renew_place b).trans none)
        (owners.place (group_mem_groupsOf oneGroup isListed))
        (fun x inside => listed (mem_cons_of_mem _ inside)) a later main

theorem renew_placeAll (p : Planning) (as : List KnockAddress) :
    (as.foldl Planning.place p).renew = p.renew := by
  induction as generalizing p with
  | nil => rfl
  | cons a as ih => exact (ih (p.place a)).trans (p.renew_place a)

/-- A second plan on one list gives every address of a main group a slot and renews nothing. -/
theorem planSlots_again {b : SlotBook} (inRange : b.InRange) (roomy : Roomy b.owner)
    (oneGroup : OneGroup live) (lanes : Lanes live)
    (owners : OwnersLive (groupsOf live).values b.owner) (keys : Nat → StandIn) :
    (∀ a ∈ live, mainGroup a.group = true →
      (planSlots sorting b live keys).book.byAddress.has a.address = true) ∧
      (planSlots sorting b live keys).renew = ∅ := by
  have stay : b.owner.entries.foldl (Planning.letGo keys (groupsOf live).values)
      { toSlotBook := b } = { toSlotBook := b } :=
    letGo_of_ownersLive keys (fun e member => owners e.1 e.2 (Dict.mem_entries.mp member)) _
  have owner : (planKept b live keys).owner = b.owner := by simp only [planKept, stay]
  have none : (planKept b live keys).renew = ∅ := by simp only [planKept, stay]
  obtain ⟨sound, -⟩ := planKept_sound inRange live keys
  have listed : waiting sorting (planKept b live keys) live ⊆ live := fun a member =>
    mem_of_mem_filter ((sorting.perm _).mem_iff.mp member)
  have placed := has_of_placeAll_main oneGroup lanes sound (by rwa [owner]) none
    (by rwa [owner]) listed
  unfold planSlots
  dsimp only
  generalize planKept b live keys = p at none placed ⊢
  obtain ⟨byAddress, -, -, renew⟩ := Planning.standFor_same keys
    ((waiting sorting p live).foldl Planning.place p) (List.range kHelperSlots)
  rw [byAddress, renew, renew_placeAll]
  refine ⟨fun a listed main => ?_, none⟩
  by_cases already : p.byAddress.has a.address = true
  · exact has_placeAll already _
  · refine placed a ((sorting.perm _).mem_iff.mpr (mem_filter.mpr ⟨listed, ?_⟩)) main
    simpa using already

/-! ## After any history -/

def bookAfter (b : SlotBook) (rounds : List Round) : SlotBook :=
  rounds.foldl (fun b round =>
    SlotBook.read (some (planSlots sorting b round.live round.keys).book.write)) b

theorem roomy_bookAfter {b : SlotBook} (inRange : b.InRange) (roomy : Roomy b.owner)
    (rounds : List Round) :
    (bookAfter sorting b rounds).InRange ∧ Roomy (bookAfter sorting b rounds).owner := by
  induction rounds generalizing b with
  | nil => exact ⟨inRange, roomy⟩
  | cons round rounds ih =>
    obtain ⟨sound, -⟩ := planSlots_sound sorting inRange round.live round.keys
    have step : bookAfter sorting b (round :: rounds) =
        bookAfter sorting (planSlots sorting b round.live round.keys).book rounds := by
      rw [bookAfter, foldl_cons, SlotBook.read_write sound.inRange]
      rfl
    rw [step]
    exact ih sound.inRange (roomy.planSlots inRange sorting round.live round.keys)

/-- From the empty book and after any plans, two plans in a row on a list that names
no address under two groups give every address of a lane and of the first-contact
group a slot, and the second renews nothing. -/
theorem plan_twice (rounds : List Round) {live : List KnockAddress} (oneGroup : OneGroup live)
    (lanes : Lanes live) (keys keys' : Nat → StandIn) :
    let first := planSlots sorting (bookAfter sorting {} rounds) live keys
    let second := planSlots sorting (SlotBook.read (some first.book.write)) live keys'
    (∀ a ∈ live, mainGroup a.group = true →
      ∃ s, second.book.byAddress.lookup a.address = some s) ∧ second.renew = ∅ := by
  have inRangeEmpty : ({} : SlotBook).InRange := ⟨by simp, by simp, by simp, by simp⟩
  have roomyEmpty : Roomy ({} : SlotBook).owner := by
    unfold Roomy
    decide
  obtain ⟨inRange, roomy⟩ := roomy_bookAfter sorting inRangeEmpty roomyEmpty rounds
  have sound := (planSlots_sound sorting inRange live keys).1.inRange
  have roomyFirst := roomy.planSlots inRange sorting live keys
  have owners := ownersLive_planSlots sorting (bookAfter sorting {} rounds) oneGroup keys
  dsimp only
  rw [SlotBook.read_write sound]
  obtain ⟨placed, none⟩ := planSlots_again sorting sound roomyFirst oneGroup lanes owners keys'
  exact ⟨fun a listed main => Dict.has_iff.mp (placed a listed main), none⟩

def sixtyFour : StandIn := ⟨List.replicate 64 '0', length_replicate⟩

def laneAndRoom : List KnockAddress := [⟨['a'], lane 0⟩, ⟨['b'], "room:1".toList⟩]

theorem oneGroup_laneAndRoom : OneGroup laneAndRoom := by
  unfold OneGroup
  decide

theorem lanes_laneAndRoom : Lanes laneAndRoom := by
  refine ⟨?_, by decide⟩
  simp only [laneAndRoom, mem_cons, forall_eq_or_imp]
  exact ⟨fun _ => ⟨0, by decide, rfl⟩, by decide⟩

theorem plan_twice_laneAndRoom :
    let first := planSlots Sorting.byInsertion (bookAfter Sorting.byInsertion {} []) laneAndRoom
      fun _ => sixtyFour
    let second := planSlots Sorting.byInsertion (SlotBook.read (some first.book.write)) laneAndRoom
      fun _ => sixtyFour
    (∀ a ∈ laneAndRoom, mainGroup a.group = true →
      ∃ s, second.book.byAddress.lookup a.address = some s) ∧ second.renew = ∅ :=
  plan_twice Sorting.byInsertion [] oneGroup_laneAndRoom lanes_laneAndRoom
    (fun _ => sixtyFour) fun _ => sixtyFour

/-- A list that names an address under two rooms: with ties in the order of the list, the slot of
the one that does not count is let go of again by the next plan. -/
theorem not_plan_twice :
    let live : List KnockAddress := [⟨['a'], "room:1".toList⟩, ⟨['a'], "room:2".toList⟩]
    let first := planSlots Sorting.byInsertion {} live fun _ => sixtyFour
    let second := planSlots Sorting.byInsertion (SlotBook.read (some first.book.write)) live
      fun _ => sixtyFour
    Lanes live ∧ second.renew = {0} := by
  refine ⟨⟨by decide, by decide⟩, ?_⟩
  decide +kernel

end Kryfo.Helper
