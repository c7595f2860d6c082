import Mathlib.Data.Finmap

/-!
# Tables with room for so many

A table takes a key more only while there is room: so many keys in all, so many to a group, so many
groups.  One within these limits can be entered again key by key in any order.
-/

namespace Kryfo.Library

open List

abbrev Table (κ ν : Type*) := Finmap fun _ : κ => ν

namespace Table

variable {κ ν γ : Type*} [DecidableEq κ] [DecidableEq γ]

def keep (p : ν → Bool) (t : Table κ ν) : Table κ ν :=
  Finmap.keysLookupEquiv.symm
    ⟨(t.keys.filter fun k => (t.lookup k).any p, fun k => (t.lookup k).filter p), by
      intro k
      cases found : t.lookup k with
      | none => simp [found]
      | some v =>
        have member : k ∈ t.keys := Finmap.mem_keys.mpr (Finmap.mem_of_lookup_eq_some found)
        by_cases passes : p v <;> simp [found, passes, member, Option.filter]⟩

def set (k : κ) (v : ν) (t : Table κ ν) : Table κ ν := Finmap.insert k v t

def unset (k : κ) (t : Table κ ν) : Table κ ν := Finmap.erase k t

def change (f : ν → ν) (t : Table κ ν) : Table κ ν :=
  Finmap.keysLookupEquiv.symm
    ⟨(t.keys, fun k => (t.lookup k).map f), by
      intro k
      rw [Option.isSome_map, Finmap.lookup_isSome, Finmap.mem_keys]⟩

@[simp] theorem lookup_keep (p : ν → Bool) (t : Table κ ν) (k : κ) :
    (t.keep p).lookup k = (t.lookup k).filter p := by
  simp [keep]

@[simp] theorem lookup_change (f : ν → ν) (t : Table κ ν) (k : κ) :
    (t.change f).lookup k = (t.lookup k).map f := by
  simp [change]

@[simp] theorem keys_change (f : ν → ν) (t : Table κ ν) : (t.change f).keys = t.keys := by
  simp [change]

theorem lookup_set (k : κ) (v : ν) (t : Table κ ν) (k' : κ) :
    (t.set k v).lookup k' = if k' = k then some v else t.lookup k' := by
  split_ifs with same
  · rw [same, set, Finmap.lookup_insert]
  · exact Finmap.lookup_insert_of_ne t same

theorem lookup_unset (k : κ) (t : Table κ ν) (k' : κ) :
    (t.unset k).lookup k' = if k' = k then none else t.lookup k' := by
  split_ifs with same
  · rw [same, unset, Finmap.lookup_erase]
  · exact Finmap.lookup_erase_ne same

@[simp] theorem mem_set (k : κ) (v : ν) (t : Table κ ν) (k' : κ) :
    k' ∈ t.set k v ↔ k' = k ∨ k' ∈ t := Finmap.mem_insert

@[simp] theorem mem_unset (k : κ) (t : Table κ ν) (k' : κ) :
    k' ∈ t.unset k ↔ k' ≠ k ∧ k' ∈ t := Finmap.mem_erase

theorem mem_iff {t : Table κ ν} {k : κ} : k ∈ t ↔ ∃ v, t.lookup k = some v := Finmap.mem_iff

theorem eq_empty {t : Table κ ν} (outside : ∀ k, k ∉ t) : t = ∅ := by
  refine Finmap.ext_lookup fun k => ?_
  rw [Finmap.lookup_eq_none.mpr (outside k), Finmap.lookup_empty]

def members (tag : ν → γ) (t : Table κ ν) (g : γ) : Finset κ :=
  t.keys.filter fun k => (t.lookup k).map tag = some g

def tags (tag : ν → γ) (t : Table κ ν) : Finset γ :=
  (t.entries.map fun e => tag e.2).toFinset

section Groups

variable {tag : ν → γ} {t u : Table κ ν} {g : γ} {k : κ} {v : ν}

@[simp] theorem mem_members : k ∈ t.members tag g ↔ ∃ v, t.lookup k = some v ∧ tag v = g := by
  rw [members, Finset.mem_filter, Option.map_eq_some_iff]
  exact ⟨And.right, fun found => ⟨mem_iff.mpr (found.imp fun _ => And.left), found⟩⟩

@[simp] theorem mem_tags : g ∈ t.tags tag ↔ ∃ k v, t.lookup k = some v ∧ tag v = g := by
  simp only [tags, Multiset.mem_toFinset, Multiset.mem_map, Finmap.lookup_eq_some_iff]
  exact ⟨fun ⟨⟨k, v⟩, member, same⟩ => ⟨k, v, member, same⟩,
    fun ⟨k, v, member, same⟩ => ⟨⟨k, v⟩, member, same⟩⟩

def Sub (t u : Table κ ν) : Prop := ∀ k v, t.lookup k = some v → u.lookup k = some v

theorem Sub.keys (sub : Sub t u) : t.keys ⊆ u.keys := by
  intro k member
  obtain ⟨v, found⟩ := mem_iff.mp (Finmap.mem_keys.mp member)
  exact Finmap.mem_keys.mpr (mem_iff.mpr ⟨v, sub k v found⟩)

theorem Sub.members (sub : Sub t u) (g : γ) : t.members tag g ⊆ u.members tag g := by
  intro k
  simp only [mem_members]
  exact fun ⟨v, found, same⟩ => ⟨v, sub k v found, same⟩

theorem Sub.tags (sub : Sub t u) : t.tags tag ⊆ u.tags tag := by
  intro g
  simp only [mem_tags]
  exact fun ⟨k, v, found, same⟩ => ⟨k, v, sub k v found, same⟩

theorem sub_keep (p : ν → Bool) (t : Table κ ν) : Sub (t.keep p) t := by
  intro k v found
  rw [lookup_keep, Option.filter_eq_some_iff] at found
  exact found.1

theorem sub_unset (k : κ) (t : Table κ ν) : Sub (t.unset k) t := by
  intro k' v found
  rw [lookup_unset] at found
  split_ifs at found
  exact found

end Groups

/-- How many keys, keys to a group and groups. -/
structure Limits where
  most : Nat
  perGroup : Nat
  groups : Nat

namespace Limits

variable (l : Limits) (tag : ν → γ)

def room (t : Table κ ν) (g : γ) : Bool :=
  if l.most ≤ t.keys.card then false
  else if 0 < (t.members tag g).card then decide ((t.members tag g).card < l.perGroup)
  else decide ((t.tags tag).card < l.groups)

structure Within (t : Table κ ν) : Prop where
  keys_le : t.keys.card ≤ l.most
  members_le : ∀ g, (t.members tag g).card ≤ l.perGroup
  tags_le : (t.tags tag).card ≤ l.groups

/-- Enter a key: one already there takes the new value, another only while
there is room. -/
def enter (t : Table κ ν) (k : κ) (v : ν) : Table κ ν :=
  if k ∈ t ∨ l.room tag t (tag v) then t.set k v else t

variable {l tag} {t u : Table κ ν} {k k' : κ} {v : ν}

theorem within_empty : l.Within tag (∅ : Table κ ν) where
  keys_le := by simp
  members_le g := by simp [members]
  tags_le := by simp [tags, show (∅ : Table κ ν).entries = 0 from rfl]

theorem Within.sub (within : l.Within tag u) (sub : Sub t u) : l.Within tag t where
  keys_le := (Finset.card_le_card sub.keys).trans within.keys_le
  members_le g := (Finset.card_le_card (sub.members g)).trans (within.members_le g)
  tags_le := (Finset.card_le_card sub.tags).trans within.tags_le

theorem Within.change (within : l.Within tag t) {f : ν → ν} (same : ∀ v, tag (f v) = tag v) :
    l.Within tag (t.change f) where
  keys_le := by simpa using within.keys_le
  members_le g := by
    convert within.members_le g using 2
    ext k
    simp [same]
  tags_le := by
    convert within.tags_le using 2
    ext g
    simp [same]

theorem Within.room_of_sub (within : l.Within tag u) (sub : Sub t u) (fresh : k ∉ t)
    (found : u.lookup k = some v) : l.room tag t (tag v) = true := by
  have inKeys : t.keys.card < u.keys.card := by
    refine Finset.card_lt_card ⟨sub.keys, fun back => fresh ?_⟩
    exact Finmap.mem_keys.mp (back (Finmap.mem_keys.mpr (mem_iff.mpr ⟨v, found⟩)))
  have noneHere : ∀ v', t.lookup k ≠ some v' := fun v' here => fresh (mem_iff.mpr ⟨v', here⟩)
  have inGroup : (t.members tag (tag v)).card < (u.members tag (tag v)).card := by
    refine Finset.card_lt_card ⟨sub.members _, fun back => ?_⟩
    obtain ⟨v', here, -⟩ := mem_members.mp (back (mem_members.mpr ⟨v, found, rfl⟩))
    exact noneHere v' here
  have keysLe := within.keys_le
  have membersLe := within.members_le (tag v)
  unfold room
  rw [if_neg (by omega)]
  split_ifs with some_
  · exact decide_eq_true (by omega)
  · refine decide_eq_true (lt_of_lt_of_le (Finset.card_lt_card ⟨sub.tags, fun back => some_ ?_⟩)
      within.tags_le)
    obtain ⟨k', v', here, same⟩ := mem_tags.mp (back (mem_tags.mpr ⟨k, v, found, rfl⟩))
    exact Finset.card_pos.mpr ⟨k', mem_members.mpr ⟨v', here, same⟩⟩

theorem room_spec {g : γ} (room : l.room tag t g = true) :
    t.keys.card < l.most ∧ (0 < (t.members tag g).card ∧ (t.members tag g).card < l.perGroup ∨
        (t.members tag g).card = 0 ∧ (t.tags tag).card < l.groups) := by
  unfold Limits.room at room
  split_ifs at room with full some_
  · exact ⟨by omega, .inl ⟨some_, of_decide_eq_true room⟩⟩
  · exact ⟨by omega, .inr ⟨by omega, of_decide_eq_true room⟩⟩

theorem Within.set (within : l.Within tag t) (positive : 0 < l.perGroup)
    (room : l.room tag t (tag v) = true) : l.Within tag (t.set k v) := by
  obtain ⟨keysLt, groupRoom⟩ := room_spec room
  have keys : (t.set k v).keys = Insert.insert k t.keys := by
    ext k'
    rw [Finmap.mem_keys, mem_set, Finset.mem_insert, Finmap.mem_keys]
  have elsewhere : ∀ g ≠ tag v, (t.set k v).members tag g ⊆ t.members tag g := by
    intro g other k' member
    obtain ⟨v', found, same⟩ := mem_members.mp member
    rw [lookup_set] at found
    split_ifs at found
    · cases found
      exact absurd same.symm other
    · exact mem_members.mpr ⟨v', found, same⟩
  have here : (t.set k v).members tag (tag v) ⊆
      Insert.insert k (t.members tag (tag v)) := by
    intro k' member
    obtain ⟨v', found, same⟩ := mem_members.mp member
    rw [lookup_set] at found
    split_ifs at found with equal
    · simp [equal]
    · exact Finset.mem_insert_of_mem (mem_members.mpr ⟨v', found, same⟩)
  have tagsSub : (t.set k v).tags tag ⊆ Insert.insert (tag v) (t.tags tag) := by
    intro g member
    obtain ⟨k', v', found, same⟩ := mem_tags.mp member
    rw [lookup_set] at found
    split_ifs at found
    · cases found
      simp [same]
    · exact Finset.mem_insert_of_mem (mem_tags.mpr ⟨k', v', found, same⟩)
  refine ⟨?_, fun g => ?_, ?_⟩
  · rw [keys]
    exact (Finset.card_insert_le ..).trans keysLt
  · by_cases same : g = tag v
    · subst same
      have := (Finset.card_le_card here).trans (Finset.card_insert_le ..)
      omega
    · exact (Finset.card_le_card (elsewhere g same)).trans (within.members_le g)
  · rcases groupRoom with ⟨some_, -⟩ | ⟨-, more⟩
    · obtain ⟨k', member⟩ := Finset.card_pos.mp some_
      obtain ⟨v', found, same⟩ := mem_members.mp member
      rw [Finset.insert_eq_of_mem (mem_tags.mpr ⟨k', v', found, same⟩)] at tagsSub
      exact (Finset.card_le_card tagsSub).trans within.tags_le
    · exact ((Finset.card_le_card tagsSub).trans (Finset.card_insert_le ..)).trans more

theorem Within.set_of_tag (within : l.Within tag t) {v' : ν} (found : t.lookup k = some v')
    (same : tag v' = tag v) : l.Within tag (t.set k v) := by
  have lookup (k' : κ) : ((t.set k v).lookup k').map tag = (t.lookup k').map tag := by
    rw [lookup_set]
    split_ifs with equal
    · rw [equal, found, Option.map_some, Option.map_some, same]
    · rfl
  have keys : (t.set k v).keys = t.keys := by
    ext k'
    rw [Finmap.mem_keys, mem_set]
    exact or_iff_right_of_imp fun equal => equal ▸ mem_iff.mpr ⟨v', found⟩
  have tags : (t.set k v).tags tag = t.tags tag := by
    ext g
    simp only [mem_tags, ← Option.map_eq_some_iff, lookup]
  refine ⟨keys ▸ within.keys_le, fun g => ?_, tags ▸ within.tags_le⟩
  rw [members, keys]
  simp only [lookup]
  exact within.members_le g

theorem Within.enter (within : l.Within tag t) (positive : 0 < l.perGroup) (fresh : k ∉ t)
    (v : ν) : l.Within tag (l.enter tag t k v) := by
  unfold Limits.enter
  split_ifs with takes
  · exact within.set positive (takes.resolve_left fresh)
  · exact within

theorem enter_of_within (within : l.Within tag u) (sub : Sub t u)
    (found : u.lookup k = some v) : l.enter tag t k v = t.set k v := by
  refine if_pos ?_
  by_cases member : k ∈ t
  · exact .inl member
  · exact .inr (within.room_of_sub sub member found)

variable (l tag) in
def enterAll (t : Table κ ν) (es : List (κ × ν)) : Table κ ν :=
  es.foldl (fun t e => l.enter tag t e.1 e.2) t

theorem enterAll_cons (t : Table κ ν) (e : κ × ν) (es : List (κ × ν)) :
    l.enterAll tag t (e :: es) = l.enterAll tag (l.enter tag t e.1 e.2) es := rfl

theorem mem_enter (member : k ∈ l.enter tag t k' v) : k ∈ t ∨ k = k' := by
  unfold Limits.enter at member
  split_ifs at member
  · exact ((mem_set ..).mp member).symm
  · exact .inl member

theorem mem_enterAll {es : List (κ × ν)} (member : k ∈ l.enterAll tag t es) :
    k ∈ t ∨ k ∈ es.map Prod.fst := by
  induction es generalizing t with
  | nil => exact .inl member
  | cons e es ih =>
    rcases ih member with before | later
    · rcases mem_enter before with old | rfl
      · exact .inl old
      · exact .inr mem_cons_self
    · exact .inr (mem_cons_of_mem _ later)

theorem Within.enterAll (within : l.Within tag t) (positive : 0 < l.perGroup)
    {es : List (κ × ν)} (nodup : (es.map Prod.fst).Nodup) (fresh : ∀ e ∈ es, e.1 ∉ t) :
    l.Within tag (l.enterAll tag t es) := by
  induction es generalizing t with
  | nil => exact within
  | cons e es ih =>
    obtain ⟨apart, nodup⟩ := nodup_cons.mp nodup
    refine ih (within.enter positive (fresh e (by simp)) e.2) nodup fun e' member inside => ?_
    rcases mem_enter inside with old | same
    · exact fresh e' (by simp [member]) old
    · exact apart (same ▸ mem_map_of_mem member)

/-- Entering entries of a table within the limits enters them all. -/
theorem enterAll_of_within (within : l.Within tag u) (sub : Sub t u) {es : List (κ × ν)}
    (found : ∀ e ∈ es, u.lookup e.1 = some e.2) :
    Sub (l.enterAll tag t es) u ∧ ∀ k, k ∈ l.enterAll tag t es ↔ k ∈ t ∨ k ∈ es.map Prod.fst := by
  induction es generalizing t with
  | nil => exact ⟨sub, by simp [enterAll]⟩
  | cons e es ih =>
    have here := enter_of_within within sub (found e (by simp))
    have subSet : Sub (t.set e.1 e.2) u := by
      intro k v look
      rw [lookup_set] at look
      split_ifs at look with same
      · cases look
        rw [same]
        exact found e (by simp)
      · exact sub k v look
    have later := ih subSet fun e' member => found e' (by simp [member])
    rw [enterAll_cons, here]
    refine ⟨later.1, fun k => ?_⟩
    rw [later.2, mem_set, map_cons, mem_cons]
    tauto

end Limits

/-- The entries in the order of a list of keys, each once. -/
def listed : List κ → Table κ ν → List (κ × ν)
  | [], _ => []
  | k :: order, t =>
    match t.lookup k with
    | none => listed order t
    | some v => (k, v) :: listed order (t.unset k)

theorem mem_listed {order : List κ} {t : Table κ ν} {k : κ} {v : ν} :
    (k, v) ∈ listed order t ↔ k ∈ order ∧ t.lookup k = some v := by
  induction order generalizing t with
  | nil => simp [listed]
  | cons first order ih =>
    unfold listed
    cases found : t.lookup first with
    | none =>
      rw [ih, mem_cons]
      refine ⟨fun both => ⟨.inr both.1, both.2⟩, fun ⟨here, look⟩ => ⟨?_, look⟩⟩
      refine here.resolve_left ?_
      rintro rfl
      rw [found] at look
      cases look
    | some v' =>
      rw [mem_cons, ih, lookup_unset]
      by_cases same : k = first
      · subst same
        simp [found, eq_comm]
      · simp [same]

theorem nodup_listed (order : List κ) (t : Table κ ν) :
    ((listed order t).map Prod.fst).Nodup := by
  induction order generalizing t with
  | nil => exact nodup_nil
  | cons k order ih =>
    unfold listed
    cases t.lookup k with
    | none => exact ih t
    | some v =>
      refine nodup_cons.mpr ⟨fun member => ?_, ih _⟩
      obtain ⟨⟨k', v'⟩, listed, rfl⟩ := mem_map.mp member
      have := (mem_listed.mp listed).2
      rw [lookup_unset, if_pos rfl] at this
      cases this

theorem eq_of_sub {t u : Table κ ν} (sub : Sub t u) (all : ∀ k, k ∈ u → k ∈ t) : t = u := by
  refine Finmap.ext_lookup fun k => ?_
  cases found : t.lookup k with
  | some v => exact (sub k v found).symm
  | none =>
    have outside : k ∉ t := Finmap.lookup_eq_none.mp found
    exact (Finmap.lookup_eq_none.mpr fun member => outside (all k member)).symm

end Table

end Kryfo.Library
