import Mathlib.Data.List.Nodup

/-!
# A map that remembers the order of its keys

Keys come out in the order they were first put in.  A key that is set again keeps
its place.
-/

namespace Kryfo.Library

open List

universe u v

/-- An association list without a key twice. -/
structure Dict (κ : Type u) (ν : Type v) where
  entries : List (κ × ν)
  nodup : (entries.map Prod.fst).Nodup

namespace Dict

variable {κ : Type u} {ν : Type v}

variable {d : Dict κ ν}

theorem ext {e : Dict κ ν} (same : d.entries = e.entries) : d = e := by
  cases d
  cases e
  obtain rfl := same
  rfl

def empty : Dict κ ν := ⟨[], nodup_nil⟩

def values (d : Dict κ ν) : List ν := d.entries.map Prod.snd

def keep (p : κ → ν → Bool) (d : Dict κ ν) : Dict κ ν where
  entries := d.entries.filter fun e => p e.1 e.2
  nodup := d.nodup.sublist (filter_sublist.map Prod.fst)

variable [DecidableEq κ]

def lookup (d : Dict κ ν) (k : κ) : Option ν := d.entries.lookup k

def has (d : Dict κ ν) (k : κ) : Bool := (d.lookup k).isSome

def remove (k : κ) (d : Dict κ ν) : Dict κ ν := d.keep fun k' _ => k' ≠ k

variable {k : κ} {v : ν}

theorem mem_entries : (k, v) ∈ d.entries ↔ d.lookup k = some v := by
  obtain ⟨entries, nodup⟩ := d
  change (k, v) ∈ entries ↔ entries.lookup k = some v
  induction entries with
  | nil => simp
  | cons e entries ih =>
    obtain ⟨k', v'⟩ := e
    obtain ⟨outside, rest⟩ := nodup_cons.mp nodup
    rw [lookup_cons]
    by_cases same : k = k'
    · subst same
      have absent : (k, v) ∉ entries := fun member =>
        outside (mem_map.mpr ⟨_, member, rfl⟩)
      simp [absent, eq_comm]
    · have unequal : (k == k') = false := by simpa using same
      simp [same, unequal, ih rest]

/-- Looking through the entries finds the same, however the keys are compared. -/
theorem lookup_entries [eq : BEq κ] [LawfulBEq κ] (d : Dict κ ν) (k : κ) :
    @List.lookup κ ν eq k d.entries = d.lookup k := by
  have same : eq = instBEqOfDecidableEq := lawful_beq_subsingleton eq instBEqOfDecidableEq
  subst same
  rfl

theorem has_iff : d.has k = true ↔ ∃ v, d.lookup k = some v := by
  rw [has, Option.isSome_iff_exists]

theorem mem_values : v ∈ d.values ↔ ∃ k, d.lookup k = some v := by
  simp only [values, mem_map, Prod.exists, exists_eq_right, mem_entries]

private theorem map_set (k : κ) (v : ν) (entries : List (κ × ν)) :
    (entries.map fun e => if e.1 = k then (k, v) else e).map Prod.fst = entries.map Prod.fst := by
  rw [map_map]
  refine map_congr_left fun e _ => ?_
  by_cases same : e.1 = k
  · simp [same]
  · simp [same]

/-- A key there is takes the value in its place, another comes last. -/
def set (k : κ) (v : ν) (d : Dict κ ν) : Dict κ ν :=
  if present : k ∈ d.entries.map Prod.fst then
    { entries := d.entries.map fun e => if e.1 = k then (k, v) else e
      nodup := by rw [map_set]; exact d.nodup }
  else
    { entries := d.entries ++ [(k, v)]
      nodup := by
        rw [map_append]
        exact d.nodup.append (nodup_singleton k) (by simpa using present) }

@[simp] theorem lookup_empty (k : κ) : (empty : Dict κ ν).lookup k = none := rfl

theorem lookup_keep (p : κ → ν → Bool) (d : Dict κ ν) (k : κ) :
    (d.keep p).lookup k = (d.lookup k).filter (p k) := by
  refine Option.ext fun v => ?_
  rw [← mem_entries, Option.filter_eq_some_iff, ← mem_entries]
  simp [keep]

@[simp] theorem lookup_remove (k : κ) (d : Dict κ ν) (k' : κ) :
    (d.remove k).lookup k' = if k' = k then none else d.lookup k' := by
  rw [remove, lookup_keep]
  split_ifs with same
  · simp [same]
  · cases d.lookup k' <;> simp [same]

@[simp] theorem lookup_set (k : κ) (v : ν) (d : Dict κ ν) (k' : κ) :
    (d.set k v).lookup k' = if k' = k then some v else d.lookup k' := by
  refine Option.ext fun w => ?_
  rw [← mem_entries, set]
  split_ifs with present same same
  · subst same
    obtain ⟨e, inside, isKey⟩ := mem_map.mp present
    simp only [mem_map]
    constructor
    · rintro ⟨e', -, eq⟩
      split_ifs at eq with here
      · simpa using congrArg Prod.snd eq
      · exact absurd (congrArg Prod.fst eq) here
    · intro eq
      exact ⟨e, inside, by simp [isKey, Option.some.inj eq]⟩
  · rw [← mem_entries, mem_map]
    constructor
    · rintro ⟨e', inside, eq⟩
      split_ifs at eq with here
      · exact absurd (congrArg Prod.fst eq).symm same
      · exact eq ▸ inside
    · exact fun inside => ⟨_, inside, by simp [same]⟩
  · subst same
    have absent : (k', w) ∉ d.entries := fun inside =>
      present (mem_map_of_mem inside)
    simp [absent, eq_comm]
  · rw [← mem_entries]
    simp [same]

/-- The map of a list of entries, the last of a key counting. -/
def ofList (es : List (κ × ν)) : Dict κ ν := es.foldl (fun d e => d.set e.1 e.2) empty

variable {es : List (κ × ν)}

theorem lookup_foldl_set (found : (es.foldl (fun d e => d.set e.1 e.2) d).lookup k = some v) :
    (k, v) ∈ es ∨ d.lookup k = some v := by
  induction es generalizing d with
  | nil => exact .inr found
  | cons e es ih =>
    obtain later | before := ih found
    · exact .inl (mem_cons_of_mem _ later)
    · rw [lookup_set] at before
      split_ifs at before with same
      · refine .inl (mem_cons.mpr (.inl ?_))
        rw [same, ← Option.some.inj before]
      · exact .inr before

theorem mem_of_lookup_ofList (found : (ofList es).lookup k = some v) : (k, v) ∈ es := by
  obtain inside | before := lookup_foldl_set found
  · exact inside
  · simp at before

theorem has_foldl_set (given : k ∈ es.map Prod.fst ∨ d.has k = true) :
    (es.foldl (fun d e => d.set e.1 e.2) d).has k = true := by
  induction es generalizing d with
  | nil => simpa using given
  | cons e es ih =>
    refine ih ?_
    rw [map_cons, mem_cons] at given
    rcases given with (same | later) | before
    · simp [has, same]
    · exact .inl later
    · right
      rw [has, lookup_set]
      split_ifs
      · rfl
      · exact before

theorem has_ofList (inside : (k, v) ∈ es) : (ofList es).has k = true :=
  has_foldl_set (.inl (mem_map_of_mem inside))

/-- Putting the entries of a map into an empty one, in their order, gives the map. -/
theorem ofList_entries (d : Dict κ ν) : ofList d.entries = d := by
  have all : ∀ (es : List (κ × ν)) (e : Dict κ ν), ((e.entries ++ es).map Prod.fst).Nodup →
      (es.foldl (fun d e => d.set e.1 e.2) e).entries = e.entries ++ es := by
    intro es
    induction es with
    | nil => simp
    | cons e es ih =>
      intro d nodup
      have outside : e.1 ∉ d.entries.map Prod.fst := fun inside => by
        rw [map_append] at nodup
        exact disjoint_of_nodup_append nodup inside (by simp)
      have one : (d.set e.1 e.2).entries = d.entries ++ [e] := by
        rw [set, dif_neg outside]
      rw [foldl_cons, ih _ (by simpa [one] using nodup), one]
      simp
  exact ext (all d.entries empty d.nodup)

def mapValues (f : ν → ν) (d : Dict κ ν) : Dict κ ν where
  entries := d.entries.map fun e => (e.1, f e.2)
  nodup := by
    rw [map_map]
    exact d.nodup

@[simp] theorem lookup_mapValues (f : ν → ν) (d : Dict κ ν) (k : κ) :
    (d.mapValues f).lookup k = (d.lookup k).map f := by
  refine Option.ext fun v => ?_
  rw [← mem_entries, Option.map_eq_some_iff]
  simp only [mapValues, mem_map, Prod.mk.injEq, Prod.exists]
  constructor
  · rintro ⟨k', w, inside, rfl, rfl⟩
    exact ⟨w, mem_entries.mp inside, rfl⟩
  · rintro ⟨w, found, rfl⟩
    exact ⟨k, w, mem_entries.mpr found, rfl, rfl⟩

end Dict

end Kryfo.Library
