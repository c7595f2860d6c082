import Mathlib.Data.List.Nodup

/-!
# Lists without a key twice

An element is put at the end of a list unless one of its key is there.  The elements of each
key, put one after another, are the whole list.
-/

namespace Kryfo.Library

open List

variable {α κ : Type*} [DecidableEq κ]

def Distinct (key : α → κ) (xs : List α) : Prop := (xs.map key).Nodup

def addNew (key : α → κ) (xs : List α) (x : α) : List α :=
  if xs.any fun y => key y = key x then xs else xs ++ [x]

section

variable {key : α → κ} {xs ys : List α} {x : α}

omit [DecidableEq κ] in
theorem distinct_nil : Distinct key [] := nodup_nil

omit [DecidableEq κ] in
theorem distinct_append :
    Distinct key (xs ++ ys) ↔
      Distinct key xs ∧ Distinct key ys ∧ ∀ x ∈ xs, ∀ y ∈ ys, key x ≠ key y := by
  simp only [Distinct, map_append, nodup_append, mem_map, forall_exists_index,
    and_imp, forall_apply_eq_imp_iff₂]

omit [DecidableEq κ] in
theorem Distinct.sublist (distinct : Distinct key ys) (sub : xs.Sublist ys) : Distinct key xs :=
  List.Nodup.sublist (sub.map key) distinct

theorem distinct_addNew (distinct : Distinct key xs) (x : α) :
    Distinct key (addNew key xs x) := by
  unfold addNew
  split_ifs with there
  · exact distinct
  · refine distinct_append.mpr ⟨distinct, nodup_singleton _, ?_⟩
    intro y inside z last
    obtain rfl := mem_singleton.mp last
    intro same
    exact there (any_eq_true.mpr ⟨y, inside, decide_eq_true same⟩)

theorem exists_addNew (key : α → κ) (xs : List α) (x : α) :
    ∃ added, addNew key xs x = xs ++ added ∧ ∀ y ∈ added, y = x := by
  unfold addNew
  split_ifs
  · exact ⟨[], (append_nil xs).symm, fun _ none => absurd none not_mem_nil⟩
  · exact ⟨[x], rfl, fun _ last => mem_singleton.mp last⟩

theorem distinct_foldl_addNew (distinct : Distinct key xs) (ys : List α) :
    Distinct key (ys.foldl (addNew key) xs) := by
  induction ys generalizing xs with
  | nil => exact distinct
  | cons y ys ih => exact ih (distinct_addNew distinct y)

theorem exists_foldl_addNew (key : α → κ) (xs ys : List α) :
    ∃ added, ys.foldl (addNew key) xs = xs ++ added ∧ ∀ y ∈ added, y ∈ ys := by
  induction ys generalizing xs with
  | nil => exact ⟨[], (append_nil xs).symm, fun _ inside => inside⟩
  | cons y ys ih =>
    obtain ⟨first, put, isFirst⟩ := exists_addNew key xs y
    obtain ⟨rest, puts, fromRest⟩ := ih (addNew key xs y)
    refine ⟨first ++ rest, ?_, ?_⟩
    · rw [foldl_cons, puts, put, append_assoc]
    · intro z inside
      rcases mem_append.mp inside with inside | inside
      · exact mem_cons.mpr (.inl (isFirst z inside))
      · exact mem_cons_of_mem y (fromRest z inside)

end

/-- Items put together by their keys, in the order the keys first came, are all the items. -/
theorem flatMap_filter_perm [BEq κ] [LawfulBEq κ] {key : α → Option κ} (xs : List α)
    (named : ∀ x ∈ xs, (key x).isSome = true) :
    ((xs.filterMap key).eraseDups.flatMap fun k => xs.filter fun x => key x = some k).Perm xs := by
  induction size : xs.length using Nat.strongRecOn generalizing xs with
  | ind n ih =>
    cases xs with
    | nil => rfl
    | cons x xs =>
      obtain ⟨k, isKey⟩ := Option.isSome_iff_exists.mp (named x mem_cons_self)
      let others := xs.filter fun y => !decide (key y = some k)
      have rest : ((x :: xs).filter fun y => !decide (key y = some k)) = others :=
        filter_cons_of_neg (by simp [isKey])
      have keys : (xs.filterMap key).filter (fun u => !u == k) = others.filterMap key := by
        rw [filter_filterMap, filterMap_filter]
        refine filterMap_congr fun y _ => ?_
        cases key y with
        | none => rfl
        | some u => by_cases same : u = k <;> simp [same]
      have apart : ∀ u ∈ (others.filterMap key).eraseDups,
          ((x :: xs).filter fun y => key y = some u) = others.filter fun y => key y = some u := by
        intro u member
        obtain ⟨y, inside, isKey'⟩ := mem_filterMap.mp (mem_eraseDups.mp member)
        have other : u ≠ k := by
          rintro rfl
          simpa [isKey'] using (mem_filter.mp inside).2
        rw [filter_cons_of_neg (by simp [isKey, other.symm]), filter_filter]
        refine filter_congr fun z _ => ?_
        by_cases same : key z = some u <;> simp [same, other]
      rw [filterMap_cons_some isKey, eraseDups_cons, flatMap_cons, keys, flatMap_congr apart]
      refine ((ih _ ?_ others (fun y inside => ?_) rfl).append_left _).trans ?_
      · exact size ▸ Nat.lt_succ_of_le (length_filter_le ..)
      · exact named y (mem_cons_of_mem _ (mem_of_mem_filter inside))
      · exact rest ▸ filter_append_perm (fun y => decide (key y = some k)) (x :: xs)

end Kryfo.Library
