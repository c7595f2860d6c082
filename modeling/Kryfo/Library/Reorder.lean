import Kryfo.Library.Dict
import Mathlib.Data.Fintype.EquivFin

/-!
# Groups put in order in their own places

Each group of a list's items is put in the order of its numbers, in the places its items held, and
everything else stays where it is.
-/

namespace Kryfo.Library

universe u v w

variable {α : Type u} {κ : Type v} {β : Type w}

/-- A list with every group in order in the places that it held in another. -/
structure Ordered (group : α → Option (κ × Int)) (batch out : List α) : Prop where
  perm : out.Perm batch
  places : out.map (fun x => (group x).map Prod.fst) = batch.map fun x => (group x).map Prod.fst
  still : ∀ {i : Nat} {x : α}, batch[i]? = some x → group x = none → out[i]? = some x
  ascending : out.Pairwise fun a b =>
    ∀ k m n, group a = some (k, m) → group b = some (k, n) → m ≤ n

namespace Reorder

def note [DecidableEq κ] (group : α → Option (κ × Int)) (places : Dict κ (List Nat))
    (entry : α × Nat) : Dict κ (List Nat) :=
  match group entry.1 with
  | none => places
  | some (k, _) => places.set k ((places.lookup k).getD [] ++ [entry.2])

def gather [DecidableEq κ] (group : α → Option (κ × Int)) (batch : List α) :
    Dict κ (List Nat) :=
  batch.zipIdx.foldl (note group) .empty

def numberAt (group : α → Option (κ × Int)) (batch : List α) (i : Nat) : Int :=
  ((batch[i]?).bind group).elim 0 Prod.snd

/-- By the number at a place, and by the place where that is the same. -/
def Before (number : Nat → Int) (i j : Nat) : Prop :=
  number i < number j ∨ number i = number j ∧ i ≤ j

instance (number : Nat → Int) : DecidableRel (Before number) :=
  fun i j => inferInstanceAs (Decidable (number i < number j ∨ number i = number j ∧ i ≤ j))

def byNumber (number : Nat → Int) (places : List Nat) : List Nat :=
  places.insertionSort (Before number)

def put (values : List α) (out : List α) (move : Nat × Nat) : List α :=
  match values[move.2]? with
  | none => out
  | some x => out.set move.1 x

/-- The places of one group are given what stood at the sorted ones. -/
def putBack (values : List α) (number : Nat → Int) (out : List α) (places : List Nat) : List α :=
  (places.zip (byNumber number places)).foldl (put values) out

end Reorder

open Reorder List

/-- The places of each group with so many items or more are given the values of its items in
order. -/
def arrange [DecidableEq κ] (group : α → Option (κ × Int)) (least : Nat) (batch : List α)
    (values out : List β) : List β :=
  (gather group batch).values.foldl (fun out places =>
    if places.length < least then out else putBack values (numberAt group batch) out places) out

/-- Each group with so many items or more is put in order. -/
def reorder [DecidableEq κ] (group : α → Option (κ × Int)) (least : Nat) (batch : List α) :
    List α :=
  arrange group least batch batch batch

namespace Reorder

section Order

variable {number : Nat → Int} {i j : Nat}

theorem before_trans (number : Nat → Int) {i j k : Nat} (first : Before number i j)
    (second : Before number j k) : Before number i k := by
  unfold Before at *
  omega

theorem before_total (number : Nat → Int) (i j : Nat) :
    Before number i j ∨ Before number j i := by
  unfold Before
  omega

instance (number : Nat → Int) : IsTrans Nat (Before number) :=
  ⟨fun _ _ _ => before_trans number⟩

instance (number : Nat → Int) : Std.Total (Before number) := ⟨before_total number⟩

theorem byNumber_perm (places : List Nat) : (byNumber number places).Perm places :=
  perm_insertionSort _ _

theorem byNumber_pairwise (places : List Nat) :
    (byNumber number places).Pairwise (Before number) :=
  pairwise_insertionSort _ _

theorem le_of_before (before : Before number i j) : number i ≤ number j := by
  unfold Before at before
  omega

end Order

section Put

variable {values out : List α} {moves : List (Nat × Nat)} {i : Nat}

theorem length_put (move : Nat × Nat) : (put values out move).length = out.length := by
  unfold put
  split
  · rfl
  · exact length_set

theorem length_foldl_put : (moves.foldl (put values) out).length = out.length := by
  induction moves generalizing out with
  | nil => rfl
  | cons move moves ih => exact ih.trans (length_put move)

theorem getElem?_put_of_ne {move : Nat × Nat} (different : move.1 ≠ i) :
    (put values out move)[i]? = out[i]? := by
  unfold put
  split
  · rfl
  · exact getElem?_set_ne different

theorem getElem?_put_self {move : Nat × Nat} (there : move.1 < out.length)
    (found : move.2 < values.length) : (put values out move)[move.1]? = values[move.2]? := by
  rw [put, getElem?_eq_getElem found]
  exact getElem?_set_self there

theorem getElem?_foldl_put_of_notMem (absent : i ∉ moves.map Prod.fst) :
    (moves.foldl (put values) out)[i]? = out[i]? := by
  induction moves generalizing out with
  | nil => rfl
  | cons move moves ih =>
    rw [map_cons, mem_cons, not_or] at absent
    exact (ih absent.2).trans (getElem?_put_of_ne (Ne.symm absent.1))

theorem getElem?_foldl_put {source : Nat} (nodup : (moves.map Prod.fst).Nodup)
    (inside : (i, source) ∈ moves) (there : i < out.length) (found : source < values.length) :
    (moves.foldl (put values) out)[i]? = values[source]? := by
  induction moves generalizing out with
  | nil => cases inside
  | cons move moves ih =>
    rw [map_cons, nodup_cons] at nodup
    obtain rfl | later := mem_cons.mp inside
    · exact (getElem?_foldl_put_of_notMem nodup.1).trans (getElem?_put_self there found)
    · exact ih nodup.2 later (by rwa [length_put])

end Put

section Places

variable (group : α → Option (κ × Int)) (batch : List α)

def tagAt (i : Nat) : Option κ := ((batch[i]?).bind group).map Prod.fst

def placesOf [DecidableEq κ] (k : κ) : List Nat :=
  (List.range batch.length).filter fun i => tagAt group batch i = some k

variable {group batch} {k : κ} {i : Nat}

theorem tagAt_of_getElem? {x : α} (found : batch[i]? = some x) :
    tagAt group batch i = (group x).map Prod.fst := by
  rw [tagAt, found, Option.bind_some]

variable [DecidableEq κ]

theorem mem_placesOf : i ∈ placesOf group batch k ↔ tagAt group batch i = some k := by
  rw [placesOf, mem_filter, mem_range, decide_eq_true_eq, and_iff_right_iff_imp]
  intro tagged
  by_contra outside
  rw [tagAt, getElem?_eq_none (Nat.le_of_not_lt outside)] at tagged
  cases tagged

theorem lt_of_mem_placesOf (inside : i ∈ placesOf group batch k) : i < batch.length :=
  mem_range.mp (mem_filter.mp inside).1

theorem placesOf_pairwise : (placesOf group batch k).Pairwise (· < ·) :=
  pairwise_lt_range.filter _

theorem placesOf_nodup : (placesOf group batch k).Nodup :=
  placesOf_pairwise.imp ne_of_lt

theorem placesOf_concat (x : α) : placesOf group (batch ++ [x]) k = placesOf group batch k ++
      if (group x).map Prod.fst = some k then [batch.length] else [] := by
  have earlier : ∀ i ∈ List.range batch.length,
      decide (tagAt group (batch ++ [x]) i = some k) = decide (tagAt group batch i = some k) := by
    intro i inside
    rw [tagAt, getElem?_append_left (mem_range.mp inside), ← tagAt]
  have last : tagAt group (batch ++ [x]) batch.length = (group x).map Prod.fst :=
    tagAt_of_getElem? getElem?_concat_length
  rw [placesOf, length_append, length_singleton, range_succ, filter_append,
    filter_congr earlier, ← placesOf]
  split_ifs <;> simp_all

theorem gather_concat (x : α) : gather group (batch ++ [x]) =
    note group (gather group batch) (x, batch.length) := by
  rw [gather, zipIdx_append, gather]
  simp

theorem lookup_gather : (gather group batch).lookup k =
    if placesOf group batch k = [] then none else some (placesOf group batch k) := by
  induction batch using List.reverseRecOn with
  | nil => rfl
  | append_singleton batch x ih =>
    rw [gather_concat, placesOf_concat, note]
    cases tagged : group x with
    | none => simpa using ih
    | some at' =>
      obtain ⟨k', n⟩ := at'
      by_cases same : k = k'
      · subst same
        have earlier : ((gather group batch).lookup k).getD [] = placesOf group batch k := by
          rw [ih]
          split_ifs with none
          · exact none.symm
          · rfl
        simp [earlier]
      · have other : some k' ≠ some k := fun eq => same (Option.some.inj eq).symm
        simpa [same, other] using ih

theorem values_gather_disjoint : (gather group batch).values.Pairwise List.Disjoint := by
  rw [Dict.values, pairwise_map]
  refine (pairwise_map.mp (gather group batch).nodup).imp_of_mem ?_
  rintro ⟨k, places⟩ ⟨k', places'⟩ inside inside' different i member member'
  have tagged : ∀ {k places}, (k, places) ∈ (gather group batch).entries → i ∈ places →
      tagAt group batch i = some k := by
    intro k places inside member
    have found := Dict.mem_entries.mp inside
    rw [lookup_gather] at found
    split_ifs at found
    cases found
    exact mem_placesOf.mp member
  have same := (tagged inside member).symm.trans (tagged inside' member')
  exact different (Option.some.inj same)

theorem mem_values_gather {places : List Nat} : places ∈ (gather group batch).values ↔
    ∃ k, places = placesOf group batch k ∧ places ≠ [] := by
  rw [Dict.mem_values]
  refine exists_congr fun k => ?_
  rw [lookup_gather]
  split_ifs with none
  · constructor
    · rintro ⟨⟩
    · rintro ⟨rfl, some⟩
      exact absurd none some
  · constructor
    · rintro ⟨⟩
      exact ⟨rfl, none⟩
    · rintro ⟨rfl, -⟩
      rfl

end Places

section Source

variable [DecidableEq κ] (group : α → Option (κ × Int)) (batch : List α) (least : Nat)

def movesOf (places : List Nat) : List (Nat × Nat) :=
  if places.length < least then [] else places.zip (byNumber (numberAt group batch) places)

def source (i : Nat) : Nat :=
  match tagAt group batch i with
  | none => i
  | some k =>
    (byNumber (numberAt group batch) (placesOf group batch k)).getD
      ((placesOf group batch k).idxOf i) i

theorem arrange_eq (values out : List β) : arrange group least batch values out =
    ((gather group batch).values.flatMap (movesOf group batch least)).foldl (put values) out := by
  rw [arrange, foldl_flatMap]
  congr 1
  funext out places
  unfold movesOf putBack
  split_ifs <;> rfl

variable {group batch least} {k : κ} {i : Nat}

omit [DecidableEq κ] in
theorem map_fst_movesOf_sublist (places : List Nat) :
    ((movesOf group batch least places).map Prod.fst).Sublist places := by
  unfold movesOf
  split_ifs
  · exact nil_sublist _
  · rw [map_fst_zip]
    rw [byNumber, length_insertionSort]

theorem nodup_moves :
    (((gather group batch).values.flatMap (movesOf group batch least)).map Prod.fst).Nodup := by
  rw [map_flatMap, nodup_flatMap]
  constructor
  · intro places inside
    obtain ⟨k, rfl, -⟩ := mem_values_gather.mp inside
    exact placesOf_nodup.sublist (map_fst_movesOf_sublist _)
  · refine values_gather_disjoint.imp fun {places places'} apart => ?_
    intro i member member'
    exact apart ((map_fst_movesOf_sublist _).subset member)
      ((map_fst_movesOf_sublist _).subset member')

theorem source_of_untagged (untagged : tagAt group batch i = none) :
    source group batch i = i := by
  rw [source, untagged]

/-- A place of a group is given what stood at the sorted place of the same rank. -/
theorem exists_rank (tagged : tagAt group batch i = some k) :
    ∃ rank : Nat, (placesOf group batch k)[rank]? = some i ∧
      (byNumber (numberAt group batch) (placesOf group batch k))[rank]? =
        some (source group batch i) := by
  have inside := mem_placesOf.mpr tagged
  have rank := idxOf_lt_length_of_mem inside
  refine ⟨(placesOf group batch k).idxOf i, getElem?_idxOf inside, ?_⟩
  rw [source, tagged]
  dsimp only
  rw [getD_eq_getElem?_getD]
  have there : (placesOf group batch k).idxOf i <
      (byNumber (numberAt group batch) (placesOf group batch k)).length := by
    rwa [byNumber, length_insertionSort]
  rw [getElem?_eq_getElem there, Option.getD_some]

theorem tagAt_source (i : Nat) : tagAt group batch (source group batch i) = tagAt group batch i := by
  cases tagged : tagAt group batch i with
  | none => rw [source_of_untagged tagged, tagged]
  | some k =>
    obtain ⟨rank, -, found⟩ := exists_rank tagged
    exact mem_placesOf.mp ((byNumber_perm _).subset (mem_of_getElem? found))

theorem source_lt (i : Nat) (inside : i < batch.length) : source group batch i < batch.length := by
  cases tagged : tagAt group batch i with
  | none => rwa [source_of_untagged tagged]
  | some k =>
    rw [← tagAt_source] at tagged
    exact lt_of_mem_placesOf (mem_placesOf.mpr tagged)

theorem source_inj {i j : Nat} (same : source group batch i = source group batch j) : i = j := by
  have tags : tagAt group batch i = tagAt group batch j := by
    rw [← tagAt_source i, same, tagAt_source]
  cases tagged : tagAt group batch i with
  | none =>
    rw [source_of_untagged tagged, source_of_untagged (tags ▸ tagged)] at same
    exact same
  | some k =>
    obtain ⟨rank, place, found⟩ := exists_rank tagged
    obtain ⟨rank', place', found'⟩ := exists_rank (tags ▸ tagged)
    rw [same] at found
    have nodup : (byNumber (numberAt group batch) (placesOf group batch k)).Nodup :=
      (byNumber_perm _).nodup_iff.mpr placesOf_nodup
    have ranks : rank = rank' :=
      (getElem?_inj (List.getElem?_eq_some_iff.mp found).1 nodup).mp
        (found.trans found'.symm)
    rw [ranks, place'] at place
    exact (Option.some.inj place).symm

theorem number_source_le {i j : Nat} (tagged : tagAt group batch i = some k)
    (tagged' : tagAt group batch j = some k) (earlier : i < j) :
    numberAt group batch (source group batch i) ≤ numberAt group batch (source group batch j) := by
  obtain ⟨rank, place, found⟩ := exists_rank tagged
  obtain ⟨rank', place', found'⟩ := exists_rank tagged'
  obtain ⟨inside, rfl⟩ := List.getElem?_eq_some_iff.mp place
  obtain ⟨inside', rfl⟩ := List.getElem?_eq_some_iff.mp place'
  have ranks : rank < rank' := by
    by_contra notLess
    obtain same | less := Nat.eq_or_lt_of_le (Nat.le_of_not_lt notLess)
    · subst same
      exact lt_irrefl _ earlier
    · have := pairwise_iff_getElem.mp placesOf_pairwise rank' rank inside' inside less
      exact Nat.lt_asymm this earlier
  obtain ⟨there, eq⟩ := List.getElem?_eq_some_iff.mp found
  obtain ⟨there', eq'⟩ := List.getElem?_eq_some_iff.mp found'
  rw [← eq, ← eq']
  exact le_of_before (pairwise_iff_getElem.mp (byNumber_pairwise _) _ _ there there' ranks)

theorem getElem?_arrange {values out : List β} (few : least ≤ 2)
    (sameLength : values.length = batch.length) (there : i < out.length)
    (alone : 1 < least → ∀ {j k}, tagAt group batch j = some k → out[j]? = values[j]?) :
    (arrange group least batch values out)[i]? =
      if tagAt group batch i = none then out[i]? else values[source group batch i]? := by
  rw [arrange_eq]
  cases tagged : tagAt group batch i with
  | none =>
    refine getElem?_foldl_put_of_notMem fun moved => ?_
    rw [map_flatMap, mem_flatMap] at moved
    obtain ⟨places, inside, member⟩ := moved
    obtain ⟨k, rfl, -⟩ := mem_values_gather.mp inside
    rw [mem_placesOf.mp ((map_fst_movesOf_sublist _).subset member)] at tagged
    cases tagged
  | some k =>
    have inside := mem_placesOf.mpr tagged
    have member : placesOf group batch k ∈ (gather group batch).values :=
      mem_values_gather.mpr ⟨k, rfl, ne_nil_of_mem inside⟩
    obtain ⟨rank, place, found⟩ := exists_rank tagged
    by_cases small : (placesOf group batch k).length < least
    · have some := length_pos_of_mem inside
      obtain ⟨j, eq⟩ := length_eq_one_iff.mp (show (placesOf group batch k).length = 1 by
        omega)
      have single : placesOf group batch k = [i] := by
        rw [eq, mem_singleton] at inside
        rw [eq, inside]
      rw [single] at place found
      have still : source group batch i = i := by
        have there := mem_of_getElem? found
        simpa [byNumber] using there
      rw [still, ← alone (by omega) tagged]
      refine getElem?_foldl_put_of_notMem fun moved => ?_
      rw [map_flatMap, mem_flatMap] at moved
      obtain ⟨places, inside', member'⟩ := moved
      obtain ⟨k', rfl, -⟩ := mem_values_gather.mp inside'
      have tagged' := mem_placesOf.mp ((map_fst_movesOf_sublist _).subset member')
      rw [tagged] at tagged'
      cases tagged'
      rw [movesOf, if_pos small] at member'
      cases member'
    · refine getElem?_foldl_put nodup_moves (mem_flatMap.mpr ⟨_, member, ?_⟩) there ?_
      · rw [movesOf, if_neg small]
        refine mem_of_getElem? (i := rank) ?_
        rw [getElem?_zip_eq_some]
        exact ⟨place, found⟩
      · rw [sameLength]
        exact source_lt i (lt_of_mem_placesOf inside)

end Source

end Reorder

section Reorder

variable [DecidableEq κ] {group : α → Option (κ × Int)} {batch : List α} {least : Nat}

theorem length_arrange (values out : List β) :
    (arrange group least batch values out).length = out.length := by
  rw [arrange_eq, length_foldl_put]

theorem length_reorder : (reorder group least batch).length = batch.length :=
  length_arrange batch batch

theorem getElem?_reorder (few : least ≤ 2) {i : Nat} (there : i < batch.length) :
    (reorder group least batch)[i]? = batch[source group batch i]? := by
  rw [reorder, getElem?_arrange few rfl there fun _ _ _ _ => rfl]
  split_ifs with untagged
  · rw [source_of_untagged untagged]
  · rfl

/-- What each place is given, as a permutation of the places. -/
noncomputable def sources (group : α → Option (κ × Int)) (batch : List α) :
    Equiv.Perm (Fin batch.length) :=
  Equiv.ofBijective (fun i => ⟨source group batch i, source_lt i.1 i.2⟩)
    (Finite.injective_iff_bijective.mp fun _ _ same => Fin.ext (source_inj (Fin.mk.inj same)))

theorem reorder_eq_ofFn (few : least ≤ 2) : reorder group least batch =
    List.ofFn (batch.get ∘ sources group batch) := by
  refine ext_getElem? fun i => ?_
  by_cases there : i < batch.length
  · rw [getElem?_reorder few there, List.getElem?_ofFn, dif_pos there,
      getElem?_eq_getElem (source_lt i there)]
    rfl
  · rw [getElem?_eq_none (by rw [length_reorder]; omega),
      getElem?_eq_none (by rw [length_ofFn]; omega)]

theorem reorder_perm (few : least ≤ 2) : (reorder group least batch).Perm batch := by
  have permuted := Equiv.Perm.ofFn_comp_perm (sources group batch) batch.get
  rwa [← reorder_eq_ofFn few, ofFn_get] at permuted

theorem exists_getElem_reorder (few : least ≤ 2) {i : Nat} {x : α}
    (found : (reorder group least batch)[i]? = some x) :
    i < batch.length ∧ batch[source group batch i]? = some x ∧
      tagAt group batch i = (group x).map Prod.fst := by
  have there : i < batch.length := by
    have := (List.getElem?_eq_some_iff.mp found).1
    rwa [length_reorder] at this
  rw [getElem?_reorder few there] at found
  refine ⟨there, found, ?_⟩
  rw [← tagAt_source, tagAt_of_getElem? found]

/-- Each group is in order in the places it held, and everything else in its own. -/
theorem reorder_ordered (few : least ≤ 2) :
    Ordered group batch (reorder group least batch) where
  perm := reorder_perm few
  places := by
    refine ext_getElem? fun i => ?_
    rw [getElem?_map, getElem?_map]
    cases found : (reorder group least batch)[i]? with
    | none =>
      rw [List.getElem?_eq_none_iff, length_reorder] at found
      rw [getElem?_eq_none found]
    | some x =>
      obtain ⟨there, -, tag⟩ := exists_getElem_reorder few found
      rw [getElem?_eq_getElem there, Option.map_some, Option.map_some, ← tag,
        tagAt_of_getElem? (getElem?_eq_getElem there)]
  still := by
    intro i x found untagged
    have tag : tagAt group batch i = none := by rw [tagAt_of_getElem? found, untagged]; rfl
    rw [getElem?_reorder few (List.getElem?_eq_some_iff.mp found).1, source_of_untagged tag, found]
  ascending := by
    rw [pairwise_iff_getElem]
    intro i j there there' earlier k m n isM isN
    obtain ⟨-, found, tag⟩ := exists_getElem_reorder few (getElem?_eq_getElem there)
    obtain ⟨-, found', tag'⟩ := exists_getElem_reorder few (getElem?_eq_getElem there')
    rw [isM] at tag
    rw [isN] at tag'
    have le := number_source_le tag tag' earlier
    simpa [numberAt, found, found', isM, isN] using le

theorem reorder_eq_self (few : least ≤ 2) (ascending : batch.Pairwise fun a b =>
    ∀ k m n, group a = some (k, m) → group b = some (k, n) → m ≤ n) :
    reorder group least batch = batch := by
  have sorted : ∀ k, byNumber (numberAt group batch) (placesOf group batch k) =
      placesOf group batch k := by
    intro k
    refine List.Pairwise.insertionSort_eq (placesOf_pairwise.imp_of_mem ?_)
    intro i j inside inside' earlier
    have there := lt_of_mem_placesOf inside
    have there' := lt_of_mem_placesOf inside'
    have tag := mem_placesOf.mp inside
    have tag' := mem_placesOf.mp inside'
    rw [tagAt_of_getElem? (getElem?_eq_getElem there)] at tag
    rw [tagAt_of_getElem? (getElem?_eq_getElem there')] at tag'
    obtain ⟨⟨_, m⟩, isM, rfl⟩ := Option.map_eq_some_iff.mp tag
    obtain ⟨⟨_, n⟩, isN, rfl⟩ := Option.map_eq_some_iff.mp tag'
    have le := pairwise_iff_getElem.mp ascending i j there there' earlier _ m n isM isN
    have number : numberAt group batch i = m := by
      rw [numberAt, getElem?_eq_getElem there, Option.bind_some, isM]
      rfl
    have number' : numberAt group batch j = n := by
      rw [numberAt, getElem?_eq_getElem there', Option.bind_some, isN]
      rfl
    unfold Before
    omega
  have still : ∀ i, source group batch i = i := by
    intro i
    cases tagged : tagAt group batch i with
    | none => exact source_of_untagged tagged
    | some k =>
      obtain ⟨rank, place, found⟩ := exists_rank tagged
      rw [sorted k, place] at found
      exact (Option.some.inj found).symm
  refine ext_getElem? fun i => ?_
  by_cases there : i < batch.length
  · rw [getElem?_reorder few there, still]
  · rw [getElem?_eq_none (by rw [length_reorder]; omega), getElem?_eq_none (by omega)]

end Reorder

end Kryfo.Library
