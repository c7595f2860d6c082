import Mathlib

/-!
# Unfinished files past the cap

Past a cap on the weight and the number of unfinished files whole files go: one too heavy on its
own first, then the one whose last slice came longest ago; one that is being put together stays.
-/

namespace Kryfo.Media

open List

structure Unfinished where
  bytes : Nat
  last : Int

structure Held (Id : Type) where
  keys : List Id
  nodup : keys.Nodup
  file : Id → Unfinished

namespace Held

variable {Id : Type} (held : Held Id) (bytes files : Int)

def weight (ids : List Id) : Int := (ids.map fun id => ((held.file id).bytes : Int)).sum

def alone (id : Id) : Bool := bytes < (held.file id).bytes

/-- The loop: files go while what is left does not fit. -/
def dropped : List Id → Int → Int → List Id
  | [], _, _ => []
  | id :: order, weight, count =>
    if weight ≤ bytes ∧ count ≤ files then []
    else id :: dropped order (weight - (held.file id).bytes) (count - 1)

/-! ## The loop -/

section Loop

variable {held bytes files}

theorem weight_cons (id : Id) (ids : List Id) :
    held.weight (id :: ids) = (held.file id).bytes + held.weight ids := by
  simp [weight]

theorem dropped_isPrefix (order : List Id) (weight count : Int) :
    held.dropped bytes files order weight count <+: order := by
  induction order generalizing weight count with
  | nil => simp [dropped]
  | cons id order induction =>
    simp only [dropped]
    split
    · exact nil_prefix
    · exact prefix_cons_inj id |>.mpr (induction _ _)

theorem dropped_fits (order : List Id) (weight count : Int) :
    held.dropped bytes files order weight count = order ∨
      weight - held.weight (held.dropped bytes files order weight count) ≤ bytes ∧
        count - (held.dropped bytes files order weight count).length ≤ files := by
  induction order generalizing weight count with
  | nil => simp [dropped]
  | cons id order induction =>
    simp only [dropped]
    split
    · next fits => exact .inr (by simpa [Held.weight] using fits)
    · refine (induction (weight - (held.file id).bytes) (count - 1)).imp (by simp [·]) ?_
      rw [weight_cons, length_cons]
      omega

theorem not_fits_of_isPrefix_dropped (order : List Id) (weight count : Int) {start : List Id}
    (isStart : start <+: held.dropped bytes files order weight count)
    (proper : start ≠ held.dropped bytes files order weight count) :
    ¬(weight - held.weight start ≤ bytes ∧ count - start.length ≤ files) := by
  induction order generalizing weight count start with
  | nil => exact absurd (prefix_nil.mp isStart) proper
  | cons id order induction =>
    simp only [dropped] at isStart proper
    split at isStart
    · next fits => exact absurd (prefix_nil.mp isStart) (by simpa [fits] using proper)
    · next heavy =>
      rw [if_neg heavy] at proper
      cases start with
      | nil => simpa [Held.weight] using heavy
      | cons first start =>
        obtain ⟨rfl, isStart⟩ := cons_prefix_cons.mp isStart
        have := induction _ _ isStart (fun same => proper (by rw [same]))
        rw [weight_cons, length_cons]
        omega

theorem bytes_le_weight {ids : List Id} {id : Id} (isIn : id ∈ ids) :
    ((held.file id).bytes : Int) ≤ held.weight ids :=
  single_le_sum (by simp) _ (mem_map_of_mem isIn)

end Loop

/-! ## The files in their order -/

variable [LinearOrder Id]

def GoesBefore (a b : Id) : Prop :=
  if held.alone bytes a ≠ held.alone bytes b then held.alone bytes a = true
  else if (held.file a).last ≠ (held.file b).last then (held.file a).last < (held.file b).last
  else a ≤ b

instance : DecidableRel (held.GoesBefore bytes) := fun a b => by
  unfold GoesBefore
  infer_instance

def order (keep : Finset Id) : List Id :=
  (held.keys.filter (· ∉ keep)).insertionSort (held.GoesBefore bytes)

def unfinishedPastCap (keep : Finset Id) : List Id :=
  if held.weight held.keys ≤ bytes ∧ (held.keys.length : Int) ≤ files then []
  else held.dropped bytes files (held.order bytes keep) (held.weight held.keys) held.keys.length

def left (gone : List Id) : List Id := held.keys.filter (· ∉ gone)

def Fits (gone : List Id) : Prop :=
  held.weight (held.left gone) ≤ bytes ∧ ((held.left gone).length : Int) ≤ files

instance : Std.Total (held.GoesBefore bytes) where
  total a b := by
    simp only [GoesBefore]
    grind

instance : IsTrans Id (held.GoesBefore bytes) where
  trans a b c := by
    simp only [GoesBefore]
    grind

variable {held bytes files} {keep : Finset Id}

theorem mem_order {id : Id} : id ∈ held.order bytes keep ↔ id ∈ held.keys ∧ id ∉ keep := by
  simp [order]

theorem order_nodup : (held.order bytes keep).Nodup :=
  (perm_insertionSort _ _).nodup_iff.mpr (held.nodup.filter _)

theorem order_sorted : (held.order bytes keep).Pairwise (held.GoesBefore bytes) :=
  pairwise_insertionSort _ _

theorem last_le_of_goesBefore {a b : Id} (before : held.GoesBefore bytes a b)
    (same : held.alone bytes a = held.alone bytes b) :
    (held.file a).last ≤ (held.file b).last := by
  simp only [GoesBefore, same, ne_eq, not_true_eq_false, if_false] at before
  split at before
  · exact before.le
  · next sameTime => exact (not_not.mp sameTime).le

theorem keys_perm {gone : List Id} (nodup : gone.Nodup) (isKey : ∀ id ∈ gone, id ∈ held.keys) :
    held.keys.Perm (gone ++ held.left gone) := by
  have went : (held.keys.filter (· ∈ gone)).Perm gone := by
    rw [perm_ext_iff_of_nodup (held.nodup.filter _) nodup]
    simpa using isKey
  have parts := filter_append_perm (fun id => decide (id ∈ gone)) held.keys
  simp only [← decide_not] at parts
  exact parts.symm.trans (went.append_right _)

theorem fits_iff {gone : List Id} (nodup : gone.Nodup) (isKey : ∀ id ∈ gone, id ∈ held.keys) :
    held.Fits bytes files gone ↔ held.weight held.keys - held.weight gone ≤ bytes ∧
        (held.keys.length : Int) - gone.length ≤ files := by
  have parts := keys_perm nodup isKey
  have weighs : held.weight held.keys = held.weight gone + held.weight (held.left gone) := by
    simp only [weight, (parts.map _).sum_eq, map_append, sum_append]
  have number : held.keys.length = gone.length + (held.left gone).length := by
    rw [parts.length_eq, length_append]
  simp only [Fits]
  omega

/-! ## What goes -/

theorem unfinishedPastCap_eq : held.unfinishedPastCap bytes files keep =
    held.dropped bytes files (held.order bytes keep) (held.weight held.keys) held.keys.length := by
  unfold unfinishedPastCap
  split
  · next fits => cases held.order bytes keep <;> simp [dropped, fits]
  · rfl

theorem isPrefix_order :
    held.unfinishedPastCap bytes files keep <+: held.order bytes keep := by
  rw [unfinishedPastCap_eq]
  exact dropped_isPrefix _ _ _

theorem fits_iff_of_isPrefix {start : List Id} (isStart : start <+: held.order bytes keep) :
    held.Fits bytes files start ↔ held.weight held.keys - held.weight start ≤ bytes ∧
        (held.keys.length : Int) - start.length ≤ files :=
  fits_iff (order_nodup.sublist isStart.sublist) fun _ isIn =>
    (mem_order.mp (isStart.subset isIn)).1

theorem fits_or_eq_order :
    held.unfinishedPastCap bytes files keep = held.order bytes keep ∨
      held.Fits bytes files (held.unfinishedPastCap bytes files keep) := by
  rw [fits_iff_of_isPrefix isPrefix_order, unfinishedPastCap_eq]
  exact dropped_fits _ _ _

theorem not_fits_of_isPrefix {start : List Id}
    (isStart : start <+: held.unfinishedPastCap bytes files keep)
    (proper : start ≠ held.unfinishedPastCap bytes files keep) : ¬held.Fits bytes files start := by
  rw [fits_iff_of_isPrefix (isStart.trans isPrefix_order)]
  rw [unfinishedPastCap_eq] at isStart proper
  exact not_fits_of_isPrefix_dropped _ _ _ isStart proper

theorem mem_left {gone : List Id} {id : Id} : id ∈ held.left gone ↔ id ∈ held.keys ∧ id ∉ gone := by
  simp [left]

/-- A file that goes stands before one that may go and stays. -/
theorem goesBefore_of_mem {gone id : Id} (went : gone ∈ held.unfinishedPastCap bytes files keep)
    (stays : id ∈ held.left (held.unfinishedPastCap bytes files keep)) (mayGo : id ∉ keep) :
    held.GoesBefore bytes gone id := by
  obtain ⟨rest, split⟩ : held.unfinishedPastCap bytes files keep <+: held.order bytes keep :=
    isPrefix_order
  obtain ⟨isKey, notGone⟩ := mem_left.mp stays
  have inRest : id ∈ rest := by
    have inOrder : id ∈ held.order bytes keep := mem_order.mpr ⟨isKey, mayGo⟩
    rw [← split, mem_append] at inOrder
    exact inOrder.resolve_left notGone
  have sorted : (held.order bytes keep).Pairwise (held.GoesBefore bytes) := order_sorted
  rw [← split] at sorted
  exact (pairwise_append.mp sorted).2.2 gone went id inRest

/-- The rest fits as soon as it can, no file that is being put together goes, and of the
others none stays that is too heavy on its own, and none whose last slice is older than that of
one that went and was not. -/
theorem unfinishedPastCap_fewest (held : Held Id) (bytes files : Int) (keep : Finset Id) :
    (held.Fits bytes files (held.unfinishedPastCap bytes files keep) ∨
        ∀ id ∈ held.left (held.unfinishedPastCap bytes files keep), id ∈ keep) ∧
      (∀ id ∈ held.unfinishedPastCap bytes files keep, id ∈ held.keys ∧ id ∉ keep) ∧
      (∀ start, start <+: held.unfinishedPastCap bytes files keep →
        start ≠ held.unfinishedPastCap bytes files keep → ¬held.Fits bytes files start) ∧
      (∀ id ∈ held.left (held.unfinishedPastCap bytes files keep), id ∉ keep →
        held.alone bytes id = false) ∧
      ∀ gone ∈ held.unfinishedPastCap bytes files keep,
        ∀ id ∈ held.left (held.unfinishedPastCap bytes files keep), id ∉ keep →
          held.alone bytes gone = false → (held.file gone).last ≤ (held.file id).last := by
  have onlyKept (all : held.unfinishedPastCap bytes files keep = held.order bytes keep) :
      ∀ id ∈ held.left (held.unfinishedPastCap bytes files keep), id ∈ keep := by
    intro id stays
    obtain ⟨isKey, notGone⟩ := mem_left.mp stays
    by_contra mayGo
    exact notGone (all ▸ mem_order.mpr ⟨isKey, mayGo⟩)
  have light : ∀ id ∈ held.left (held.unfinishedPastCap bytes files keep), id ∉ keep →
      held.alone bytes id = false := by
    intro id stays mayGo
    obtain all | fits : _ ∨ held.Fits bytes files (held.unfinishedPastCap bytes files keep) :=
      fits_or_eq_order
    · exact absurd (onlyKept all id stays) mayGo
    · simp only [alone, decide_eq_false_iff_not, not_lt]
      exact (bytes_le_weight stays).trans fits.1
  refine ⟨fits_or_eq_order.symm.imp_right onlyKept, ?_, fun start => not_fits_of_isPrefix, light, ?_⟩
  · intro id went
    exact mem_order.mp (isPrefix_order.subset went)
  · intro gone went id stays mayGo notAlone
    exact last_le_of_goesBefore (goesBefore_of_mem went stays mayGo)
      (notAlone.trans (light id stays mayGo).symm)

/-- Three files; the first is over a cap of ten on its own. -/
def threeFiles : Held String where
  keys := ["big", "old", "new"]
  nodup := by decide
  file id := if id = "big" then ⟨20, 1⟩ else if id = "old" then ⟨3, 0⟩ else ⟨5, 2⟩

theorem unfinishedPastCap_fewest_threeFiles :
    threeFiles.unfinishedPastCap 10 9 {"old"} = ["big"] ∧ threeFiles.Fits 10 9 ["big"] ∧
      ¬threeFiles.Fits 10 9 [] := by
  have fewest := unfinishedPastCap_fewest threeFiles 10 9 {"old"}
  have went : threeFiles.unfinishedPastCap 10 9 {"old"} = ["big"] := by decide
  rw [went] at fewest
  exact ⟨went, fewest.1.resolve_right (by decide), fewest.2.2.1 [] (by simp) (by simp)⟩

/-- The files that are being put together stay when they are too heavy alone, and when they
are older than the one that goes. -/
theorem putTogether_stays :
    threeFiles.unfinishedPastCap 10 9 {"big", "old"} = ["new"] ∧
      "big" ∈ threeFiles.left ["new"] ∧ threeFiles.alone 10 "big" = true ∧
      "old" ∈ threeFiles.left ["new"] ∧ threeFiles.alone 10 "old" = false ∧
      threeFiles.alone 10 "new" = false ∧
      (threeFiles.file "old").last < (threeFiles.file "new").last := by
  decide

end Held

end Kryfo.Media
