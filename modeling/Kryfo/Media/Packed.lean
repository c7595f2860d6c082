import Kryfo.Helper.Slots
import Mathlib.Data.Finset.Sort
import Mathlib.Data.Int.Interval

/-!
# Records of slices

What a member of a group has taken of a file is kept as runs of numbers, `0-41,43`.
-/

namespace Kryfo.Media

open Library Helper List

/-- The loops of `packSlices`, inside the run from `i` to `j`. -/
def runsFrom (i j : Int) : List Int → List (Int × Int)
  | [] => [(i, j)]
  | n :: rest => if n = j + 1 then runsFrom i n rest else (i, j) :: runsFrom n n rest

def runText (run : Int × Int) : List Char :=
  if run.1 = run.2 then formatInt run.1 else formatInt run.1 ++ '-' :: formatInt run.2

def packSlices (slices : Finset Int) : List Char :=
  match slices.sort (· ≤ ·) with
  | [] => []
  | i :: rest => [','].intercalate ((runsFrom i i rest).map runText)

def between (first last : Int) : Finset Int := Int.instLocallyFiniteOrder.finsetIcc first last

def partSlices (part : List Char) (total : Int) : Finset Int :=
  let ends := part.splitOn '-'
  let a := intTryParse (ends.headD [])
  let b := if ends.length = 2 then intTryParse (ends.getLastD []) else a
  match a, b with
  | some a, some b =>
    if 2 < ends.length ∨ a < 0 ∨ b < a then ∅ else between a (min b (total - 1))
  | _, _ => ∅

def unpackSlices (packed : Option (List Char)) (total : Int) : Finset Int :=
  ((packed.getD []).splitOn ',').foldl (fun out part => out ∪ partSlices part total) ∅

variable {i j k total : Int} {run : Int × Int} {part : List Char}

theorem mem_between : k ∈ between i j ↔ i ≤ k ∧ k ≤ j := Finset.mem_Icc

theorem mem_unpackSlices {packed : Option (List Char)} :
    k ∈ unpackSlices packed total ↔
      ∃ part ∈ (packed.getD []).splitOn ',', k ∈ partSlices part total := by
  have fold : ∀ (parts : List (List Char)) (out : Finset Int),
      k ∈ parts.foldl (fun out part => out ∪ partSlices part total) out ↔
        k ∈ out ∨ ∃ part ∈ parts, k ∈ partSlices part total := by
    intro parts
    induction parts with
    | nil => simp
    | cons part parts ih =>
      intro out
      rw [foldl_cons, ih]
      simp [or_assoc]
  rw [unpackSlices, fold]
  simp

theorem bounds_of_mem_partSlices (inside : k ∈ partSlices part total) : 0 ≤ k ∧ k < total := by
  unfold partSlices at inside
  dsimp only at inside
  split at inside
  · split_ifs at inside with refused
    · simp at inside
    · rw [mem_between] at inside
      omega
  · simp at inside

theorem exists_run_iff (rest : List Int) (ordered : i ≤ j) :
    (∃ run ∈ runsFrom i j rest, run.1 ≤ k ∧ k ≤ run.2) ↔ (i ≤ k ∧ k ≤ j) ∨ k ∈ rest := by
  induction rest generalizing i j with
  | nil => simp [runsFrom]
  | cons n rest ih =>
    rw [runsFrom, mem_cons]
    split_ifs with next
    · have longer : i ≤ k ∧ k ≤ n ↔ (i ≤ k ∧ k ≤ j) ∨ k = n := by omega
      rw [ih (by omega), longer, or_assoc]
    · have single : n ≤ k ∧ k ≤ n ↔ k = n := by omega
      rw [← single, ← ih le_rfl]
      simp

theorem bounds_of_mem_runsFrom {rest : List Int} (nonneg : 0 ≤ i) (ordered : i ≤ j)
    (all : ∀ n ∈ rest, 0 ≤ n) (inside : run ∈ runsFrom i j rest) : 0 ≤ run.1 ∧ run.1 ≤ run.2 := by
  induction rest generalizing i j with
  | nil =>
    obtain rfl := mem_singleton.mp inside
    exact ⟨nonneg, ordered⟩
  | cons n rest ih =>
    have later : ∀ m ∈ rest, 0 ≤ m := fun m member => all m (.tail _ member)
    rw [runsFrom] at inside
    split_ifs at inside
    · exact ih nonneg (by omega) later inside
    · rcases mem_cons.mp inside with rfl | inside
      · exact ⟨nonneg, ordered⟩
      · exact ih (all n (.head _)) le_rfl later inside

theorem not_mem_formatInt {c : Char} (notDigit : c.isDigit = false) (nonneg : 0 ≤ i) :
    c ∉ formatInt i := by
  intro member
  rw [formatInt, if_neg (by omega)] at member
  rw [Nat.isDigit_of_mem_toDigits (by decide) (by decide) member] at notDigit
  contradiction

theorem intTryParse_formatInt (nonneg : 0 ≤ i) : intTryParse (formatInt i) = some i := by
  rw [formatInt, if_neg (by omega), intTryParse_toDigits, Int.natAbs_of_nonneg nonneg]

theorem partSlices_runText (nonneg : 0 ≤ run.1) (ordered : run.1 ≤ run.2) :
    partSlices (runText run) total = between run.1 (min run.2 (total - 1)) := by
  have alone {n : Int} (positive : 0 ≤ n) : (formatInt n).splitOn '-' = [formatInt n] :=
    splitOn_eq_singleton (not_mem_formatInt (by decide) positive)
  unfold partSlices runText
  split_ifs with one
  · simp [alone nonneg, intTryParse_formatInt nonneg, ← one, nonneg]
  · have nonneg' : 0 ≤ run.2 := by omega
    simp [splitOn_append_cons_self, alone nonneg, alone nonneg', intTryParse_formatInt nonneg,
      intTryParse_formatInt nonneg', nonneg, ordered]

theorem not_mem_runText (nonneg : 0 ≤ run.1) (ordered : run.1 ≤ run.2) : ',' ∉ runText run := by
  have first : ',' ∉ formatInt run.1 := not_mem_formatInt (by decide) nonneg
  have last : ',' ∉ formatInt run.2 := not_mem_formatInt (by decide) (nonneg.trans ordered)
  unfold runText
  split_ifs <;> simp [first, last]

theorem runsFrom_ne_nil (rest : List Int) : runsFrom i j rest ≠ [] := by
  induction rest generalizing i j with
  | nil => simp [runsFrom]
  | cons n rest ih =>
    rw [runsFrom]
    split_ifs
    · exact ih
    · simp

/-- A record of slices reads back as far as the file goes, and whatever is read names slices of
the file only. -/
theorem unpackSlices_packSlices :
    (∀ (slices : Finset Int) (total : Int), (∀ k ∈ slices, 0 ≤ k) →
      unpackSlices (some (packSlices slices)) total = slices.filter (· < total)) ∧
    ∀ (packed : Option (List Char)) (total k : Int),
      k ∈ unpackSlices packed total → 0 ≤ k ∧ k < total := by
  constructor
  · intro slices total nonneg
    ext k
    rw [mem_unpackSlices, Option.getD_some, packSlices, Finset.mem_filter,
      ← Finset.mem_sort (· ≤ ·)]
    have all : ∀ n ∈ slices.sort (· ≤ ·), 0 ≤ n := fun n member =>
      nonneg n ((Finset.mem_sort _).mp member)
    generalize slices.sort (· ≤ ·) = sorted at *
    cases sorted with
    | nil =>
      have empty : partSlices [] total = ∅ := rfl
      simp [empty]
    | cons i rest =>
      have bounds : ∀ run ∈ runsFrom i i rest, 0 ≤ run.1 ∧ run.1 ≤ run.2 := fun run inside =>
        bounds_of_mem_runsFrom (all i (.head _)) le_rfl (fun n member => all n (.tail _ member))
          inside
      have split : ([','].intercalate ((runsFrom i i rest).map runText)).splitOn ',' =
          (runsFrom i i rest).map runText := by
        refine splitOn_intercalate ',' ?_ (by simpa using runsFrom_ne_nil rest)
        intro part member
        obtain ⟨run, inside, rfl⟩ := mem_map.mp member
        exact not_mem_runText (bounds run inside).1 (bounds run inside).2
      have single : i ≤ k ∧ k ≤ i ↔ k = i := by omega
      rw [split, mem_cons, ← single, ← exists_run_iff rest le_rfl]
      simp only [mem_map, exists_exists_and_eq_and]
      constructor
      · rintro ⟨run, inside, member⟩
        rw [partSlices_runText (bounds run inside).1 (bounds run inside).2, mem_between] at member
        exact ⟨⟨run, inside, by omega⟩, by omega⟩
      · rintro ⟨⟨run, inside, within⟩, small⟩
        refine ⟨run, inside, ?_⟩
        rw [partSlices_runText (bounds run inside).1 (bounds run inside).2, mem_between]
        omega
  · intro packed total k inside
    obtain ⟨part, -, inside⟩ := mem_unpackSlices.mp inside
    exact bounds_of_mem_partSlices inside

theorem unpackSlices_packSlices_three :
    unpackSlices (some (packSlices {0, 1, 3})) 3 = ({0, 1, 3} : Finset Int).filter (· < 3) :=
  unpackSlices_packSlices.1 {0, 1, 3} 3 (by decide)

end Kryfo.Media
