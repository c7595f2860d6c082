import Mathlib.Data.List.Basic

/-!
# Streams cut into chunks

A cutter takes one chunk off the front of a stream, up to the first last chunk.  What is cut off is
exactly a chain of chunks, and stays one when chunks other than the last are left out.
-/

namespace Kryfo.Library

open List

variable {α : Type*}

/-- Takes one chunk off the front of a stream. -/
structure Cutter (α : Type*) where
  next : List α → Option (List α × List α)
  whole : ∀ {s chunk rest}, next s = some (chunk, rest) → s = chunk ++ rest
  proper : ∀ {s chunk rest}, next s = some (chunk, rest) → chunk ≠ []
  again : ∀ {s chunk rest}, next s = some (chunk, rest) →
    ∀ other, next (chunk ++ other) = some (chunk, other)

namespace Cutter

variable (k : Cutter α)

def IsChunk (chunk : List α) : Prop := ∀ other, k.next (chunk ++ other) = some (chunk, other)

variable {k}

variable {chunk rest s : List α}

theorem isChunk_of_next (cut : k.next s = some (chunk, rest)) :
    k.IsChunk chunk := k.again cut

theorem length_of_next (cut : k.next s = some (chunk, rest)) : rest.length < s.length := by
  have long := length_pos_of_ne_nil (k.proper cut)
  rw [k.whole cut, length_append]
  omega

variable (k)

/-- The chunks up to the first last one, and what follows it. -/
def cut (last : List α → Bool) (s : List α) : Option (List (List α) × List α) :=
  match _next : k.next s with
  | none => none
  | some (chunk, rest) =>
    if last chunk then some ([chunk], rest)
    else (cut last rest).map fun (chunks, rest) => (chunk :: chunks, rest)
termination_by s.length
decreasing_by exact length_of_next _next

/-- Chunks of which the last and no other is a last one. -/
inductive Chain (last : List α → Bool) : List (List α) → Prop where
  | single {chunk : List α} (isChunk : k.IsChunk chunk) (isLast : last chunk = true) :
      Chain last [chunk]
  | cons {chunk : List α} {chunks : List (List α)} (isChunk : k.IsChunk chunk)
      (notLast : last chunk = false) (rest : Chain last chunks) : Chain last (chunk :: chunks)

variable {k} {last : List α → Bool}

theorem cut_of_last (next : k.next s = some (chunk, rest)) (isLast : last chunk = true) :
    k.cut last s = some ([chunk], rest) := by
  rw [cut]
  split
  next none' =>
    rw [next] at none'
    cases none'
  next chunk' rest' next' =>
    rw [next] at next'
    cases next'
    rw [if_pos isLast]

theorem cut_of_not_last (next : k.next s = some (chunk, rest)) (notLast : last chunk = false) :
    k.cut last s = (k.cut last rest).map fun (chunks, rest) => (chunk :: chunks, rest) := by
  rw [cut]
  split
  next none' =>
    rw [next] at none'
    cases none'
  next chunk' rest' next' =>
    rw [next] at next'
    cases next'
    rw [if_neg (by simp [notLast])]

variable {chunks : List (List α)}

theorem chain_of_cut (isCut : k.cut last s = some (chunks, rest)) :
    k.Chain last chunks ∧ s = chunks.flatten ++ rest := by
  fun_induction cut k last s generalizing chunks rest with
  | case1 => cases isCut
  | case2 s chunk rest' next isLast =>
    cases isCut
    refine ⟨.single (isChunk_of_next next) isLast, ?_⟩
    rw [flatten_singleton]
    exact k.whole next
  | case3 s chunk rest' next notLast ih =>
    obtain ⟨⟨chunks', rest''⟩, isCut', same⟩ := Option.map_eq_some_iff.mp isCut
    cases same
    obtain ⟨chain, eq⟩ := ih isCut'
    refine ⟨.cons (isChunk_of_next next) (by simpa using notLast) chain, ?_⟩
    rw [flatten_cons, append_assoc, ← eq]
    exact k.whole next

theorem cut_flatten (chain : k.Chain last chunks) (rest : List α) :
    k.cut last (chunks.flatten ++ rest) = some (chunks, rest) := by
  induction chain with
  | single isChunk isLast =>
    rw [flatten_singleton]
    exact cut_of_last (isChunk rest) isLast
  | @cons chunk chunks isChunk notLast chain ih =>
    rw [flatten_cons, append_assoc, cut_of_not_last (isChunk _) notLast, ih]
    rfl

theorem Chain.filter (chain : k.Chain last chunks) {keep : List α → Bool}
    (keepsLast : ∀ chunk, last chunk = true → keep chunk = true) :
    k.Chain last (chunks.filter keep) := by
  induction chain with
  | single isChunk isLast =>
    rw [filter_cons_of_pos (keepsLast _ isLast)]
    exact .single isChunk isLast
  | @cons chunk chunks isChunk notLast chain ih =>
    rw [filter_cons]
    split
    · exact .cons isChunk notLast ih
    · exact ih

/-- A chain seen from outside: chunks, of which the last is a last one. -/
theorem Chain.ends (chain : k.Chain last chunks) :
    (∀ chunk ∈ chunks, k.IsChunk chunk) ∧
      ∃ init chunk, chunks = init ++ [chunk] ∧ last chunk = true ∧ ∀ c ∈ init, last c = false := by
  induction chain with
  | @single chunk isChunk isLast =>
    refine ⟨?_, [], chunk, rfl, isLast, nofun⟩
    intro c inside
    rw [mem_singleton.mp inside]
    exact isChunk
  | @cons chunk chunks isChunk notLast chain ih =>
    obtain ⟨isChunks, init, end', rfl, isLast, notLasts⟩ := ih
    refine ⟨?_, chunk :: init, end', rfl, isLast, ?_⟩
    · intro c inside
      rcases mem_cons.mp inside with rfl | later
      · exact isChunk
      · exact isChunks c later
    · intro c inside
      rcases mem_cons.mp inside with rfl | later
      · exact notLast
      · exact notLasts c later

/-! ## Chunks that say their length -/

section

variable (head : Nat) (size : List α → Option Nat)

/-- The chunk whose first `head` elements tell its length. -/
def sizedNext (s : List α) : Option (List α × List α) :=
  if s.length < head then none
  else
    match size s with
    | none => none
    | some n => if s.length < n then none else some (s.take n, s.drop n)

theorem sizedNext_eq_some_iff :
    sizedNext head size s = some (chunk, rest) ↔
      head ≤ s.length ∧ ∃ n, size s = some n ∧ n ≤ s.length ∧ chunk = s.take n ∧ rest = s.drop n := by
  unfold sizedNext
  constructor
  · intro next
    split at next
    next => cases next
    next long =>
      split at next
      next => cases next
      next n eq =>
        split at next
        next => cases next
        next fits =>
          cases next
          exact ⟨by omega, n, eq, by omega, rfl, rfl⟩
  · rintro ⟨long, n, eq, fits, rfl, rfl⟩
    rw [if_neg (by omega), eq]
    dsimp only
    rw [if_neg (by omega)]

variable {head size} (positive : 0 < head) (least : ∀ s n, size s = some n → head ≤ n)
  (reads : ∀ a b, head ≤ a.length → size (a ++ b) = size a)

include positive least reads

def sized : Cutter α where
  next := sizedNext head size
  whole := by
    intro s chunk rest next
    obtain ⟨-, n, -, -, rfl, rfl⟩ := (sizedNext_eq_some_iff head size).mp next
    exact (take_append_drop n s).symm
  proper := by
    intro s chunk rest next
    obtain ⟨long, n, eq, fits, rfl, rfl⟩ := (sizedNext_eq_some_iff head size).mp next
    have := least _ _ eq
    apply ne_nil_of_length_pos
    rw [length_take]
    omega
  again := by
    intro s chunk rest next other
    obtain ⟨long, n, eq, fits, rfl, rfl⟩ := (sizedNext_eq_some_iff head size).mp next
    have most := least _ _ eq
    have taken : (s.take n).length = n := by
      rw [length_take]
      omega
    have same : size (s.take n ++ other) = some n := by
      rw [reads _ other (by omega), ← eq, ← reads _ (s.drop n) (by omega), take_append_drop]
    rw [sizedNext_eq_some_iff]
    refine ⟨?_, n, same, ?_, ?_, ?_⟩
    · rw [length_append]
      omega
    · rw [length_append]
      omega
    · rw [take_left' taken]
    · rw [drop_left' taken]

theorem size_of_isChunk (isChunk : (sized positive least reads).IsChunk chunk) :
    head ≤ chunk.length ∧ size chunk = some chunk.length := by
  have alone := isChunk []
  obtain ⟨long, n, eq, fits, taken, -⟩ := (sizedNext_eq_some_iff head size).mp alone
  rw [append_nil] at long eq fits taken
  have same : n = chunk.length := by
    have := congrArg List.length taken
    rw [length_take] at this
    omega
  exact ⟨long, same ▸ eq⟩

end

end Cutter

end Kryfo.Library
