import Kryfo.Backup.Frames

/-!
# What the reader's headers find

A header is read from the bytes a frame starts with.  `Spans` says that the headers
of a stretch of the file find given records one after another.
-/

namespace Kryfo.Backup

open Library List

variable {cipher : ChunkCipher} {x : Bytes} {pos : Nat}

theorem header_cases {r : Rec} (read : header x pos = .ok r) :
    r.start = pos + 5 ∧ r.start + r.len ≤ x.length ∧ r.len < 2 ^ 32 ∧
      x.drop pos = UInt8.ofNat r.type :: be32 r.len ++ sealedAt x r ++ x.drop (r.start + r.len) := by
  dsimp only [header] at read
  split_ifs at read with before short type past
  obtain rfl := Except.ok.inj read
  have five : ((x.drop pos).take 5).length = 5 := by
    rw [length_take, length_drop]
    omega
  obtain ⟨b, c, split⟩ : ∃ b c, (x.drop pos).take 5 = b :: c :=
    exists_cons_of_length_pos (by omega)
  have four : c.length = 4 := by
    have := congrArg List.length split
    rw [length_cons] at this
    omega
  have bound : u32 c < 2 ^ 32 := by
    have same := congrArg u32 (be32_u32 four)
    rw [u32_be32] at same
    omega
  have shape : x.drop pos = b :: c ++ x.drop (pos + 5) := by
    rw [← split, ← drop_drop, take_append_drop]
  simp only [split, drop_succ_cons, drop_zero, not_lt] at past ⊢
  have rest : (x.drop (pos + 5)).take (u32 c) ++ x.drop (pos + 5 + u32 c) = x.drop (pos + 5) := by
    have := take_append_drop (u32 c) (x.drop (pos + 5))
    rwa [drop_drop] at this
  refine ⟨trivial, past, bound, ?_⟩
  rw [UInt8.ofNat_toNat, be32_u32 four, shape, append_assoc]
  exact congrArg (b :: c ++ ·) rest.symm

theorem length_sealedAt {r : Rec} (inside : r.start + r.len ≤ x.length) :
    (sealedAt x r).length = r.len := by
  rw [sealedAt, length_take, length_drop]
  omega

def Typed (r : Record) : Prop := recManifest ≤ r.1 ∧ r.1 ≤ recEnd

variable {index : Nat}

theorem header_frame {r : Record} {rest : Bytes} (typed : Typed r)
    (short : (cipher.sealed index r.1 r.2).length < 2 ^ 32)
    (here : x.drop pos = frame cipher index r ++ rest) :
    header x pos = .ok ⟨r.1, (cipher.sealed index r.1 r.2).length, pos + 5⟩ ∧
      sealedAt x ⟨r.1, (cipher.sealed index r.1 r.2).length, pos + 5⟩ =
        cipher.sealed index r.1 r.2 ∧
      x.drop (pos + 5 + (cipher.sealed index r.1 r.2).length) = rest := by
  obtain ⟨low, high⟩ := typed
  generalize body : cipher.sealed index r.1 r.2 = c at short ⊢
  have shape : x.drop pos = UInt8.ofNat r.1 :: be32 c.length ++ (c ++ rest) := by
    rw [here, frame, body, append_assoc]
  have size : (x.drop pos).length = 5 + (c.length + rest.length) := by
    rw [shape, length_append, length_cons, length_be32, length_append]
  have after : x.drop (pos + 5) = c ++ rest := by
    rw [← drop_drop, shape]
    rfl
  have first : (x.drop pos).take 5 = UInt8.ofNat r.1 :: be32 c.length := by
    rw [shape]
    rfl
  have type : (UInt8.ofNat r.1).toNat = r.1 := by
    rw [UInt8.toNat_ofNat']
    simp only [recEnd] at high
    omega
  have len : u32 (be32 c.length) = c.length := by
    rw [u32_be32, Nat.mod_eq_of_lt short]
  rw [length_drop] at size
  refine ⟨?_, ?_, ?_⟩
  · dsimp only [header]
    rw [first]
    simp only [getD_cons_zero, drop_succ_cons, drop_zero, type, len, length_cons, length_be32]
    rw [if_neg (by omega), if_neg (by omega), if_neg (by omega), if_neg (by omega)]
  · rw [sealedAt, after, take_left]
  · rw [← drop_drop, after, drop_left]

/-- From one position to the other, the headers find these records. -/
def Spans (cipher : ChunkCipher) (x : Bytes) : Nat → List Record → Nat → Nat → Prop
  | _, [], pos, last => pos = last
  | index, r :: rs, pos, last =>
    ∃ h : Rec, header x pos = .ok h ∧ h.type = r.1 ∧ sealedAt x h = cipher.sealed index r.1 r.2 ∧
      Spans cipher x (index + 1) rs (h.start + h.len) last

variable {rs : List Record} {last : Nat}

theorem spans_append {ss : List Record} :
    Spans cipher x index (rs ++ ss) pos last ↔ ∃ mid, Spans cipher x index rs pos mid ∧
        Spans cipher x (index + rs.length) ss mid last := by
  induction rs generalizing index pos with
  | nil => simp [Spans]
  | cons r rs ih =>
    have next : index + (r :: rs).length = index + 1 + rs.length := by
      rw [length_cons]
      omega
    rw [next]
    simp only [cons_append, Spans, ih]
    constructor
    · rintro ⟨h, read, type, body, mid, first, second⟩
      exact ⟨mid, ⟨h, read, type, body, first⟩, second⟩
    · rintro ⟨mid, ⟨h, read, type, body, first⟩, second⟩
      exact ⟨h, read, type, body, mid, first, second⟩

theorem spans_frames {rest : Bytes} (typed : ∀ r ∈ rs, Typed r)
    (short : ∀ k r, rs[k]? = some r → (cipher.sealed (index + k) r.1 r.2).length < 2 ^ 32)
    (here : x.drop pos = frames cipher index rs ++ rest) :
    ∃ last, Spans cipher x index rs pos last ∧ x.drop last = rest := by
  induction rs generalizing index pos with
  | nil => exact ⟨pos, rfl, here⟩
  | cons r rs ih =>
    rw [frames, append_assoc] at here
    obtain ⟨read, body, after⟩ :=
      header_frame (typed r mem_cons_self) (short 0 r rfl) here
    have shortRest : ∀ k s, rs[k]? = some s →
        (cipher.sealed (index + 1 + k) s.1 s.2).length < 2 ^ 32 := by
      intro k s found
      have := short (k + 1) s found
      rwa [← add_assoc, Nat.add_right_comm] at this
    obtain ⟨last, spans, ended⟩ :=
      ih (fun s inside => typed s (mem_cons_of_mem r inside)) shortRest after
    exact ⟨last, ⟨_, read, rfl, body, spans⟩, ended⟩

theorem Spans.drop_eq (spans : Spans cipher x index rs pos last) :
    x.drop pos = frames cipher index rs ++ x.drop last := by
  induction rs generalizing index pos with
  | nil =>
    obtain rfl : pos = last := spans
    rfl
  | cons r rs ih =>
    obtain ⟨h, read, type, body, rest⟩ := spans
    obtain ⟨_, inside, _, shape⟩ := header_cases read
    rw [shape, ih rest, frames, frame, ← body, length_sealedAt inside, type, ← append_assoc]

theorem Spans.le (inside : pos ≤ x.length) (spans : Spans cipher x index rs pos last) :
    last ≤ x.length := by
  induction rs generalizing index pos with
  | nil =>
    obtain rfl : pos = last := spans
    exact inside
  | cons r rs ih =>
    obtain ⟨h, read, _, _, rest⟩ := spans
    exact ih (header_cases read).2.1 rest

theorem Spans.short (spans : Spans cipher x index rs pos last) {k : Nat} {r : Record}
    (found : rs[k]? = some r) : (cipher.sealed (index + k) r.1 r.2).length < 2 ^ 32 := by
  induction rs generalizing index pos k with
  | nil => simp at found
  | cons s rs ih =>
    obtain ⟨h, read, type, body, rest⟩ := spans
    obtain ⟨_, inside, bound, _⟩ := header_cases read
    cases k with
    | zero =>
      obtain rfl : s = r := Option.some.inj found
      rw [add_zero, ← body, length_sealedAt inside]
      exact bound
    | succ k =>
      have := ih rest found
      rwa [add_assoc, add_comm 1 k] at this

end Kryfo.Backup
