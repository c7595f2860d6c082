import Kryfo.Library.LittleEndian
import Kryfo.Picture.Chunks

/-!
# A WebP without its metadata

The last of the chunks may stand without its padding or reach one byte past the end that the RIFF
size names.  `EXIF` and `XMP` chunks are left out and their flags cleared.  Where nothing is left
out the file comes back as it was.
-/

namespace Kryfo.Picture.Webp

open Library List

/-! ## The source's functions -/

variable (chunk : Bytes)

def len : Nat := read32 (chunk.drop 4)

def size : Nat := 8 + len chunk + len chunk % 2

/-- The chunks of so many bytes; the last may end one byte further, or with the file. -/
def webpChunks (left : Nat) (s : Bytes) : Option (List Bytes) :=
  if left = 0 then some []
  else if left < 8 then none
  else if left + 1 < size s ∨ s.length < 8 + len s then none
  else (webpChunks (left - size s) (s.drop (size s))).map (s.take (size s) :: ·)
termination_by left
decreasing_by
  unfold size
  omega

def isDropped : Bool :=
  tag chunk 0 == latin1 "EXIF" || tag chunk 0 == latin1 "XMP "

def isFlagged : Bool :=
  tag chunk 0 == latin1 "VP8X" && 1 ≤ len chunk && chunk.getD 8 0 &&& 0x0C != 0

def clearFlags : Bytes :=
  if isFlagged chunk then chunk.set 8 (chunk.getD 8 0 &&& 0xF3) else chunk

def padded : Bytes := if chunk.length % 2 = 1 then chunk ++ [0] else chunk

def riffEnd (src : Bytes) : Nat := 8 + read32 (src.drop 4)

variable (body : Bytes)

def riff : Bytes := latin1 "RIFF" ++ le32 (4 + body.length) ++ latin1 "WEBP" ++ body

def keptChunks (chunks : List Bytes) : List Bytes :=
  (chunks.filter (!isDropped ·)).map fun c => padded (clearFlags c)

def changes (src : Bytes) (chunks : List Bytes) : Bool :=
  chunks.any isDropped || chunks.any (fun c => !isDropped c && isFlagged c) ||
    decide (riffEnd src + riffEnd src % 2 < src.length)

def webp (src : Bytes) : Option Bytes :=
  if src.length < riffEnd src then none
  else
    match webpChunks (riffEnd src - 12) (src.drop 12) with
    | none => none
    | some chunks =>
      if changes src chunks then some (riff (keptChunks chunks).flatten) else some src

/-! ## Numbers -/

theorem len_append {a : Bytes} (long : 8 ≤ a.length) (b : Bytes) : len (a ++ b) = len a := by
  rw [len, len, drop_append_of_le_length (by omega), read32_append]
  rw [length_drop]
  omega

variable {s : Bytes}

theorem len_take {n : Nat} (least : 8 ≤ n) (long : 8 ≤ s.length) : len (s.take n) = len s := by
  have taken : 8 ≤ (s.take n).length := by
    rw [length_take]
    omega
  rw [← len_append taken (s.drop n), take_append_drop]

theorem size_even : size chunk % 2 = 0 := by
  unfold size
  omega

theorem eight_le_size : 8 ≤ size chunk := by
  unfold size
  omega

theorem size_take {n : Nat} (least : 8 ≤ n) (long : 8 ≤ s.length) : size (s.take n) = size s := by
  rw [size, size, len_take least long]

/-! ## Chunks as the format has them -/

def IsChunk : Prop := 8 ≤ chunk.length ∧ chunk.length = size chunk

def IsPart : Prop :=
  8 ≤ chunk.length ∧ (chunk.length = size chunk ∨ chunk.length = 8 + len chunk)

structure IsWebp (b : Bytes) (chunks : List Bytes) : Prop where
  bytes : b = riff chunks.flatten
  size : read32 (b.drop 4) + 8 = b.length
  isChunk : ∀ c ∈ chunks, IsChunk c

theorem webpChunks_cases {left : Nat} {chunks : List Bytes}
    (read : webpChunks left s = some chunks) :
    left = 0 ∧ chunks = [] ∨ 8 ≤ left ∧ size s ≤ left + 1 ∧ 8 + len s ≤ s.length ∧
        ∃ rest, webpChunks (left - size s) (s.drop (size s)) = some rest ∧
          chunks = s.take (size s) :: rest := by
  rw [webpChunks] at read
  split at read
  next none' =>
    cases read
    exact .inl ⟨none', rfl⟩
  next =>
    split at read
    next => cases read
    next eight =>
      split at read
      next => cases read
      next fits =>
        obtain ⟨rest, read', rfl⟩ := Option.map_eq_some_iff.mp read
        exact .inr ⟨by omega, by omega, by omega, rest, read', rfl⟩

theorem min_size {n long : Nat} (payload : 8 + n ≤ long) :
    min (8 + n + n % 2) long = 8 + n + n % 2 ∨ min (8 + n + n % 2) long = 8 + n := by
  omega

structure Reads (left : Nat) (s : Bytes) (chunks : List Bytes) : Prop where
  front : ∃ rest, s = chunks.flatten ++ rest
  isPart : ∀ c ∈ chunks, IsPart c
  most : (chunks.map size).sum ≤ left + left % 2
  least : left ≤ (chunks.map size).sum
  even : left % 2 = 0 → chunks.flatten.length = left ∧ ∀ c ∈ chunks, IsChunk c

theorem reads_of_webpChunks {left : Nat} {chunks : List Bytes}
    (read : webpChunks left s = some chunks) (fits : left ≤ s.length) : Reads left s chunks := by
  induction chunks generalizing left s with
  | nil =>
    rcases webpChunks_cases read with ⟨rfl, -⟩ | ⟨-, -, -, rest, -, eq⟩
    · exact ⟨⟨s, rfl⟩, nofun, Nat.zero_le _, Nat.zero_le _, fun _ => ⟨rfl, nofun⟩⟩
    · cases eq
  | cons c rest ih =>
    rcases webpChunks_cases read with ⟨-, eq⟩ | ⟨eight, most, payload, rest', read', eq⟩
    · cases eq
    · cases eq
      have isEven := size_even s
      have least := eight_le_size s
      have fits' : left - size s ≤ (s.drop (size s)).length := by
        rw [length_drop]
        omega
      have rest := ih read' fits'
      have sameSize : size (s.take (size s)) = size s := size_take least (by omega)
      have taken : (s.take (size s)).length = min (size s) s.length := length_take
      obtain ⟨tail, eq⟩ := rest.front
      refine ⟨⟨tail, ?_⟩, ?_, ?_, ?_, ?_⟩
      · rw [flatten_cons, append_assoc, ← eq, take_append_drop]
      · intro c inside
        rcases mem_cons.mp inside with rfl | later
        · refine ⟨by omega, ?_⟩
          rw [sameSize, taken, len_take least (by omega)]
          exact min_size payload
        · exact rest.isPart c later
      · have := rest.most
        rw [map_cons, sum_cons]
        omega
      · have := rest.least
        rw [map_cons, sum_cons]
        omega
      · intro leftEven
        obtain ⟨all, isChunks⟩ := rest.even (by omega)
        refine ⟨?_, ?_⟩
        · rw [flatten_cons, length_append]
          omega
        · intro c inside
          rcases mem_cons.mp inside with rfl | later
          · refine ⟨by omega, ?_⟩
            omega
          · exact isChunks c later

theorem webpChunks_flatten {chunks : List Bytes} (isChunk : ∀ c ∈ chunks, IsChunk c) :
    webpChunks chunks.flatten.length chunks.flatten = some chunks := by
  induction chunks with
  | nil =>
    rw [webpChunks]
    rfl
  | cons c rest ih =>
    obtain ⟨eight, whole⟩ := isChunk c mem_cons_self
    have sameLen : len (c ++ rest.flatten) = len c := len_append eight _
    have sameSize : size (c ++ rest.flatten) = c.length := by
      rw [size, sameLen, ← size, whole]
    have payload : 8 + len c ≤ c.length := by
      rw [whole]
      unfold size
      omega
    have read := ih (fun c inside => isChunk c (mem_cons_of_mem _ inside))
    rw [flatten_cons, webpChunks, sameSize, length_append, if_neg (by omega),
      if_neg (by omega), if_neg (by omega), Nat.add_sub_cancel_left, drop_left, take_left,
      read]
    rfl

/-! ## Chunks put out -/

/-- The same length, name and told length. -/
structure SameHead (c d : Bytes) : Prop where
  long : d.length = c.length
  name : tag d 0 = tag c 0
  told : len d = len c

theorem sameHead_set (s : Bytes) (b : UInt8) : SameHead s (s.set 8 b) := by
  have below : ∀ i < 8, (s.set 8 b)[i]? = s[i]? := by
    intro i small
    exact getElem?_set_ne (by omega)
  refine ⟨length_set, ?_, ?_⟩
  · apply ext_getElem?
    intro i
    rw [tag, tag, getElem?_take, getElem?_take]
    split
    next small => exact below i (by omega)
    next => rfl
  · simp only [len, read32, getD_eq_getElem?_getD, getElem?_drop]
    rw [below _ (by omega), below _ (by omega), below _ (by omega), below _ (by omega)]

theorem sameHead_clearFlags (c : Bytes) : SameHead c (clearFlags c) := by
  unfold clearFlags
  split
  · exact sameHead_set c _
  · exact ⟨rfl, rfl, rfl⟩

theorem tag_append {a : Bytes} (long : 4 ≤ a.length) (b : Bytes) : tag (a ++ b) 0 = tag a 0 := by
  rw [tag, tag, drop_zero, drop_zero, take_append_of_le_length long]

variable {c : Bytes}

theorem head_padded (long : 8 ≤ c.length) :
    tag (padded c) 0 = tag c 0 ∧ len (padded c) = len c := by
  unfold padded
  split
  · exact ⟨tag_append (by omega) _, len_append long _⟩
  · exact ⟨rfl, rfl⟩

theorem length_padded (isPart : IsPart c) : (padded c).length = size c := by
  obtain ⟨-, whole | short⟩ := isPart
  · have isEven := size_even c
    rw [padded, if_neg (by omega), whole]
  · unfold padded size
    split
    next odd =>
      rw [length_append]
      simp only [length_singleton]
      omega
    next even =>
      omega

theorem isPart_clearFlags (isPart : IsPart c) : IsPart (clearFlags c) := by
  have same := sameHead_clearFlags c
  rw [IsPart, size, same.long, same.told]
  exact isPart

theorem length_put (isPart : IsPart c) : (padded (clearFlags c)).length = size c := by
  rw [length_padded (isPart_clearFlags isPart), size, size, (sameHead_clearFlags c).told]

theorem isChunk_put (isPart : IsPart c) : IsChunk (padded (clearFlags c)) := by
  have same := sameHead_clearFlags c
  have long : 8 ≤ (clearFlags c).length := same.long ▸ isPart.1
  have told : len (padded (clearFlags c)) = len c := (head_padded long).2.trans same.told
  have whole := length_put isPart
  refine ⟨?_, ?_⟩
  · rw [whole]
    exact eight_le_size c
  · rw [whole, size, size, told]

theorem isDropped_put (isPart : IsPart c) : isDropped (padded (clearFlags c)) = isDropped c := by
  have same := sameHead_clearFlags c
  have long : 8 ≤ (clearFlags c).length := same.long ▸ isPart.1
  rw [isDropped, isDropped, (head_padded long).1, same.name]

theorem flags_padded (long : 8 < c.length) : (padded c).getD 8 0 = c.getD 8 0 := by
  unfold padded
  split
  · exact getD_append _ _ _ _ long
  · rfl

theorem length_of_len (isPart : IsPart c) (some : 1 ≤ len c) : 8 < c.length := by
  obtain ⟨-, whole | short⟩ := isPart
  · rw [whole]
    unfold size
    omega
  · omega

theorem isFlagged_put (isPart : IsPart c) : isFlagged (padded (clearFlags c)) = false := by
  have same := sameHead_clearFlags c
  have long : 8 ≤ (clearFlags c).length := same.long ▸ isPart.1
  have head := head_padded long
  have lies : isFlagged (padded (clearFlags c)) =
      (tag c 0 == latin1 "VP8X" && 1 ≤ len c && (padded (clearFlags c)).getD 8 0 &&& 0x0C != 0) := by
    rw [isFlagged, head.1, head.2, same.name, same.told]
  by_cases some : 1 ≤ len c
  · have payload : 8 < c.length := length_of_len isPart some
    rw [lies, flags_padded (same.long ▸ payload)]
    by_cases flagged : isFlagged c = true
    · have cleared : (clearFlags c).getD 8 0 = c.getD 8 0 &&& 0xF3 := by
        rw [clearFlags, if_pos flagged, getD_eq_getElem?_getD, getElem?_set_self payload]
        rfl
      have none' : c.getD 8 0 &&& 0xF3 &&& 0x0C = 0 := by
        rw [UInt8.and_assoc]
        exact UInt8.and_zero
      rw [cleared, none']
      simp
    · have unchanged : clearFlags c = c := if_neg flagged
      rw [unchanged]
      simpa [isFlagged] using flagged
  · rw [lies, decide_eq_false some]
    simp

/-! ## The cleaned file -/

/-- The result is a RIFF of the chunks that are kept, or the file as it was when its size field is
odd and nothing is left out. -/
structure Cleaned (src out : Bytes) (chunks : List Bytes) : Prop where
  reads : Reads (riffEnd src - 12) (src.drop 12) chunks
  parsed : IsWebp out (keptChunks chunks) ∨
    out = src ∧ read32 (src.drop 4) % 2 = 1 ∧ riffEnd src ≤ src.length ∧
      src.length ≤ riffEnd src + 1 ∧ ∀ c ∈ chunks, isDropped c = false ∧ isFlagged c = false
  noMetadata : ∀ c ∈ keptChunks chunks, isDropped c = false ∧ isFlagged c = false
  again : webp out = some out

theorem mem_keptChunks {chunks : List Bytes} {d : Bytes} :
    d ∈ keptChunks chunks ↔ ∃ c ∈ chunks, isDropped c = false ∧ padded (clearFlags c) = d := by
  simp [keptChunks, and_assoc]

section

variable {chunks : List Bytes} (isPart : ∀ c ∈ chunks, IsPart c)

include isPart

theorem isChunk_keptChunks : ∀ d ∈ keptChunks chunks, IsChunk d := by
  intro d inside
  obtain ⟨c, listed, -, rfl⟩ := mem_keptChunks.mp inside
  exact isChunk_put (isPart c listed)

theorem noMetadata_keptChunks : ∀ d ∈ keptChunks chunks, isDropped d = false ∧ isFlagged d = false := by
  intro d inside
  obtain ⟨c, listed, notDropped, rfl⟩ := mem_keptChunks.mp inside
  exact ⟨(isDropped_put (isPart c listed)).trans notDropped, isFlagged_put (isPart c listed)⟩

theorem length_keptChunks : (keptChunks chunks).flatten.length ≤ (chunks.map size).sum := by
  induction chunks with
  | nil => exact le_rfl
  | cons c rest ih =>
    have tail := ih (fun c inside => isPart c (mem_cons_of_mem _ inside))
    have head := length_put (isPart c mem_cons_self)
    rw [map_cons, sum_cons]
    unfold keptChunks at tail ⊢
    rw [filter_cons]
    split
    · rw [map_cons, flatten_cons, length_append]
      omega
    · omega

end

theorem keptChunks_eq {chunks : List Bytes} (isChunk : ∀ c ∈ chunks, IsChunk c)
    (clean : ∀ c ∈ chunks, isDropped c = false ∧ isFlagged c = false) :
    keptChunks chunks = chunks := by
  have filtered : chunks.filter (!isDropped ·) = chunks := by
    rw [filter_eq_self]
    intro c inside
    rw [(clean c inside).1]
    rfl
  rw [keptChunks, filtered]
  conv => rhs; rw [← map_id chunks]
  apply map_congr_left
  intro c inside
  have isEven := size_even c
  have whole := (isChunk c inside).2
  rw [clearFlags, if_neg (by rw [(clean c inside).2]; decide), padded, if_neg (by omega)]
  rfl

theorem changes_eq_false {src : Bytes} {chunks : List Bytes} :
    changes src chunks = false ↔ (∀ c ∈ chunks, isDropped c = false ∧ isFlagged c = false) ∧
        src.length ≤ riffEnd src + riffEnd src % 2 := by
  rw [changes, Bool.or_eq_false_iff, Bool.or_eq_false_iff, any_eq_false, any_eq_false,
    decide_eq_false_iff_not, Nat.not_lt]
  constructor
  · rintro ⟨⟨notDropped, notFlagged⟩, short⟩
    refine ⟨?_, short⟩
    intro c inside
    have kept : isDropped c = false := by simpa using notDropped c inside
    exact ⟨kept, by simpa [kept] using notFlagged c inside⟩
  · rintro ⟨clean, short⟩
    refine ⟨⟨?_, ?_⟩, short⟩
    · intro c inside
      simp [(clean c inside).1]
    · intro c inside
      simp [(clean c inside).2]

theorem length_riff : (riff body).length = 12 + body.length := by
  have four : (latin1 "RIFF").length = 4 ∧ (latin1 "WEBP").length = 4 := by decide
  have four' : (le32 (4 + body.length)).length = 4 := rfl
  rw [riff, length_append, length_append, length_append, four.1, four.2, four']

theorem drop_riff : (riff body).drop 12 = body := by
  have twelve : (latin1 "RIFF" ++ le32 (4 + body.length) ++ latin1 "WEBP").length = 12 := by
    have four : (latin1 "RIFF").length = 4 ∧ (latin1 "WEBP").length = 4 := by decide
    have four' : (le32 (4 + body.length)).length = 4 := rfl
    rw [length_append, length_append, four.1, four.2, four']
  rw [riff, drop_left' twelve]

theorem read32_drop_riff : read32 ((riff body).drop 4) = (4 + body.length) % 2 ^ 32 := by
  have four : (latin1 "RIFF").length = 4 := by decide
  rw [riff, append_assoc, append_assoc, drop_left' four, read32_le32]

theorem read32_riff (fits : 4 + body.length < 2 ^ 32) :
    read32 ((riff body).drop 4) = 4 + body.length := by
  rw [read32_drop_riff, Nat.mod_eq_of_lt fits]

section

variable {chunks : List Bytes} (isChunk : ∀ c ∈ chunks, IsChunk c)
  (fits : 4 + chunks.flatten.length < 2 ^ 32)

include isChunk fits

theorem isWebp_riff : IsWebp (riff chunks.flatten) chunks := by
  refine ⟨rfl, ?_, isChunk⟩
  rw [read32_riff _ fits, length_riff]
  omega

theorem webp_riff (clean : ∀ c ∈ chunks, isDropped c = false ∧ isFlagged c = false) :
    webp (riff chunks.flatten) = some (riff chunks.flatten) := by
  have ends : riffEnd (riff chunks.flatten) = 12 + chunks.flatten.length := by
    rw [riffEnd, read32_riff _ fits]
    omega
  have same : changes (riff chunks.flatten) chunks = false := by
    rw [changes_eq_false]
    refine ⟨clean, ?_⟩
    rw [length_riff]
    omega
  rw [webp, ends, length_riff, if_neg (by omega), Nat.add_sub_cancel_left, drop_riff,
    webpChunks_flatten isChunk]
  dsimp only
  rw [same]
  rfl

end

/-- A file whose size field counts what follows it is a RIFF of what stands behind its head. -/
theorem eq_riff {src : Bytes} (long : 12 ≤ src.length) (begins : tag src 0 = latin1 "RIFF")
    (named : tag src 8 = latin1 "WEBP") (counts : riffEnd src = src.length) :
    src = riff (src.drop 12) := by
  have sized : 4 + (src.drop 12).length = read32 (src.drop 4) := by
    rw [length_drop]
    unfold riffEnd at counts
    omega
  have four : ((src.drop 4).take 4).length = 4 := by
    rw [length_take, length_drop]
    omega
  have told : le32 (read32 (src.drop 4)) = (src.drop 4).take 4 := by
    have same : read32 (src.drop 4) = read32 ((src.drop 4).take 4) := by
      rw [← read32_append four.ge ((src.drop 4).drop 4), take_append_drop]
    rw [same]
    exact le32_read32 four
  rw [riff, sized, told, ← begins, ← named, tag, tag, drop_zero]
  have third : src.drop 8 = (src.drop 8).take 4 ++ src.drop 12 := by
    conv => lhs; rw [← take_append_drop 4 (src.drop 8), drop_drop]
  have second : src.drop 4 = (src.drop 4).take 4 ++ src.drop 8 := by
    conv => lhs; rw [← take_append_drop 4 (src.drop 4), drop_drop]
  rw [append_assoc, append_assoc, ← third, ← second, take_append_drop]

theorem cleaned_of_webp {src out : Bytes} (long : 12 ≤ src.length)
    (begins : tag src 0 = latin1 "RIFF") (named : tag src 8 = latin1 "WEBP")
    (notFull : read32 (src.drop 4) ≠ 2 ^ 32 - 1) (made : webp src = some out) :
    ∃ chunks, Cleaned src out chunks := by
  have small := read32_lt (src.drop 4)
  unfold webp at made
  split at made
  next => cases made
  next within =>
    split at made
    next => cases made
    next chunks read =>
      have reads := reads_of_webpChunks read (by rw [length_drop]; omega)
      have isChunk := isChunk_keptChunks reads.isPart
      have noMetadata := noMetadata_keptChunks reads.isPart
      have fits : 4 + (keptChunks chunks).flatten.length < 2 ^ 32 := by
        have := length_keptChunks reads.isPart
        have := reads.most
        unfold riffEnd at this
        omega
      refine ⟨chunks, ?_⟩
      split at made
      next =>
        cases made
        exact ⟨reads, .inl (isWebp_riff isChunk fits), noMetadata,
          webp_riff isChunk fits noMetadata⟩
      next same =>
        cases made
        obtain ⟨clean, short⟩ := changes_eq_false.mp (by simpa using same)
        have again : webp src = some src := by
          rw [webp, if_neg within, read]
          dsimp only
          rw [if_neg same]
        refine ⟨reads, ?_, noMetadata, again⟩
        by_cases odd : read32 (src.drop 4) % 2 = 1
        · exact .inr ⟨rfl, odd, by omega, by omega, clean⟩
        · have isEven : (riffEnd src - 12) % 2 = 0 := by
            unfold riffEnd
            omega
          obtain ⟨all, isChunks⟩ := reads.even isEven
          have kept : keptChunks chunks = chunks := keptChunks_eq isChunks clean
          have counts : riffEnd src = src.length := by
            unfold riffEnd at short within ⊢
            omega
          have exact' : src.drop 12 = chunks.flatten := by
            obtain ⟨rest, eq⟩ := reads.front
            have none' : rest = [] := by
              have lengths := congrArg List.length eq
              rw [length_append, length_drop] at lengths
              exact eq_nil_of_length_eq_zero (by omega)
            rw [eq, none', append_nil]
          have isRiff : src = riff chunks.flatten := exact' ▸ eq_riff long begins named counts
          rw [kept] at fits isChunk ⊢
          rw [isRiff]
          exact .inl (isWebp_riff isChunk fits)

end Kryfo.Picture.Webp
