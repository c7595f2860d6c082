import Kryfo.Picture.Chunks

/-!
# A GIF without its metadata

Images, their timing and plain text blocks are kept, and of the application blocks those that
make it loop.  Comments and every other block go, with what follows the trailer.
-/

namespace Kryfo.Picture.Gif

open Library List

/-! ## The source's functions -/

def paletteSize (flags : UInt8) : Nat :=
  if flags &&& 0x80 ≠ 0 then 3 * 2 ^ ((flags &&& 7).toNat + 1) else 0

def subBlock : Cutter UInt8 :=
  @Cutter.sized _ 1 (fun s => s.head?.map fun n => 1 + n.toNat) (by decide)
    (by
      intro s n eq
      obtain ⟨b, -, rfl⟩ := Option.map_eq_some_iff.mp eq
      omega)
    (by
      intro a b long
      rw [head?_append_of_ne_nil a (ne_nil_of_length_pos long)])

def subBlocks (s : Bytes) : Option (Bytes × Bytes) :=
  (subBlock.cut (· == [0]) s).map fun (blocks, rest) => (blocks.flatten, rest)

def blockHead (s : Bytes) : Option Nat :=
  if s.getD 0 0 = 0x2C then some (10 + paletteSize (s.getD 9 0) + 1)
  else if s.getD 0 0 = 0x21 then some 2
  else none

def nextBlock (s : Bytes) : Option (Bytes × Bytes) :=
  match s with
  | [] => none
  | b :: rest =>
    if b = 0x3B then some ([b], rest)
    else
      match blockHead s with
      | none => none
      | some head =>
        if s.length < head then none
        else (subBlocks (s.drop head)).map fun (data, rest) => (s.take head ++ data, rest)

def gifApps : List Bytes := ["NETSCAPE2.0", "ANIMEXTS1.0"].map latin1

def isLoop (block : Bytes) : Bool :=
  14 ≤ block.length && block.getD 2 0 == 11 && (block.drop 3).take 11 ∈ gifApps

def keeps (block : Bytes) : Bool :=
  if block.getD 0 0 = 0x21 then
    block.getD 1 0 == 0xF9 || block.getD 1 0 == 0x01 || block.getD 1 0 == 0xFF && isLoop block
  else true

def isTrailer (block : Bytes) : Bool := block == [0x3B]

def headSize (src : Bytes) : Nat := 13 + paletteSize (src.getD 10 0)

/-! ## Blocks as the format has them -/

/-- Sub-blocks up to an empty one. -/
inductive SubBlocks : Bytes → Prop where
  | nil : SubBlocks [0]
  | cons {n : UInt8} {data rest : Bytes} (some : n ≠ 0) (long : data.length = n.toNat)
      (more : SubBlocks rest) : SubBlocks (n :: (data ++ rest))

/-- The trailer; an image with its descriptor, the palette that announces and a code size; or an
extension with a label. -/
inductive IsBlock : Bytes → Prop where
  | trailer : IsBlock [0x3B]
  | image {head data : Bytes} (first : head.getD 0 0 = 0x2C)
      (long : head.length = 10 + paletteSize (head.getD 9 0) + 1) (blocks : SubBlocks data) :
      IsBlock (head ++ data)
  | extension {label : UInt8} {data : Bytes} (blocks : SubBlocks data) :
      IsBlock (0x21 :: label :: data)

theorem subBlocks_of_chain {blocks : List Bytes} (chain : subBlock.Chain (· == [0]) blocks) :
    SubBlocks blocks.flatten := by
  induction chain with
  | @single block isChunk isLast =>
    rw [eq_of_beq isLast]
    exact .nil
  | @cons block blocks isChunk notLast chain ih =>
    obtain ⟨long, size⟩ := Cutter.size_of_isChunk _ _ _ isChunk
    obtain ⟨n, data, rfl⟩ := exists_cons_of_length_pos long
    have counts : 1 + n.toNat = data.length + 1 := Option.some.inj size
    refine .cons ?_ (by omega) ih
    rintro rfl
    have empty : data = [] := eq_nil_of_length_eq_zero (by simpa using counts.symm)
    rw [empty] at notLast
    cases notLast

theorem subBlocks_eq_some {s data rest : Bytes} (found : subBlocks s = some (data, rest)) :
    s = data ++ rest ∧ SubBlocks data ∧
      ∀ other, subBlocks (data ++ other) = some (data, other) := by
  obtain ⟨⟨blocks, rest'⟩, isCut, same⟩ := Option.map_eq_some_iff.mp found
  cases same
  obtain ⟨chain, eq⟩ := Cutter.chain_of_cut isCut
  refine ⟨eq, subBlocks_of_chain chain, ?_⟩
  intro other
  rw [subBlocks, Cutter.cut_flatten chain other]
  rfl

theorem blockHead_congr {s s' : Bytes} {head : Nat} (found : blockHead s = some head)
    (same : ∀ i < head, s'.getD i 0 = s.getD i 0) : blockHead s' = some head := by
  unfold blockHead at found ⊢
  split at found
  next image =>
    cases found
    rw [same 0 (by omega), same 9 (by omega), if_pos image]
  next notImage =>
    split at found
    next extension =>
      cases found
      rw [same 0 (by omega), if_neg notImage, if_pos extension]
    next => cases found

theorem blockHead_append {a : Bytes} {head : Nat} (found : blockHead a = some head)
    (long : head ≤ a.length) (b : Bytes) : blockHead (a ++ b) = some head :=
  blockHead_congr found fun i below => getD_append _ _ _ _ (by omega)

theorem blockHead_take {s : Bytes} {head : Nat} (found : blockHead s = some head) :
    blockHead (s.take head) = some head := by
  refine blockHead_congr found fun i below => ?_
  rw [getD_eq_getElem?_getD, getD_eq_getElem?_getD, getElem?_take_of_lt below]

theorem isBlock_of_blockHead {head data : Bytes} (found : blockHead head = some head.length)
    (blocks : SubBlocks data) : IsBlock (head ++ data) := by
  unfold blockHead at found
  split at found
  next image => exact .image image (Option.some.inj found).symm blocks
  next notImage =>
    split at found
    next extension =>
      have two : head.length = 2 := (Option.some.inj found).symm
      match head, two with
      | [b, label], _ =>
        have first : b = 0x21 := extension
        subst first
        exact .extension blocks
    next => cases found

theorem nextBlock_of_head {s data rest : Bytes} {head : Nat} (first : s.getD 0 0 ≠ 0x3B)
    (found : blockHead s = some head) (long : head ≤ s.length)
    (blocks : subBlocks (s.drop head) = some (data, rest)) :
    nextBlock s = some (s.take head ++ data, rest) := by
  cases s with
  | nil =>
    cases found
  | cons b tail =>
    have notTrailer : b ≠ 0x3B := first
    rw [nextBlock, if_neg notTrailer, found]
    dsimp only
    rw [if_neg (by omega), blocks]
    rfl

theorem nextBlock_cases {s block rest : Bytes} (found : nextBlock s = some (block, rest)) :
    block = [0x3B] ∧ s = 0x3B :: rest ∨
      ∃ head data, s.getD 0 0 ≠ 0x3B ∧ blockHead s = some head ∧ head ≤ s.length ∧
        subBlocks (s.drop head) = some (data, rest) ∧ block = s.take head ++ data := by
  unfold nextBlock at found
  split at found
  next => cases found
  next b tail =>
    split at found
    next trailer =>
      cases found
      subst trailer
      exact .inl ⟨rfl, rfl⟩
    next notTrailer =>
      split at found
      next => cases found
      next head isHead =>
        split at found
        next => cases found
        next long =>
          obtain ⟨⟨data, rest'⟩, blocks, same⟩ := Option.map_eq_some_iff.mp found
          cases same
          exact .inr ⟨head, data, notTrailer, isHead, by omega, blocks, rfl⟩

theorem blockHead_pos {s : Bytes} {head : Nat} (found : blockHead s = some head) : 2 ≤ head := by
  unfold blockHead at found
  split at found
  next =>
    cases found
    omega
  next =>
    split at found
    next => exact (Option.some.inj found).le
    next => cases found

def block : Cutter UInt8 where
  next := nextBlock
  whole := by
    intro s chunk rest found
    rcases nextBlock_cases found with ⟨rfl, rfl⟩ | ⟨head, data, -, -, -, blocks, rfl⟩
    · rfl
    · rw [append_assoc, ← (subBlocks_eq_some blocks).1, take_append_drop]
  proper := by
    intro s chunk rest found
    rcases nextBlock_cases found with ⟨rfl, rfl⟩ | ⟨head, data, -, isHead, long, blocks, rfl⟩
    · exact cons_ne_nil _ _
    · have := blockHead_pos isHead
      apply ne_nil_of_length_pos
      rw [length_append, length_take]
      omega
  again := by
    intro s chunk rest found other
    rcases nextBlock_cases found with ⟨rfl, rfl⟩ | ⟨head, data, first, isHead, long, blocks, rfl⟩
    · rfl
    · have least := blockHead_pos isHead
      have taken : (s.take head).length = head := by
        rw [length_take]
        omega
      have isHead' := blockHead_append (blockHead_take isHead) taken.ge (data ++ other)
      have first' : (s.take head ++ (data ++ other)).getD 0 0 ≠ 0x3B := by
        rw [getD_append _ _ _ _ (by omega), getD_eq_getElem?_getD,
          getElem?_take_of_lt (by omega), ← getD_eq_getElem?_getD]
        exact first
      have blocks' : subBlocks ((s.take head ++ (data ++ other)).drop head) = some (data, other) := by
        rw [drop_left' taken]
        exact (subBlocks_eq_some blocks).2.2 other
      rw [append_assoc]
      rw [nextBlock_of_head first' isHead' (by rw [length_append]; omega) blocks', take_left' taken]

theorem isBlock_of_isChunk {chunk : Bytes} (isChunk : block.IsChunk chunk) : IsBlock chunk := by
  have found : nextBlock (chunk ++ []) = some (chunk, []) := isChunk []
  rw [append_nil] at found
  rcases nextBlock_cases found with ⟨rfl, -⟩ | ⟨head, data, -, isHead, long, blocks, eq⟩
  · exact .trailer
  · rw [eq]
    have taken : (chunk.take head).length = head := by
      rw [length_take]
      omega
    apply isBlock_of_blockHead
    · rw [taken]
      exact blockHead_take isHead
    · exact (subBlocks_eq_some blocks).2.1

/-! ## The cleaned file -/

def gif (src : Bytes) : Option Bytes :=
  if src.length < 13 then none
  else if src.length < headSize src then none
  else keepChunks block isTrailer keeps (headSize src) src

structure IsGif (head : Bytes) (blocks : List Bytes) : Prop where
  long : 13 ≤ head.length ∧ head.length = headSize head
  isBlock : ∀ b ∈ blocks, IsBlock b
  ends : ∃ init, blocks = init ++ [[0x3B]] ∧ ∀ b ∈ init, b ≠ [0x3B]

/-- Comments, and application blocks other than those that make it loop. -/
def IsMetadata (b : Bytes) : Prop :=
  b.getD 0 0 = 0x21 ∧ (b.getD 1 0 = 0xFE ∨ b.getD 1 0 = 0xFF ∧ isLoop b = false)

/-- What is promised of the result. -/
structure Cleaned (src out : Bytes) : Prop where
  parsed : ∃ head blocks tail, src = head ++ blocks.flatten ++ tail ∧ IsGif head blocks ∧
    out = head ++ (blocks.filter keeps).flatten ∧ IsGif head (blocks.filter keeps) ∧
      ∀ b ∈ blocks.filter keeps, ¬IsMetadata b
  again : gif out = some out

theorem isGif_of_chain {head : Bytes} {blocks : List Bytes} (long : 13 ≤ head.length)
    (size : head.length = headSize head) (chain : block.Chain isTrailer blocks) :
    IsGif head blocks := by
  obtain ⟨isChunks, init, last, eq, isLast, notLasts⟩ := chain.ends
  refine ⟨⟨long, size⟩, ?_, init, ?_, ?_⟩
  · intro b inside
    exact isBlock_of_isChunk (isChunks b inside)
  · rw [eq, eq_of_beq isLast]
  · intro b inside trailer
    have notLast := notLasts b inside
    rw [trailer] at notLast
    cases notLast

theorem keeps_of_isTrailer (b : Bytes) (isLast : isTrailer b = true) : keeps b = true := by
  rw [eq_of_beq isLast]
  decide

theorem not_isMetadata_of_keeps {b : Bytes} (isKept : keeps b = true) : ¬IsMetadata b := by
  rintro ⟨extension, comment | ⟨application, notLoop⟩⟩
  · rw [keeps, if_pos extension, comment] at isKept
    cases isKept
  · rw [keeps, if_pos extension, application, notLoop] at isKept
    cases isKept

theorem headSize_append {head : Bytes} (long : 13 ≤ head.length) (rest : Bytes) :
    headSize (head ++ rest) = headSize head := by
  rw [headSize, headSize, getD_append _ _ _ _ (by omega)]

theorem cleaned_of_gif {src out : Bytes} (made : gif src = some out) : Cleaned src out := by
  unfold gif at made
  split at made
  next => cases made
  next long =>
    split at made
    next => cases made
    next fits =>
      obtain ⟨blocks, rest, chain, eq, rfl⟩ := keepChunks_eq_some made
      obtain ⟨head, isHead⟩ : ∃ head, src.take (headSize src) = head := ⟨_, rfl⟩
      have thirteen : 13 ≤ headSize src := Nat.le_add_right _ _
      have taken : head.length = headSize src := by
        rw [← isHead, length_take]
        omega
      have split : src = head ++ (blocks.flatten ++ rest) := by
        rw [← eq, ← isHead, take_append_drop]
      have size : headSize head = headSize src := by
        rw [split, headSize_append (by omega)]
      rw [isHead]
      have kept := chain.filter keeps_of_isTrailer
      refine ⟨⟨head, blocks, rest, by rw [append_assoc]; exact split,
        isGif_of_chain (by omega) (by omega) chain, rfl,
        isGif_of_chain (by omega) (by omega) kept, ?_⟩, ?_⟩
      · intro b inside
        exact not_isMetadata_of_keeps (mem_filter.mp inside).2
      · have size' : headSize (head ++ (blocks.filter keeps).flatten) = head.length := by
          rw [headSize_append (by omega)]
          omega
        have all := keepChunks_again keeps_of_isTrailer chain head
        rw [gif, if_neg (by rw [length_append]; omega),
          if_neg (by rw [size', length_append]; omega), size']
        exact all

end Kryfo.Picture.Gif
