import Kryfo.Picture.Chunks

/-!
# A PNG without its metadata

The chunks of a list are kept, whole, and all others left out, with what follows the end chunk.
-/

namespace Kryfo.Picture

open Library

namespace Png

def signature : Bytes := [0x89, 0x50, 0x4E, 0x47, 0x0D, 0x0A, 0x1A, 0x0A]

def pngKeep : List Bytes :=
  ["IHDR", "PLTE", "IDAT", "IEND", "tRNS", "gAMA", "cHRM", "sRGB", "iCCP", "sBIT", "cICP", "mDCv",
    "cLLi", "bKGD", "pHYs", "sPLT", "hIST", "acTL", "fcTL", "fdAT"].map latin1

def chunkSize (s : Bytes) : Option Nat := if 0x7fffffff < u32 s then none else some (12 + u32 s)

def cutter : Cutter UInt8 :=
  @Cutter.sized _ 12 chunkSize (by decide)
    (by
      intro s n eq
      unfold chunkSize at eq
      split at eq
      next => cases eq
      next =>
        cases eq
        omega)
    (by
      intro a b long
      rw [chunkSize, chunkSize, u32_append (by omega)])

def isEnd (chunk : Bytes) : Bool := tag chunk 4 == latin1 "IEND"

def keeps (chunk : Bytes) : Bool := tag chunk 4 ∈ pngKeep

def png (src : Bytes) : Option Bytes := keepChunks cutter isEnd keeps 8 src

/-! ## What a PNG is -/

structure IsPng (b : Bytes) (chunks : List Bytes) : Prop where
  bytes : b = signature ++ chunks.flatten
  sizes : ∀ c ∈ chunks, c.length = 12 + u32 c ∧ u32 c ≤ 0x7fffffff
  ends : ∃ init last, chunks = init ++ [last] ∧ tag last 4 = latin1 "IEND" ∧
    ∀ c ∈ init, tag c 4 ≠ latin1 "IEND"

def metadata : List Bytes := ["eXIf", "zXIf", "tEXt", "zTXt", "iTXt", "tIME", "caBX"].map latin1

/-- What is promised of the result. -/
structure Cleaned (src out : Bytes) : Prop where
  parsed : ∃ chunks tail, src = signature ++ chunks.flatten ++ tail ∧
    IsPng (signature ++ chunks.flatten) chunks ∧ IsPng out (chunks.filter keeps) ∧
      ∀ c ∈ chunks.filter keeps, tag c 4 ∉ metadata
  again : png out = some out

theorem isPng_of_chain {chunks : List Bytes} (chain : cutter.Chain isEnd chunks) :
    IsPng (signature ++ chunks.flatten) chunks := by
  obtain ⟨isChunks, init, last, eq, isLast, notLasts⟩ := chain.ends
  refine ⟨rfl, ?_, init, last, eq, eq_of_beq isLast, ?_⟩
  · intro c inside
    have size := (Cutter.size_of_isChunk _ _ _ (isChunks c inside)).2
    unfold chunkSize at size
    split at size
    next => cases size
    next small => exact ⟨(Option.some.inj size).symm, by omega⟩
  · intro c inside isEnd'
    have notLast := notLasts c inside
    rw [isEnd, isEnd'] at notLast
    cases notLast

theorem keeps_of_isEnd (chunk : Bytes) (isLast : isEnd chunk = true) : keeps chunk = true := by
  have named : tag chunk 4 = latin1 "IEND" := eq_of_beq isLast
  rw [keeps, named]
  decide

theorem cleaned_of_png {src out : Bytes} (kind : src.take 8 = signature)
    (made : png src = some out) : Cleaned src out := by
  obtain ⟨chunks, rest, chain, eq, rfl⟩ := keepChunks_eq_some made
  have kept := chain.filter keeps_of_isEnd
  rw [kind]
  refine ⟨⟨chunks, rest, ?_, isPng_of_chain chain, isPng_of_chain kept, ?_⟩, ?_⟩
  · rw [List.append_assoc, ← eq, ← kind, List.take_append_drop]
  · intro c inside named
    have apart : ∀ t ∈ pngKeep, t ∉ metadata := by decide
    have isKept : tag c 4 ∈ pngKeep := by simpa [keeps] using (List.mem_filter.mp inside).2
    exact apart _ isKept named
  · exact keepChunks_again keeps_of_isEnd chain signature

end Png

end Kryfo.Picture
