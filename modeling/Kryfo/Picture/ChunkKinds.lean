import Kryfo.Picture.Kind

/-!
# Pictures of chunks, cleaned

What a PNG, a GIF or a WebP is cleaned to, with the three files on which less holds: a WebP of odd
size with nothing to leave out, a WebP of the largest size, and a GIF with a plain text block.
-/

namespace Kryfo.Picture

open Library List

/-- What is promised of a picture of one of the three kinds. -/
structure ChunksCleaned (src out : Bytes) : Prop where
  png : pictureKind src = .png → Png.Cleaned src out
  gif : pictureKind src = .gif → Gif.Cleaned src out
  webp : pictureKind src = .webp → ∃ chunks, Webp.Cleaned src out chunks
  again : stripPictureBytes out = some out

def emptyChunk (type : String) : Bytes := [0, 0, 0, 0] ++ latin1 type ++ [0, 0, 0, 0]

def textPng : Bytes :=
  Png.signature ++ [emptyChunk "IHDR", emptyChunk "tEXt", emptyChunk "IEND"].flatten

def barePng : Bytes := Png.signature ++ [emptyChunk "IHDR", emptyChunk "IEND"].flatten

/-- A WebP of one chunk with a payload of one byte, whose size field leaves out the padding. -/
def oddWebp : Bytes :=
  latin1 "RIFF" ++ le32 13 ++ latin1 "WEBP" ++ (latin1 "VP8 " ++ le32 1 ++ [0, 0])

def textGif : Bytes :=
  latin1 "GIF89a" ++ [1, 0, 1, 0, 0, 0, 0] ++ [[0x21, 0x01, 0x00], [0x3B]].flatten

/-! ### The largest WebP -/

/-- Its one chunk, without the padding. -/
def fullChunk (data : Bytes) : Bytes := latin1 "VP8X" ++ le32 (2 ^ 32 - 13) ++ [0x08] ++ data

section

variable {data : Bytes} (long : data.length = 2 ^ 32 - 14)

include long

theorem fullChunk_spec : (fullChunk data).length = 2 ^ 32 - 5 ∧
    Webp.len (fullChunk data) = 2 ^ 32 - 13 ∧ Webp.isFlagged (fullChunk data) = true ∧
    Webp.isDropped (fullChunk data) = false := by
  have nine : (latin1 "VP8X" ++ le32 (2 ^ 32 - 13) ++ [0x08]).length = 9 := by decide
  have told : Webp.len (fullChunk data) = 2 ^ 32 - 13 :=
    (Webp.len_append (by rw [nine]; decide) data).trans (by decide +kernel)
  have named : tag (fullChunk data) 0 = latin1 "VP8X" :=
    (Webp.tag_append (by rw [nine]; decide) data).trans (by decide +kernel)
  have flags : (fullChunk data).getD 8 0 = 0x08 :=
    (getD_append _ data 0 8 (by rw [nine]; decide)).trans (by decide +kernel)
  refine ⟨?_, told, ?_, ?_⟩
  · rw [fullChunk, length_append, nine, long]
    norm_num
  · rw [Webp.isFlagged, told, named, flags]
    decide +kernel
  · rw [Webp.isDropped, named]
    decide +kernel

theorem strip_full : stripPictureBytes (Webp.riff (fullChunk data)) =
      some (Webp.riff (Webp.padded (Webp.clearFlags (fullChunk data)))) ∧
    read32 ((Webp.riff (fullChunk data)).drop 4) = 2 ^ 32 - 1 ∧
    (Webp.padded (Webp.clearFlags (fullChunk data))).length = 2 ^ 32 - 4 := by
  obtain ⟨whole, told, flagged, kept⟩ := fullChunk_spec long
  have size : Webp.size (fullChunk data) = 2 ^ 32 - 4 := by norm_num [Webp.size, told]
  have field : read32 ((Webp.riff (fullChunk data)).drop 4) = 2 ^ 32 - 1 := by
    norm_num [Webp.read32_drop_riff, whole]
  have length' : (Webp.riff (fullChunk data)).length = 2 ^ 32 + 7 := by
    norm_num [Webp.length_riff, whole]
  have ends : Webp.riffEnd (Webp.riff (fullChunk data)) = 2 ^ 32 + 7 := by
    norm_num [Webp.riffEnd, field]
  have chunks : Webp.webpChunks (2 ^ 32 + 7 - 12) (fullChunk data) = some [fullChunk data] := by
    rw [Webp.webpChunks, size, told, whole, if_neg (by norm_num), if_neg (by norm_num),
      if_neg (by norm_num), take_of_length_le (by rw [whole]; norm_num), Webp.webpChunks]
    rfl
  obtain ⟨begins, named⟩ := tag_riff (fullChunk data)
  have kind := kind_of_webp (by rw [length']; norm_num) begins named
  refine ⟨?_, field, ?_⟩
  · rw [stripPictureBytes, kind]
    rw [Webp.webp, ends, length', if_neg (by norm_num), Webp.drop_riff, chunks]
    simp [Webp.changes, Webp.keptChunks, flagged, kept]
  · rw [Webp.length_put ⟨by rw [whole]; norm_num, .inr (by norm_num [whole, told])⟩, size]

end

theorem webp_zero {body : Bytes} (long : body.length = 2 ^ 32 - 4) :
    read32 ((Webp.riff body).drop 4) + 8 ≠ (Webp.riff body).length ∧
      stripPictureBytes (Webp.riff body) ≠ some (Webp.riff body) := by
  have told : read32 ((Webp.riff body).drop 4) = 0 := by
    rw [Webp.read32_drop_riff, long]
    norm_num
  have length' : (Webp.riff body).length = 2 ^ 32 + 8 := by
    rw [Webp.length_riff, long]
    norm_num
  refine ⟨by rw [told, length']; norm_num, ?_⟩
  obtain ⟨begins, named⟩ := tag_riff body
  have kind : pictureKind (Webp.riff body) = .webp :=
    kind_of_webp (by rw [length']; norm_num) begins named
  have ends : Webp.riffEnd (Webp.riff body) = 8 := by rw [Webp.riffEnd, told]
  have nothing : Webp.webpChunks (8 - 12) ((Webp.riff body).drop 12) = some [] := by
    rw [Webp.webpChunks, if_pos rfl]
  have changed : Webp.changes (Webp.riff body) [] = true := by
    have tail : 8 + 8 % 2 < (Webp.riff body).length := by
      rw [length']
      norm_num
    simp [Webp.changes, ends, tail]
  rw [stripPictureBytes]
  rw [Webp.webp, ends, nothing]
  dsimp only
  rw [if_pos changed]
  intro same
  have lengths := congrArg List.length (Option.some.inj same)
  rw [length', Webp.length_riff] at lengths
  simp [Webp.keptChunks] at lengths

end Kryfo.Picture
