import Kryfo.Picture.Gif
import Kryfo.Picture.Heif
import Kryfo.Picture.Jpeg
import Kryfo.Picture.Png
import Kryfo.Picture.Webp

/-!
# Pictures cleaned by their kind

What a PNG, a WebP or a GIF is cleaned to is of the same kind and is not changed again.
-/

namespace Kryfo.Picture

open Library List

inductive PictureKind where
  | jpeg
  | png
  | webp
  | heif
  | gif
  | other
deriving DecidableEq

def heifBrands : List Bytes :=
  ["heic", "heix", "hevc", "hevx", "heim", "heis", "mif1", "msf1", "avif", "avis"].map latin1

/-- A brand stands at the position or later, the minor version apart. -/
def hasBrand (b : Bytes) (stop i : Nat) : Bool :=
  if stop < i + 4 then false
  else if i ≠ 12 ∧ tag b i ∈ heifBrands then true
  else hasBrand b stop (i + 4)
termination_by stop - i

def isWebp (b : Bytes) : Bool :=
  12 ≤ b.length && tag b 0 == latin1 "RIFF" && tag b 8 == latin1 "WEBP"

def pictureKind (b : Bytes) : PictureKind :=
  if b.take 3 = [0xFF, 0xD8, 0xFF] then .jpeg
  else if b.take 8 = Png.signature then .png
  else if b.take 6 = latin1 "GIF87a" ∨ b.take 6 = latin1 "GIF89a" then .gif
  else if isWebp b then .webp
  else if 16 ≤ b.length ∧ tag b 4 = latin1 "ftyp" ∧
      hasBrand b (max 16 (min (Heif.u32At b 0) b.length)) 8 then .heif
  else .other

def stripPictureBytes (src : Bytes) : Option Bytes :=
  match pictureKind src with
  | .jpeg => Jpeg.stripJpegMetadata src
  | .png => Png.png src
  | .webp => Webp.webp src
  | .heif => Heif.heif src
  | .gif => Gif.gif src
  | .other => some src

/-! ## Kinds by their first bytes -/

theorem take_of_take {a b : Bytes} {n m : Nat} (most : m ≤ n) (same : a.take n = b.take n) :
    a.take m = b.take m := by
  have shorter := congrArg (List.take m) same
  rwa [take_take, take_take, Nat.min_eq_left most] at shorter

theorem png_of_kind {src : Bytes} (kind : pictureKind src = .png) : src.take 8 = Png.signature := by
  unfold pictureKind at kind
  split_ifs at kind with _ isPng
  exact isPng

theorem kind_of_png {b : Bytes} (begins : b.take 8 = Png.signature) : pictureKind b = .png := by
  have notJpeg : b.take 3 ≠ [0xFF, 0xD8, 0xFF] := by
    rw [take_of_take (by decide : 3 ≤ 8) (begins.trans (by decide : _ = Png.signature.take 8))]
    decide
  rw [pictureKind, if_neg notJpeg, if_pos begins]

theorem gif_of_kind {src : Bytes} (kind : pictureKind src = .gif) :
    src.take 6 = latin1 "GIF87a" ∨ src.take 6 = latin1 "GIF89a" := by
  unfold pictureKind at kind
  split_ifs at kind with _ _ isGif
  exact isGif

/-- A kind that is told by the first four bytes is neither of those told before it. -/
theorem first_ne {b : Bytes} {first : UInt8} (begins : b.head? = some first) (notJpeg : first ≠ 0xFF)
    (notPng : first ≠ 0x89) : b.take 3 ≠ [0xFF, 0xD8, 0xFF] ∧ b.take 8 ≠ Png.signature := by
  cases b with
  | nil => cases begins
  | cons c rest =>
    cases begins
    constructor
    · intro same
      exact notJpeg (List.cons.inj same).1
    · intro same
      exact notPng (List.cons.inj same).1

theorem head?_of_take {b : Bytes} {n : Nat} {first : UInt8} (begins : (b.take n).head? = some first) :
    b.head? = some first := by
  cases b with
  | nil =>
    rw [take_nil] at begins
    exact begins
  | cons c rest =>
    cases n with
    | zero => cases begins
    | succ n => exact begins

theorem kind_of_gif {b : Bytes} (begins : b.take 6 = latin1 "GIF87a" ∨ b.take 6 = latin1 "GIF89a") :
    pictureKind b = .gif := by
  have first : b.head? = some 0x47 := by
    apply @head?_of_take _ 6
    rcases begins with eq | eq <;> rw [eq] <;> decide
  obtain ⟨notJpeg, notPng⟩ := first_ne first (by decide) (by decide)
  rw [pictureKind, if_neg notJpeg, if_neg notPng, if_pos begins]

theorem webp_of_kind {src : Bytes} (kind : pictureKind src = .webp) :
    12 ≤ src.length ∧ tag src 0 = latin1 "RIFF" ∧ tag src 8 = latin1 "WEBP" := by
  unfold pictureKind at kind
  split_ifs at kind with _ _ _ isWebp'
  unfold isWebp at isWebp'
  rw [Bool.and_eq_true, Bool.and_eq_true, decide_eq_true_eq] at isWebp'
  exact ⟨isWebp'.1.1, eq_of_beq isWebp'.1.2, eq_of_beq isWebp'.2⟩

theorem kind_of_webp {b : Bytes} (long : 12 ≤ b.length) (begins : tag b 0 = latin1 "RIFF")
    (named : tag b 8 = latin1 "WEBP") : pictureKind b = .webp := by
  have four : b.take 4 = latin1 "RIFF" := begins
  have first : b.head? = some 0x52 := by
    apply @head?_of_take _ 4
    rw [four]
    decide
  obtain ⟨notJpeg, notPng⟩ := first_ne first (by decide) (by decide)
  have notGif : ¬(b.take 6 = latin1 "GIF87a" ∨ b.take 6 = latin1 "GIF89a") := by
    intro isGif
    have first' : b.head? = some 0x47 := by
      apply @head?_of_take _ 6
      rcases isGif with eq | eq <;> rw [eq] <;> decide
    rw [first] at first'
    cases first'
  have isWebp' : isWebp b = true := by
    rw [isWebp, decide_eq_true long, begins, named]
    rfl
  rw [pictureKind, if_neg notJpeg, if_neg notPng, if_neg notGif, if_pos isWebp']

/-! ## What is cleaned again -/

theorem tag_riff (body : Bytes) :
    tag (Webp.riff body) 0 = latin1 "RIFF" ∧ tag (Webp.riff body) 8 = latin1 "WEBP" := by
  have four : (latin1 "RIFF").length = 4 := by decide
  have four' : (latin1 "WEBP").length = 4 := by decide
  have eight : (latin1 "RIFF" ++ le32 (4 + body.length)).length = 8 := by
    rfl
  constructor
  · rw [tag, Webp.riff, append_assoc, append_assoc, drop_zero, take_left' four]
  · rw [tag, Webp.riff, append_assoc, drop_left' eight, take_left' four']

section

variable {src out : Bytes} (made : stripPictureBytes src = some out)

include made

theorem png_cleaned (kind : pictureKind src = .png) :
    Png.Cleaned src out ∧ stripPictureBytes out = some out := by
  rw [stripPictureBytes, kind] at made
  have cleaned := Png.cleaned_of_png (png_of_kind kind) made
  refine ⟨cleaned, ?_⟩
  obtain ⟨chunks, tail, -, -, isPng, -⟩ := cleaned.parsed
  have eight : Png.signature.length = 8 := rfl
  have kind' : pictureKind out = .png := by
    apply kind_of_png
    rw [isPng.bytes, take_left' eight]
  rw [stripPictureBytes, kind']
  exact cleaned.again

theorem gif_cleaned (kind : pictureKind src = .gif) :
    Gif.Cleaned src out ∧ stripPictureBytes out = some out := by
  rw [stripPictureBytes, kind] at made
  have cleaned := Gif.cleaned_of_gif made
  refine ⟨cleaned, ?_⟩
  obtain ⟨head, blocks, tail, eq, isGif, eq', -, -⟩ := cleaned.parsed
  have long := isGif.long.1
  have same : out.take 6 = src.take 6 := by
    rw [eq, eq', append_assoc, take_append_of_le_length (by omega),
      take_append_of_le_length (by omega)]
  have kind' : pictureKind out = .gif := kind_of_gif (same ▸ gif_of_kind kind)
  rw [stripPictureBytes, kind']
  exact cleaned.again

theorem webp_cleaned (kind : pictureKind src = .webp)
    (notFull : read32 (src.drop 4) ≠ 2 ^ 32 - 1) :
    (∃ chunks, Webp.Cleaned src out chunks) ∧ stripPictureBytes out = some out := by
  rw [stripPictureBytes, kind] at made
  obtain ⟨long, begins, named⟩ := webp_of_kind kind
  obtain ⟨chunks, cleaned⟩ := Webp.cleaned_of_webp long begins named notFull made
  refine ⟨⟨chunks, cleaned⟩, ?_⟩
  have kind' : pictureKind out = .webp := by
    rcases cleaned.parsed with isRiff | ⟨same, -⟩
    · obtain ⟨begins', named'⟩ := tag_riff (Webp.keptChunks chunks).flatten
      rw [isRiff.bytes]
      exact kind_of_webp (by rw [Webp.length_riff]; omega) begins' named'
    · rw [same]
      exact kind
  rw [stripPictureBytes, kind']
  exact cleaned.again

end

end Kryfo.Picture
