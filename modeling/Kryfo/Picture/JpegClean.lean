import Kryfo.Picture.JpegMarkers
import Mathlib.Tactic.IntervalCases

/-!
# A cleaned JPEG

A file whose walk takes lengths only where markers have them is cleaned to its pieces that are no
metadata, behind at most one block with the orientation.  For every other marker at which a walk
can take a length there is a file that is not.
-/

namespace Kryfo.Picture.Jpeg

open Library List

def orientationPiece (turn : UInt8) : Piece := .segment 0xE1 (orientationBody turn)

def IsBlock (block : List Piece) : Prop :=
  block = [] ∨ ∃ turn, 2 ≤ turn ∧ turn ≤ 8 ∧ block = [orientationPiece (UInt8.ofNat turn)]

/-- What is promised of the bytes a file is stripped to. -/
structure Cleaned (src out : Bytes) : Prop where
  reads : ∃ block, IsBlock block ∧ readFile out =
      (readFile src).map fun (pieces, _) => (block ++ pieces.filter fun p => ¬IsMetadata p, [])
  noExif : jpegHasExif out = false
  again : stripJpegMetadata out = some out

/-- At the place the walk of the file takes a length at the marker. -/
def Meets (src : Bytes) (place : Place) (m : UInt8) : Prop :=
  isJpeg src = true ∧
    ∃ pieces body, walk (src.drop 2) = some pieces ∧ .segment m body ∈ piecesAt place pieces

/-! ## Pieces kept -/

theorem filter_kept (pieces : List Piece) :
    pieces.filter kept = pieces.filter fun p => ¬IsMetadata p := by
  apply filter_congr
  intro p _
  rw [Bool.eq_iff_iff, kept_iff, decide_eq_true_iff]

variable {pieces : List Piece}

theorem Between.filter (between : Between pieces) : Between (pieces.filter kept) := by
  induction between with
  | nil => exact .nil
  | @segment m body pieces lengthy real whole rest ih =>
    rw [filter_cons]
    split
    · exact .segment lengthy real whole ih
    · exact ih
  | scan whole rest ih =>
    rw [filter_cons_of_pos rfl]
    exact .scan whole ih

theorem Before.filter (before : Before pieces) : Before (pieces.filter kept) := by
  induction before with
  | mark alone rest ih =>
    rw [filter_cons_of_pos rfl]
    exact .mark alone ih
  | @segment m body pieces lengthy whole rest ih =>
    rw [filter_cons]
    split
    · exact .segment lengthy whole ih
    · exact ih
  | scan whole rest =>
    rw [filter_cons_of_pos rfl]
    exact .scan whole rest.filter

theorem whole_of_length {hi lo : UInt8} {data : Bytes}
    (counts : hi.toNat * 256 + lo.toNat = data.length + 2) : Whole (hi :: lo :: data) := by
  intro rest
  rw [cons_append, cons_append, takeBody, counts]
  rw [if_neg (by rw [length_append]; omega), take_succ_cons, take_succ_cons,
    drop_succ_cons, drop_succ_cons, take_left, drop_left]

theorem whole_orientationBody (turn : UInt8) : Whole (orientationBody turn) := by
  unfold orientationBody
  exact whole_of_length (by simp)

theorem before_block {block : List Piece} (isBlock : IsBlock block) (before : Before pieces) :
    Before (block ++ pieces) := by
  rcases isBlock with rfl | ⟨turn, -, -, rfl⟩
  · exact before
  · exact .segment (by decide) (whole_orientationBody _) before

/-! ## Orientation -/

theorem orientation_orientationBody {turn : Nat} (least : 2 ≤ turn) (most : turn ≤ 8) :
    orientation (orientationBody (UInt8.ofNat turn)) = turn := by
  interval_cases turn <;> decide

theorem noteTurn_of_kept {p : Piece} (isKept : kept p = true) (turn : Nat) :
    noteTurn turn p = turn := by
  cases p with
  | mark m | scan body => rfl
  | segment m body =>
    have notExif : m ≠ 0xE1 := by
      rintro rfl
      cases isKept
    rw [noteTurn, if_neg (fun both => notExif both.1)]

theorem foldl_noteTurn_kept (pieces : List Piece) (turn : Nat) :
    (pieces.filter kept).foldl noteTurn turn = turn := by
  induction pieces with
  | nil => rfl
  | cons p pieces ih =>
    rw [filter_cons]
    split
    next isKept => rw [foldl_cons, noteTurn_of_kept isKept, ih]
    next => exact ih

def blockOf (turn : Nat) : List Piece :=
  if 2 ≤ turn ∧ turn ≤ 8 then [orientationPiece (UInt8.ofNat turn)] else []

theorem isBlock_blockOf (turn : Nat) : IsBlock (blockOf turn) := by
  unfold blockOf
  split
  next turned => exact .inr ⟨turn, turned.1, turned.2, rfl⟩
  next => exact .inl rfl

theorem blockOf_foldl (pieces : List Piece) (turn : Nat) :
    blockOf ((blockOf turn ++ pieces.filter kept).foldl noteTurn 1) = blockOf turn := by
  rw [foldl_append, foldl_noteTurn_kept]
  by_cases turned : 2 ≤ turn ∧ turn ≤ 8
  · have note : (blockOf turn).foldl noteTurn 1 = turn := by
      rw [blockOf, if_pos turned, foldl_cons, foldl_nil, orientationPiece, noteTurn,
        if_pos ⟨rfl, rfl⟩, orientation_orientationBody turned.1 turned.2]
    rw [note]
  · rw [blockOf, blockOf, if_neg turned]
    rfl

theorem filter_kept_blockOf (turn : Nat) : (blockOf turn).filter kept = [] := by
  unfold blockOf
  split <;> rfl

theorem any_isTag_blockOf (turn : Nat) : (blockOf turn).any isTag = false := by
  unfold blockOf
  split
  next => simp [orientationPiece, isTag, isOrientationOnly, orientationOnly, orientationBody]
  next => rfl

theorem any_isTag_kept (pieces : List Piece) : (pieces.filter kept).any isTag = false := by
  rw [any_eq_false]
  intro p inside tagged
  have isKept := (mem_filter.mp inside).2
  cases p with
  | mark m | scan body => cases tagged
  | segment m body =>
    have exif : m = 0xE1 := by
      rw [isTag, Bool.and_eq_true] at tagged
      exact eq_of_beq tagged.1
    subst exif
    cases isKept

/-! ## The result -/

def outOf (pieces : List Piece) : Bytes :=
  [0xFF, 0xD8] ++ flat (blockOf (pieces.foldl noteTurn 1) ++ pieces.filter kept) []

variable {src : Bytes}

theorem strip_of_walk (isFile : isJpeg src = true) (walked : walk (src.drop 2) = some pieces) :
    stripJpegMetadata src = some (outOf pieces) := by
  rw [stripJpegMetadata, isFile, walked]
  simp only [Bool.not_true, Bool.false_eq_true, if_false, Option.map_some, outOf, flat, blockOf]
  split
  next => simp [orientationPiece, orientationOnly, Piece.bytes]
  next => simp

theorem isJpeg_outOf (pieces : List Piece) : isJpeg (outOf pieces) = true := by
  have long : 4 ≤ (outOf pieces).length := by
    simp only [outOf, flat, length_append, length_cons, length_nil]
    omega
  rw [isJpeg, decide_eq_true long]
  rfl

theorem drop_outOf (pieces : List Piece) :
    (outOf pieces).drop 2 = flat (blockOf (pieces.foldl noteTurn 1) ++ pieces.filter kept) [] := rfl

theorem strip_outOf (before : Before pieces) :
    stripJpegMetadata (outOf pieces) = some (outOf pieces) := by
  have put := before_block (isBlock_blockOf (pieces.foldl noteTurn 1)) before.filter
  rw [strip_of_walk (isJpeg_outOf pieces) (walk_flat put []), outOf, outOf, blockOf_foldl,
    filter_append, filter_kept_blockOf, nil_append, filter_filter]
  simp only [Bool.and_self]

theorem jpegHasExif_outOf (before : Before pieces) : jpegHasExif (outOf pieces) = false := by
  have put := before_block (isBlock_blockOf (pieces.foldl noteTurn 1)) before.filter
  rw [jpegHasExif, isJpeg_outOf, drop_outOf, walk_flat put []]
  show (blockOf _ ++ pieces.filter kept).any isTag = false
  rw [any_append, any_isTag_blockOf, any_isTag_kept]
  rfl

theorem readFile_outOf (before : Before pieces) :
    readFile (outOf pieces) =
      some (blockOf (pieces.foldl noteTurn 1) ++ pieces.filter kept, []) := by
  have put := before_block (isBlock_blockOf (pieces.foldl noteTurn 1)) before.filter
  have begins : (outOf pieces).take 2 = [0xFF, 0xD8] := rfl
  rw [readFile, if_pos begins, drop_outOf, read_flat put []]

theorem read_short {s : Bytes} (short : s.length < 2) : read s = none := by
  have noMarker : nextMarker s = none := by
    match s, short with
    | [], _ => rfl
    | [b], _ =>
      rw [nextMarker]
      split <;> rfl
  rw [read]
  split
  next => rfl
  next m rest found =>
    rw [noMarker] at found
    cases found

theorem readFile_of_not_isJpeg (other : isJpeg src = false) : readFile src = none := by
  unfold readFile
  split
  next begins =>
    apply read_short
    rw [isJpeg, begins, beq_self_eq_true, Bool.and_true, decide_eq_false_iff_not] at other
    rw [length_drop]
    omega
  next => rfl

/-! ## Files that are not cleaned -/

theorem Cleaned.metadata {out : Bytes} (cleaned : Cleaned src out) {tail : Bytes}
    (isRead : readFile out = some (pieces, tail)) :
    tail = [] ∧ ∀ p ∈ pieces, IsMetadata p → ∃ turn, p = orientationPiece turn := by
  obtain ⟨block, isBlock, eq⟩ := cleaned.reads
  rw [isRead] at eq
  obtain ⟨⟨pieces', tail'⟩, -, same⟩ := Option.map_eq_some_iff.mp eq.symm
  cases same
  refine ⟨rfl, ?_⟩
  intro p inside isMetadata
  rcases mem_append.mp inside with inBlock | filtered
  · rcases isBlock with rfl | ⟨turn, -, -, rfl⟩
    · cases inBlock
    · exact ⟨_, mem_singleton.mp inBlock⟩
  · exact absurd isMetadata (of_decide_eq_true (mem_filter.mp filtered).2)

theorem not_cleaned_of_exif {out : Bytes} {tail body : Bytes}
    (isRead : readFile out = some (pieces, tail)) (inside : .segment 0xE1 body ∈ pieces)
    (other : body.length ≠ 34) : ¬Cleaned src out := by
  intro cleaned
  obtain ⟨turn, eq⟩ := (cleaned.metadata isRead).2 _ inside (.inl rfl)
  cases eq
  exact other rfl

theorem wholeScan_empty : WholeScan [0, 2] := by
  intro m rest ends
  have whole : takeBody ([0, 2] ++ 0xFF :: m :: rest) = some ([0, 2], 0xFF :: m :: rest) :=
    @whole_of_length 0 2 [] rfl _
  rw [scanData, whole]
  dsimp only
  rw [entropy_end ends]
  rfl

def twoSegments (first m : UInt8) (body : Bytes) : List Piece :=
  [.scan [0, 2], .segment first [0, 2], .segment m body]

def fileOf (pieces : List Piece) : Bytes := [0xFF, 0xD8] ++ flat pieces []

section

variable {first m : UInt8} {body : Bytes}

theorem walk_twoSegments (lengthy : HasLength first) (real : first ≠ 0) (notEnd : m ≠ 0xD9)
    (notScan : m ≠ 0xDA) (whole : Whole body) :
    walk (flat (twoSegments first m body) []) = some (twoSegments first m body) := by
  have empty : Whole [0, 2] := @whole_of_length 0 2 [] rfl
  have last : scan (0xFF :: m :: (body ++ [0xFF, 0xD9])) = some [.segment m body] := by
    rw [scan_segment notEnd notScan (whole [0xFF, 0xD9]), scan, if_pos rfl]
    rfl
  have middle : scan (0xFF :: first :: ([0, 2] ++ 0xFF :: m :: (body ++ [0xFF, 0xD9]))) =
      some [.segment first [0, 2], .segment m body] := by
    rw [scan_segment lengthy.2.1 lengthy.2.2.1 (empty _), last]
    rfl
  have data := wholeScan_empty first ([0, 2] ++ 0xFF :: m :: (body ++ [0xFF, 0xD9]))
    (endsData_of_hasLength lengthy real)
  have bytes : flat (twoSegments first m body) [] =
      0xFF :: 0xDA :: ([0, 2] ++ 0xFF :: first :: ([0, 2] ++ 0xFF :: m :: (body ++ [0xFF, 0xD9]))) := by
    simp [flat, twoSegments, Piece.bytes]
  rw [bytes, walk_scan data, scan_scan data, middle]
  rfl

theorem meets_twoSegments
    (walked : walk (flat (twoSegments first m body) []) = some (twoSegments first m body))
    (plain : ¬Odd .between first) {place : Place} {m' : UInt8} (odd : Odd place m')
    (meets : Meets (fileOf (twoSegments first m body)) place m') : place = .between ∧ m' = m := by
  obtain ⟨-, pieces, body', walked', inside⟩ := meets
  have same : twoSegments first m body = pieces := Option.some.inj (walked.symm.trans walked')
  subst same
  cases place with
  | before => cases inside
  | between =>
    have listed : Piece.segment m' body' ∈ twoSegments first m body := inside
    simp only [twoSegments, mem_cons, not_mem_nil, or_false, Piece.segment.injEq,
      reduceCtorEq, false_or] at listed
    rcases listed with ⟨rfl, -⟩ | ⟨rfl, -⟩
    · exact absurd odd plain
    · exact ⟨rfl, rfl⟩

theorem outOf_twoSegments (notExif : m ≠ 0xE1) (isKept : keeps m body = true) :
    fileOf [.scan [0, 2], .segment m body] = outOf (twoSegments 0xE1 m body) := by
  have turn : (twoSegments 0xE1 m body).foldl noteTurn 1 = 1 := by
    show noteTurn (noteTurn 1 (.segment 0xE1 [0, 2])) (.segment m body) = 1
    rw [noteTurn, noteTurn, if_neg (fun both => notExif both.1), if_pos ⟨rfl, rfl⟩]
    rfl
  have filtered : (twoSegments 0xE1 m body).filter kept = [.scan [0, 2], .segment m body] := by
    rw [twoSegments, filter_cons_of_pos rfl, filter_cons_of_neg (by decide),
      @filter_cons_of_pos _ kept (.segment m body) _ isKept, filter_nil]
  rw [outOf, turn, filtered]
  rfl

end

theorem keeps_of_odd {m : UInt8} (odd : Odd .between m) (body : Bytes) : keeps m body = true := by
  have isKept := (kept_iff (.segment m body)).mpr
  apply isKept
  simp only [Odd, isStandalone, isRestart, Bool.or_eq_true, beq_iff_eq, Bool.and_eq_true,
    decide_eq_true_eq, UInt8.le_iff_toNat_le, ← UInt8.toNat_inj, UInt8.reduceToNat] at odd
  simp only [IsMetadata, UInt8.le_iff_toNat_le, ← UInt8.toNat_inj, UInt8.reduceToNat]
  omega

theorem ne_exif_of_odd {m : UInt8} (odd : Odd .between m) : m ≠ 0xE1 ∧ m ≠ 0xD9 ∧ m ≠ 0xDA := by
  refine ⟨?_, ?_, ?_⟩
  all_goals
    rintro rfl
    exact absurd odd (by simp [Odd, isStandalone, isRestart, UInt8.le_iff_toNat_le])

/-- What an odd marker is followed by so that the reading finds an Exif segment. -/
def cover (m : UInt8) : Bytes :=
  if m = 0xFF then [0x01, 0xFF] ++ [0xE1, 0x01, 0xFC] ++ List.replicate 506 0
  else if m = 0 ∨ isRestart m then [0, 6] ++ [0xFF, 0xE1, 0, 2]
  else [0xFF, 0xE1] ++ [0xFF, 0xDF] ++ List.replicate 65501 0

theorem whole_cover (m : UInt8) : Whole (cover m) := by
  have behindFill : ∀ data : Bytes, data.length = 506 →
      Whole ([0x01, 0xFF] ++ [0xE1, 0x01, 0xFC] ++ data) := by
    intro data long
    exact whole_of_length (by simp [long])
  have behindAlone : ∀ data : Bytes, data.length = 65501 →
      Whole ([0xFF, 0xE1] ++ [0xFF, 0xDF] ++ data) := by
    intro data long
    exact whole_of_length (by simp [long])
  unfold cover
  split
  next => exact behindFill _ length_replicate
  next =>
    split
    next => exact whole_of_length rfl
    next => exact behindAlone _ length_replicate

theorem readFile_fileOf : readFile (fileOf pieces) = read (flat pieces []) := by
  have begins : (fileOf pieces).take 2 = [0xFF, 0xD8] := rfl
  rw [readFile, if_pos begins]
  rfl

theorem read_exif {hi lo : UInt8} {data : Bytes}
    (counts : hi.toNat * 256 + lo.toNat = data.length + 2) :
    read (0xFF :: 0xE1 :: hi :: lo :: (data ++ [0xFF, 0xD9])) =
      some ([.segment 0xE1 (hi :: lo :: data)], []) := by
  have taken : takeBody (hi :: lo :: (data ++ [0xFF, 0xD9])) = some (hi :: lo :: data, [0xFF, 0xD9]) :=
    whole_of_length counts [0xFF, 0xD9]
  rw [read_segment (by decide) taken, read_end]
  rfl

/-- Behind a zero or a restart marker the segment stands in what is now data. -/
theorem readFile_cover_stuffed {m : UInt8} (stuffed : m = 0 ∨ isRestart m = true) :
    readFile (fileOf [.scan [0, 2], .segment m [0, 6, 0xFF, 0xE1, 0, 2]]) =
      some ([.scan [0, 2, 0xFF, m, 0, 6], .segment 0xE1 [0, 2]], []) := by
  have all : ∀ n < 256, (UInt8.ofNat n = 0 ∨ isRestart (UInt8.ofNat n) = true) →
      readFile (fileOf [.scan [0, 2], .segment (UInt8.ofNat n) [0, 6, 0xFF, 0xE1, 0, 2]]) =
        some ([.scan [0, 2, 0xFF, UInt8.ofNat n, 0, 6], .segment 0xE1 [0, 2]], []) := by
    decide +kernel
  have here := all m.toNat m.toNat_lt
  rw [UInt8.ofNat_toNat] at here
  exact here stuffed

theorem readFile_cover_alone {m : UInt8} (alone : isStandalone m = true) (ends : EndsData m)
    {data : Bytes} (long : data.length = 65501) :
    readFile (fileOf [.scan [0, 2], .segment m ([0xFF, 0xE1] ++ [0xFF, 0xDF] ++ data)]) =
      some ([.scan [0, 2], .mark m, .segment 0xE1 (0xFF :: 0xDF :: data)], []) := by
  rw [readFile_fileOf]
  have bytes : flat [.scan [0, 2], .segment m ([0xFF, 0xE1] ++ [0xFF, 0xDF] ++ data)] [] =
      0xFF :: 0xDA :: ([0, 2] ++ 0xFF :: m :: 0xFF :: 0xE1 :: 0xFF :: 0xDF :: (data ++ [0xFF, 0xD9])) := by
    simp [flat, Piece.bytes]
  rw [bytes, read_scan (wholeScan_empty m _ ends), read_mark alone, read_exif (by rw [long]; rfl)]
  rfl

theorem readFile_cover_fill : readFile (fileOf [.scan [0, 2], .segment 0xFF (cover 0xFF)]) =
    some ([.scan [0, 2, 0xFF], .mark 0x01,
      .segment 0xE1 (0x01 :: 0xFC :: List.replicate 506 0)], []) := by
  decide +kernel

/-- The reading of what such a file is stripped to finds the segment. -/
theorem readFile_cover {m : UInt8} (odd : Odd .between m) :
    ∃ pieces body, readFile (fileOf [.scan [0, 2], .segment m (cover m)]) = some (pieces, []) ∧
      .segment 0xE1 body ∈ pieces ∧ body.length ≠ 34 := by
  have third : ∀ p q r : Piece, r ∈ [p, q, r] := by simp
  by_cases fill : m = 0xFF
  · subst fill
    exact ⟨_, _, readFile_cover_fill, third _ _ _, by decide +kernel⟩
  · by_cases stuffed : m = 0 ∨ isRestart m = true
    · rw [cover, if_neg fill, if_pos stuffed]
      exact ⟨_, [0, 2], readFile_cover_stuffed stuffed, mem_cons_of_mem _ mem_cons_self, by decide⟩
    · have alone : isStandalone m = true := by
        rcases odd with zero | fill' | alone
        · exact absurd (.inl zero) stuffed
        · exact absurd fill' fill
        · exact alone
      rw [cover, if_neg fill, if_neg stuffed]
      refine ⟨_, _, readFile_cover_alone alone ⟨stuffed, fill⟩ length_replicate, third _ _ _, ?_⟩
      rw [length_cons, length_cons, length_replicate]
      decide

theorem exists_not_cleaned_between {m : UInt8} (odd : Odd .between m) :
    ∃ src out, stripJpegMetadata src = some out ∧
      (∀ place m', Odd place m' → Meets src place m' → place = .between ∧ m' = m) ∧
        ¬Cleaned src out := by
  obtain ⟨notExif, notEnd, notScan⟩ := ne_exif_of_odd odd
  have walked : walk (flat (twoSegments 0xE1 m (cover m)) []) = some (twoSegments 0xE1 m (cover m)) :=
    walk_twoSegments (by decide) (by decide) notEnd notScan (whole_cover m)
  have isFile : isJpeg (fileOf (twoSegments 0xE1 m (cover m))) = true := rfl
  have plain : ¬Odd .between 0xE1 := by simp [Odd, isStandalone, isRestart, UInt8.le_iff_toNat_le]
  refine ⟨_, _, strip_of_walk isFile walked, ?_, ?_⟩
  · intro place m' odd' meets
    exact meets_twoSegments walked plain odd' meets
  · obtain ⟨pieces, body, isRead, inside, other⟩ := readFile_cover odd
    rw [outOf_twoSegments notExif (keeps_of_odd odd _)] at isRead
    exact not_cleaned_of_exif isRead inside other

/-- The end of the image as the first segment: the scan stands behind it. -/
def earlyEnd : List Piece := [.segment 0xD9 [0, 2], .scan [0, 2]]

theorem walk_earlyEnd : walk (flat earlyEnd []) = some earlyEnd := by decide +kernel

theorem exists_not_cleaned_before :
    ∃ src out, stripJpegMetadata src = some out ∧
      (∀ place m', Odd place m' → Meets src place m' → place = .before ∧ m' = 0xD9) ∧
        ¬Cleaned src out := by
  have isFile : isJpeg (fileOf earlyEnd) = true := rfl
  refine ⟨_, _, strip_of_walk isFile walk_earlyEnd, ?_, ?_⟩
  · rintro place m' odd ⟨-, pieces, body, walked, inside⟩
    have same : earlyEnd = pieces := Option.some.inj (walk_earlyEnd.symm.trans walked)
    subst same
    cases place with
    | before => exact ⟨rfl, odd⟩
    | between =>
      have listed : Piece.segment m' body ∈ [Piece.scan [0, 2]] := inside
      simp at listed
  · intro cleaned
    have isRead : readFile (outOf earlyEnd) = some ([], [0, 2, 0xFF, 0xDA, 0, 2, 0xFF, 0xD9]) :=
      read_end _
    exact absurd (cleaned.metadata isRead).1 (by decide)

/-- A file whose walk takes no length at an odd marker is cleaned. -/
theorem cleaned_of_no_odd {src out : Bytes} (stripped : stripJpegMetadata src = some out)
    (tame : ∀ place m, Odd place m → ¬Meets src place m) : Cleaned src out := by
  by_cases isFile : isJpeg src = true
  · cases walked : walk (src.drop 2) with
    | none =>
      rw [stripJpegMetadata, isFile, walked] at stripped
      cases stripped
    | some pieces =>
      rw [strip_of_walk isFile walked] at stripped
      cases stripped
      have tame' : Tame pieces := by
        intro place m body inside odd
        exact tame place m odd ⟨isFile, pieces, body, walked, inside⟩
      obtain ⟨before, tail, isRead⟩ := walk_sound walked tame'
      refine ⟨⟨blockOf (pieces.foldl noteTurn 1), isBlock_blockOf _, ?_⟩,
        jpegHasExif_outOf before, strip_outOf before⟩
      have begins : src.take 2 = [0xFF, 0xD8] := by
        rw [isJpeg, Bool.and_eq_true] at isFile
        exact eq_of_beq isFile.2
      rw [readFile_outOf before, readFile, if_pos begins, isRead, filter_kept]
      rfl
  · have other : isJpeg src = false := by simpa using isFile
    rw [stripJpegMetadata, other] at stripped
    cases stripped
    refine ⟨⟨[], .inl rfl, ?_⟩, ?_, ?_⟩
    · rw [readFile_of_not_isJpeg other]
      rfl
    · rw [jpegHasExif, other]
      rfl
    · rw [stripJpegMetadata, other]
      rfl

/-- Of the markers at which a length is taken and that have none, only a set without any of
them leaves every file cleaned. -/
theorem cleaned_iff_no_odd (extra : Place → UInt8 → Prop) :
    (∀ src out, stripJpegMetadata src = some out →
        (∀ place m, Odd place m → Meets src place m → extra place m) → Cleaned src out) ↔
      ∀ place m, Odd place m → ¬extra place m := by
  constructor
  · intro cleans place m odd isExtra
    have found : ∃ src out, stripJpegMetadata src = some out ∧
        (∀ place' m', Odd place' m' → Meets src place' m' → place' = place ∧ m' = m) ∧
          ¬Cleaned src out := by
      cases place with
      | before =>
        cases odd
        exact exists_not_cleaned_before
      | between => exact exists_not_cleaned_between odd
    obtain ⟨src, out, stripped, only, notCleaned⟩ := found
    refine notCleaned (cleans src out stripped ?_)
    intro place' m' odd' meets
    obtain ⟨rfl, rfl⟩ := only place' m' odd' meets
    exact isExtra
  · intro without src out stripped within
    apply cleaned_of_no_odd stripped
    intro place m odd meets
    exact without place m odd (within place m odd meets)

def behindTable : List Piece := twoSegments 0xC4 0xFF (cover 0xFF)

/-- The file comes back as it was and counts as clean, and is read with the segment in it. -/
theorem fill_keeps_exif :
    stripJpegMetadata (fileOf behindTable) = some (fileOf behindTable) ∧
      jpegHasExif (fileOf behindTable) = false ∧
        ¬Cleaned (fileOf behindTable) (fileOf behindTable) := by
  have read : readFile (fileOf behindTable) = some ([.scan [0, 2], .segment 0xC4 [0, 2], .mark 0x01,
      .segment 0xE1 (0x01 :: 0xFC :: List.replicate 506 0)], []) := by decide +kernel
  have fourth : ∀ p q r t : Piece, t ∈ [p, q, r, t] := by simp
  exact ⟨by decide +kernel, by decide +kernel,
    not_cleaned_of_exif read (fourth _ _ _ _) (by decide +kernel)⟩

end Kryfo.Picture.Jpeg
