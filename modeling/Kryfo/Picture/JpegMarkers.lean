import Kryfo.Picture.Jpeg

/-!
# A JPEG read by its markers

Any number of fill bytes may stand before a marker, and the standalone markers carry no length.  A
zero where a marker should be is read as a reserved one, so that nothing hides behind it.

A walk that takes lengths only where markers have them reads the same, and its pieces put together
again are read and walked as the same pieces.
-/

namespace Kryfo.Picture.Jpeg

open Library List

/-! ## The reading -/

/-- The marker a stretch begins with, past its fill bytes. -/
def nextMarker : Bytes → Option (UInt8 × Bytes)
  | b :: rest =>
    if b ≠ 0xFF then none
    else
      match rest.dropWhile (· = 0xFF) with
      | m :: after => some (m, after)
      | [] => none
  | [] => none

variable {rest s : Bytes} {m : UInt8}

theorem length_of_nextMarker (found : nextMarker s = some (m, rest)) : rest.length < s.length := by
  unfold nextMarker at found
  split at found
  next b after =>
    split at found
    next => cases found
    next =>
      split at found
      next m' rest' eq =>
        cases found
        have shorter := (dropWhile_sublist (l := after) fun u : UInt8 => decide (u = 0xFF)).length_le
        rw [eq, length_cons] at shorter
        simp only [length_cons]
        omega
      next => cases found
  next => cases found

/-- The pieces up to the end of the image, and what stands after it. -/
def read (s : Bytes) : Option (List Piece × Bytes) :=
  match _found : nextMarker s with
  | none => none
  | some (m, rest) =>
    if m = 0xD9 then some ([], rest)
    else if isStandalone m then (read rest).map fun (pieces, tail) => (.mark m :: pieces, tail)
    else if m = 0xDA then
      match _data : scanData rest with
      | none => none
      | some (body, next) => (read next).map fun (pieces, tail) => (.scan body :: pieces, tail)
    else
      match _taken : takeBody rest with
      | none => none
      | some (body, next) =>
        (read next).map fun (pieces, tail) => (.segment m body :: pieces, tail)
termination_by s.length
decreasing_by
  · exact length_of_nextMarker _found
  · have := length_of_nextMarker _found
    have := length_of_scanData _data
    omega
  · have := length_of_nextMarker _found
    have := length_of_takeBody _taken
    omega

def readFile (src : Bytes) : Option (List Piece × Bytes) :=
  if src.take 2 = [0xFF, 0xD8] then read (src.drop 2) else none

/-- Exif and XMP, the other application segments but the colour profile, and comments. -/
def IsMetadata : Piece → Prop
  | .segment m body => m = 0xE1 ∨ m = 0xE2 ∧ ¬icc <+: body.drop 2 ∨ 0xE3 ≤ m ∧ m ≤ 0xEF ∨ m = 0xFE
  | _ => False

theorem app_iff (m : UInt8) :
    0xE1 ≤ m ∧ m ≤ 0xEF ↔ m = 0xE1 ∨ m = 0xE2 ∨ 0xE3 ≤ m ∧ m ≤ 0xEF := by
  simp only [UInt8.le_iff_toNat_le, ← UInt8.toNat_inj, UInt8.reduceToNat]
  omega

theorem kept_iff (p : Piece) : kept p = true ↔ ¬IsMetadata p := by
  cases p with
  | mark m | scan body => simp [kept, IsMetadata]
  | segment m body =>
    have begins : isIcc body = true ↔ icc <+: body.drop 2 := isPrefixOf_iff_prefix
    simp only [kept, keeps, IsMetadata]
    split_ifs with jfif profile app comment
    · subst jfif
      simp [UInt8.le_iff_toNat_le]
    · subst profile
      simp [begins]
    · rcases (app_iff m).mp app with exif | profile' | other
      · simp [exif]
      · exact absurd profile' profile
      · simp [other]
    · simp [comment]
    · have notApp := (app_iff m).not.mp app
      rw [not_or, not_or] at notApp
      simp only [notApp.1, notApp.2.2, profile, comment, false_and, or_false, not_false_eq_true]

instance (p : Piece) : Decidable (IsMetadata p) :=
  decidable_of_iff (¬kept p = true) (by rw [kept_iff, not_not])

/-! ### One piece at a time -/

theorem nextMarker_cons (notFill : m ≠ 0xFF) (rest : Bytes) :
    nextMarker (0xFF :: m :: rest) = some (m, rest) := by
  rw [nextMarker, if_neg (by simp), dropWhile_cons_of_neg (by simpa using notFill)]

theorem nextMarker_fill (rest : Bytes) :
    nextMarker (0xFF :: 0xFF :: rest) = nextMarker (0xFF :: rest) := by
  rw [nextMarker, nextMarker, if_neg (by simp), if_neg (by simp), dropWhile_cons_of_pos (by simp)]

theorem read_fill (rest : Bytes) : read (0xFF :: 0xFF :: rest) = read (0xFF :: rest) := by
  rw [read, read, nextMarker_fill]

theorem read_eq (found : nextMarker s = some (m, rest)) :
    read s = if m = 0xD9 then some ([], rest)
      else if isStandalone m then (read rest).map fun (pieces, tail) => (.mark m :: pieces, tail)
      else if m = 0xDA then
        (scanData rest).bind fun (body, next) =>
          (read next).map fun (pieces, tail) => (.scan body :: pieces, tail)
      else
        (takeBody rest).bind fun (body, next) =>
          (read next).map fun (pieces, tail) => (.segment m body :: pieces, tail) := by
  rw [read]
  split
  next none' =>
    rw [found] at none'
    cases none'
  next m' rest' found' =>
    rw [found] at found'
    cases found'
    congr 1
    congr 1
    congr 1
    · split
      next none' => rw [none']; rfl
      next body next data => rw [data]; rfl
    · split
      next none' => rw [none']; rfl
      next body next taken => rw [taken]; rfl

theorem read_end (tail : Bytes) : read (0xFF :: 0xD9 :: tail) = some ([], tail) := by
  rw [read_eq (nextMarker_cons (by decide) tail), if_pos rfl]

theorem read_mark (alone : isStandalone m = true) (rest : Bytes) :
    read (0xFF :: m :: rest) = (read rest).map fun (pieces, tail) => (.mark m :: pieces, tail) := by
  have notFill : m ≠ 0xFF := by
    rintro rfl
    exact absurd alone (by decide)
  have notEnd : m ≠ 0xD9 := by
    rintro rfl
    exact absurd alone (by decide)
  rw [read_eq (nextMarker_cons notFill rest), if_neg notEnd, if_pos alone]

variable {next body : Bytes}

theorem read_scan (data : scanData rest = some (body, next)) :
    read (0xFF :: 0xDA :: rest) =
      (read next).map fun (pieces, tail) => (.scan body :: pieces, tail) := by
  rw [read_eq (nextMarker_cons (by decide) rest), data]
  rfl

def HasLength (m : UInt8) : Prop :=
  m ≠ 0xFF ∧ m ≠ 0xD9 ∧ m ≠ 0xDA ∧ isStandalone m = false

instance (m : UInt8) : Decidable (HasLength m) := by
  unfold HasLength
  infer_instance

theorem read_segment (lengthy : HasLength m) (taken : takeBody rest = some (body, next)) :
    read (0xFF :: m :: rest) =
      (read next).map fun (pieces, tail) => (.segment m body :: pieces, tail) := by
  obtain ⟨notFill, notEnd, notScan, notAlone⟩ := lengthy
  rw [read_eq (nextMarker_cons notFill rest), if_neg notEnd, if_neg (by simp [notAlone]),
    if_neg notScan, taken]
  rfl

/-! ## Pieces that can be put together again -/

def Whole (body : Bytes) : Prop := ∀ rest, takeBody (body ++ rest) = some (body, rest)

def EndsData (m : UInt8) : Prop := ¬(m = 0 ∨ isRestart m = true) ∧ m ≠ 0xFF

/-- A scan's header and data that the next real marker ends. -/
def WholeScan (body : Bytes) : Prop :=
  ∀ m rest, EndsData m → scanData (body ++ 0xFF :: m :: rest) = some (body, 0xFF :: m :: rest)

theorem takeBody_whole (taken : takeBody s = some (body, rest)) :
    s = body ++ rest ∧ Whole body := by
  unfold takeBody at taken
  split at taken
  next hi lo after =>
    dsimp only at taken
    split at taken
    next => cases taken
    next fits =>
      cases taken
      generalize eq : hi.toNat * 256 + lo.toNat = len at fits
      obtain ⟨len', rfl⟩ : ∃ len', len = len' + 2 := ⟨len - 2, by omega⟩
      refine ⟨(take_append_drop _ _).symm, ?_⟩
      intro rest
      rw [take_succ_cons, take_succ_cons, cons_append, cons_append, takeBody, eq]
      have long : (after.take len').length = len' := by
        rw [length_take]
        omega
      rw [if_neg (by rw [length_append, long]; omega), take_succ_cons, take_succ_cons,
        drop_succ_cons, drop_succ_cons, take_left' long, drop_left' long]
  next => cases taken

variable {b : UInt8}

theorem entropy_plain (plain : b ≠ 0xFF) {data : Bytes} (found : entropy s = some (data, next)) :
    entropy (b :: s) = some (b :: data, next) := by
  cases s with
  | nil => cases found
  | cons m rest => rw [entropy, if_pos plain, found]; rfl

theorem entropy_fill {data : Bytes} (found : entropy (0xFF :: s) = some (data, next)) :
    entropy (0xFF :: 0xFF :: s) = some (0xFF :: data, next) := by
  rw [entropy, found]
  rfl

theorem entropy_end (ends : EndsData m) (rest : Bytes) :
    entropy (0xFF :: m :: rest) = some ([], 0xFF :: m :: rest) := by
  rw [entropy, if_neg (by simp), if_neg ends.1, if_neg ends.2]

/-- A real marker ends the data, which is the same before any other. -/
structure Splits (data next : Bytes) : Prop where
  ended : ∃ m rest, next = 0xFF :: m :: rest ∧ EndsData m
  again : ∀ m rest, EndsData m →
    entropy (data ++ 0xFF :: m :: rest) = some (data, 0xFF :: m :: rest)

theorem entropy_splits {data : Bytes} (found : entropy s = some (data, next)) :
    Splits data next := by
  fun_induction entropy s generalizing data next with
  | case1 | case2 => cases found
  | case3 b m rest plain ih =>
    obtain ⟨⟨data', next'⟩, found', eq⟩ := Option.map_eq_some_iff.mp found
    cases eq
    exact ⟨(ih found').ended,
      fun m' rest' ends => entropy_plain plain ((ih found').again m' rest' ends)⟩
  | case4 b m rest isMarker stuffed ih =>
    obtain ⟨⟨data', next'⟩, found', eq⟩ := Option.map_eq_some_iff.mp found
    cases eq
    refine ⟨(ih found').ended, fun m' rest' ends => ?_⟩
    rw [cons_append, cons_append, entropy, if_neg isMarker, if_pos stuffed,
      (ih found').again m' rest' ends]
    rfl
  | case5 b rest isMarker notStuffed ih =>
    obtain ⟨⟨data', next'⟩, found', eq⟩ := Option.map_eq_some_iff.mp found
    cases eq
    refine ⟨(ih found').ended, fun m' rest' ends => ?_⟩
    have isFill : b = 0xFF := not_not.mp isMarker
    subst isFill
    -- What follows the fill byte begins with `0xFF` again, whatever marker ends the data.
    obtain ⟨s', begins⟩ : ∃ s', data' ++ 0xFF :: m' :: rest' = 0xFF :: s' := by
      cases data' with
      | nil => exact ⟨_, rfl⟩
      | cons c data' =>
        cases eq_of_entropy found'
        exact ⟨_, rfl⟩
    have again := (ih found').again m' rest' ends
    rw [cons_append, begins]
    rw [begins] at again
    exact entropy_fill again
  | case6 b m rest isMarker notStuffed notFill =>
    cases found
    have first : b = 0xFF := not_not.mp isMarker
    subst first
    exact ⟨⟨m, rest, rfl, notStuffed, notFill⟩, fun m' rest' ends => entropy_end ends rest'⟩

theorem scanData_whole (found : scanData s = some (body, next)) :
    WholeScan body ∧ ∃ m rest, next = 0xFF :: m :: rest ∧ EndsData m := by
  unfold scanData at found
  split at found
  next => cases found
  next head rest taken =>
    obtain ⟨⟨data, next'⟩, found', eq⟩ := Option.map_eq_some_iff.mp found
    cases eq
    have split := entropy_splits found'
    refine ⟨?_, split.ended⟩
    intro m rest' ends
    rw [scanData, append_assoc, (takeBody_whole taken).2]
    dsimp only
    rw [split.again m rest' ends]
    rfl

/-! ## Walks and readings of the same pieces -/

/-- Pieces from a scan on, as a walk gives them that takes lengths where markers have them. -/
inductive Between : List Piece → Prop where
  | nil : Between []
  | segment {m : UInt8} {body : Bytes} {pieces : List Piece} (lengthy : HasLength m) (real : m ≠ 0)
      (whole : Whole body) (rest : Between pieces) : Between (.segment m body :: pieces)
  | scan {body : Bytes} {pieces : List Piece} (whole : WholeScan body) (rest : Between pieces) :
      Between (.scan body :: pieces)

inductive Before : List Piece → Prop where
  | mark {m : UInt8} {pieces : List Piece} (alone : isStandalone m = true) (rest : Before pieces) :
      Before (.mark m :: pieces)
  | segment {m : UInt8} {body : Bytes} {pieces : List Piece} (lengthy : HasLength m)
      (whole : Whole body) (rest : Before pieces) : Before (.segment m body :: pieces)
  | scan {body : Bytes} {pieces : List Piece} (whole : WholeScan body) (rest : Between pieces) :
      Before (.scan body :: pieces)

def flat (pieces : List Piece) (tail : Bytes) : Bytes :=
  pieces.flatMap Piece.bytes ++ 0xFF :: 0xD9 :: tail

theorem flat_cons (p : Piece) (pieces : List Piece) (tail : Bytes) :
    flat (p :: pieces) tail = p.bytes ++ flat pieces tail := by
  rw [flat, flat, flatMap_cons, append_assoc]

theorem endsData_of_hasLength (lengthy : HasLength m) (real : m ≠ 0) : EndsData m := by
  refine ⟨?_, lengthy.1⟩
  rintro (zero | restart)
  · exact real zero
  · exact absurd lengthy.2.2.2 (by simp [isStandalone, restart])

variable {pieces : List Piece}

theorem Between.begins (between : Between pieces) (tail : Bytes) :
    ∃ m rest, flat pieces tail = 0xFF :: m :: rest ∧ EndsData m := by
  cases between with
  | nil => exact ⟨0xD9, tail, rfl, by decide, by decide⟩
  | @segment m body pieces lengthy real _ _ =>
    exact ⟨m, _, flat_cons _ _ _, endsData_of_hasLength lengthy real⟩
  | @scan body pieces _ _ => exact ⟨0xDA, _, flat_cons _ _ _, by decide, by decide⟩

theorem scan_scan (data : scanData rest = some (body, next)) :
    scan (b :: 0xDA :: rest) = (scan next).map (Piece.scan body :: ·) := by
  rw [scan, if_neg (by decide), if_pos rfl]
  split
  next none' =>
    rw [data] at none'
    cases none'
  next body' next' data' =>
    rw [data] at data'
    cases data'
    rfl

theorem scan_segment (notEnd : m ≠ 0xD9) (notScan : m ≠ 0xDA) {m' : UInt8}
    (taken : takeBody rest = some (body, 0xFF :: m' :: next)) :
    scan (b :: m :: rest) = (scan (0xFF :: m' :: next)).map (Piece.segment m body :: ·) := by
  rw [scan, if_neg notEnd, if_neg notScan]
  split
  next none' =>
    rw [taken] at none'
    cases none'
  next body' b' m'' next' taken' =>
    rw [taken] at taken'
    cases taken'
    rw [if_neg (by simp)]
  next other taken' =>
    rw [taken] at taken'
    cases taken'
    exact absurd rfl (other _ _ _ _)

theorem scan_flat (between : Between pieces) (tail : Bytes) :
    scan (flat pieces tail) = some pieces := by
  induction between with
  | nil => rw [flat, flatMap_nil, nil_append, scan, if_pos rfl]
  | @segment m body pieces lengthy real whole rest ih =>
    obtain ⟨m', next, begins, -⟩ := rest.begins tail
    have taken := whole (flat pieces tail)
    rw [begins] at taken ih
    rw [flat_cons, begins]
    show scan (0xFF :: m :: (body ++ _)) = _
    rw [scan_segment lengthy.2.1 lengthy.2.2.1 taken, ih]
    rfl
  | @scan body pieces whole rest ih =>
    obtain ⟨m', next, begins, ends⟩ := rest.begins tail
    rw [begins] at ih
    rw [flat_cons, begins]
    show scan (0xFF :: 0xDA :: (body ++ _)) = _
    rw [scan_scan (whole m' next ends), ih]
    rfl

theorem read_flat_between (between : Between pieces) (tail : Bytes) :
    read (flat pieces tail) = some (pieces, tail) := by
  induction between with
  | nil => exact read_end tail
  | @segment m body pieces lengthy real whole rest ih =>
    rw [flat_cons]
    show read (0xFF :: m :: (body ++ _)) = _
    rw [read_segment lengthy (whole _), ih]
    rfl
  | @scan body pieces whole rest ih =>
    obtain ⟨m', next, begins, ends⟩ := rest.begins tail
    rw [begins] at ih
    rw [flat_cons, begins]
    show read (0xFF :: 0xDA :: (body ++ _)) = _
    rw [read_scan (whole m' next ends), ih]
    rfl

theorem two_of_takeBody (taken : takeBody s = some (body, rest)) :
    ∃ hi lo after, s = hi :: lo :: after := by
  unfold takeBody at taken
  split at taken
  next hi lo after => exact ⟨hi, lo, after, rfl⟩
  next => cases taken

theorem walk_mark (alone : isStandalone m = true) (hi lo : UInt8) (rest : Bytes) :
    walk (0xFF :: m :: hi :: lo :: rest) = (walk (hi :: lo :: rest)).map (Piece.mark m :: ·) := by
  have notFill : m ≠ 0xFF := by
    rintro rfl
    exact absurd alone (by decide)
  have notScan : m ≠ 0xDA := by
    rintro rfl
    exact absurd alone (by decide)
  rw [walk, if_neg (by simp), if_neg notFill, if_neg notScan, if_pos alone]

theorem walk_segment (notFill : m ≠ 0xFF) (notScan : m ≠ 0xDA) (notAlone : isStandalone m = false)
    (taken : takeBody rest = some (body, next)) :
    walk (0xFF :: m :: rest) = (walk next).map (Piece.segment m body :: ·) := by
  obtain ⟨hi, lo, after, rfl⟩ := two_of_takeBody taken
  rw [walk, if_neg (by simp), if_neg notFill, if_neg notScan, if_neg (by simp [notAlone])]
  split
  next none' =>
    rw [taken] at none'
    cases none'
  next body' next' taken' =>
    rw [taken] at taken'
    cases taken'
    rfl

theorem walk_scan (data : scanData rest = some (body, next)) :
    walk (0xFF :: 0xDA :: rest) = scan (0xFF :: 0xDA :: rest) := by
  obtain ⟨hi, lo, after, rfl⟩ : ∃ hi lo after, rest = hi :: lo :: after := by
    unfold scanData at data
    split at data
    next => cases data
    next taken => exact two_of_takeBody taken
  rw [walk, if_neg (by simp), if_neg (by decide), if_pos rfl]

theorem Before.begins (before : Before pieces) (tail : Bytes) :
    ∃ hi lo rest, flat pieces tail = hi :: lo :: rest := by
  cases before with
  | @mark m | @segment m => exact ⟨0xFF, m, _, flat_cons _ _ _⟩
  | scan => exact ⟨0xFF, 0xDA, _, flat_cons _ _ _⟩

theorem walk_flat (before : Before pieces) (tail : Bytes) :
    walk (flat pieces tail) = some pieces := by
  induction before with
  | @mark m pieces alone rest ih =>
    obtain ⟨hi, lo, next, begins⟩ := rest.begins tail
    rw [begins] at ih
    rw [flat_cons, begins]
    show walk (0xFF :: m :: hi :: lo :: next) = _
    rw [walk_mark alone, ih]
    rfl
  | @segment m body pieces lengthy whole rest ih =>
    rw [flat_cons]
    show walk (0xFF :: m :: (body ++ _)) = _
    rw [walk_segment lengthy.1 lengthy.2.2.1 lengthy.2.2.2 (whole _), ih]
    rfl
  | @scan body pieces whole rest =>
    have walked := scan_flat (.scan whole rest) tail
    obtain ⟨m', next, begins, ends⟩ := rest.begins tail
    rw [flat_cons, begins] at walked ⊢
    exact (walk_scan (whole m' next ends)).trans walked

theorem read_flat (before : Before pieces) (tail : Bytes) :
    read (flat pieces tail) = some (pieces, tail) := by
  induction before with
  | @mark m pieces alone rest ih =>
    show read (0xFF :: m :: flat pieces tail) = _
    rw [read_mark alone, ih]
    rfl
  | @segment m body pieces lengthy whole rest ih =>
    rw [flat_cons]
    show read (0xFF :: m :: (body ++ _)) = _
    rw [read_segment lengthy (whole _), ih]
    rfl
  | @scan body pieces whole rest => exact read_flat_between (.scan whole rest) tail

/-! ## Walks of files -/

/-- The two places a walk is at. -/
inductive Place where
  | before
  | between
deriving DecidableEq

/-- The markers at which the walk takes a length that markers do not have: the end of the image
before any scan, and between scans a fill byte, a zero or a standalone marker. -/
def Odd : Place → UInt8 → Prop
  | .before, m => m = 0xD9
  | .between, m => m = 0 ∨ m = 0xFF ∨ isStandalone m = true

def isScan : Piece → Bool
  | .scan _ => true
  | _ => false

def piecesAt : Place → List Piece → List Piece
  | .before, pieces => pieces.takeWhile (!isScan ·)
  | .between, pieces => pieces.dropWhile (!isScan ·)

def Tame (pieces : List Piece) : Prop :=
  ∀ place m body, .segment m body ∈ piecesAt place pieces → ¬Odd place m

theorem Tame.of_cons {p : Piece} (notScan : isScan p = false) (tame : Tame (p :: pieces)) :
    Tame pieces := by
  intro place m body read odd
  refine tame place m body ?_ odd
  cases place with
  | before =>
    rw [piecesAt, takeWhile_cons_of_pos (by simp [notScan])]
    exact mem_cons_of_mem _ read
  | between =>
    rw [piecesAt, dropWhile_cons_of_pos (by simp [notScan])]
    exact read

theorem hasLength_of_not_odd (notEnd : m ≠ 0xD9) (notScan : m ≠ 0xDA) (notOdd : ¬Odd .between m) :
    HasLength m ∧ m ≠ 0 := by
  rw [Odd, not_or, not_or] at notOdd
  obtain ⟨notZero, notFill, notAlone⟩ := notOdd
  exact ⟨⟨notFill, notEnd, notScan, by simpa using notAlone⟩, notZero⟩

theorem scan_sound (walked : scan s = some pieces) (first : s.head? = some 0xFF)
    (tame : ∀ m body, .segment m body ∈ pieces → ¬Odd .between m) :
    Between pieces ∧ ∃ tail, read s = some (pieces, tail) := by
  fun_induction scan s generalizing pieces with
  | case1 b rest =>
    cases walked
    cases first
    exact ⟨.nil, rest, read_end rest⟩
  | case2 | case4 | case5 | case7 | case8 => cases walked
  | case3 b rest body next data notEnd ih =>
    obtain ⟨pieces, walked', rfl⟩ := Option.map_eq_some_iff.mp walked
    cases first
    obtain ⟨whole, m', after, begins, ends⟩ := scanData_whole data
    have first' : next.head? = some 0xFF := by rw [begins]; rfl
    have tame' : ∀ m body, .segment m body ∈ pieces → ¬Odd .between m := by
      intro m body' inside
      exact tame m body' (mem_cons_of_mem _ inside)
    obtain ⟨between, tail, isRead⟩ := ih walked' first' tame'
    exact ⟨.scan whole between, tail, by rw [read_scan data, isRead]; rfl⟩
  | case6 b m rest notEnd notScan body b' m' next taken isMarker ih =>
    obtain ⟨pieces, walked', rfl⟩ := Option.map_eq_some_iff.mp walked
    cases first
    have first' : (b' :: m' :: next).head? = some 0xFF := congrArg some (not_not.mp isMarker)
    have tame' : ∀ m body, .segment m body ∈ pieces → ¬Odd .between m := by
      intro m body' inside
      exact tame m body' (mem_cons_of_mem _ inside)
    obtain ⟨between, tail, isRead⟩ := ih walked' first' tame'
    obtain ⟨lengthy, real⟩ := hasLength_of_not_odd notEnd notScan
      (tame m body mem_cons_self)
    refine ⟨.segment lengthy real (takeBody_whole taken).2 between, tail, ?_⟩
    rw [read_segment lengthy taken, isRead]
    rfl

theorem scan_head (walked : scan (b :: 0xDA :: s) = some pieces) :
    ∃ body rest, pieces = .scan body :: rest := by
  rw [scan, if_neg (by decide), if_pos rfl] at walked
  split at walked
  next => cases walked
  next body next _ =>
    obtain ⟨rest, -, rfl⟩ := Option.map_eq_some_iff.mp walked
    exact ⟨body, rest, rfl⟩

theorem walk_sound (walked : walk s = some pieces) (tame : Tame pieces) :
    Before pieces ∧ ∃ tail, read s = some (pieces, tail) := by
  fun_induction walk s generalizing pieces with
  | case1 | case5 | case7 => cases walked
  | case2 b hi lo rest isMarker ih =>
    obtain ⟨before, tail, isRead⟩ := ih walked tame
    have fill : b = 0xFF := not_not.mp isMarker
    subst fill
    exact ⟨before, tail, (read_fill _).trans isRead⟩
  | case3 b hi lo rest isMarker notFill =>
    have first : b = 0xFF := not_not.mp isMarker
    subst first
    obtain ⟨body, pieces, rfl⟩ := scan_head walked
    have tame' : ∀ m body', .segment m body' ∈ Piece.scan body :: pieces → ¬Odd .between m := by
      intro m body' inside
      exact tame .between m body' inside
    obtain ⟨between, tail, isRead⟩ := scan_sound walked rfl tame'
    cases between with
    | scan whole between => exact ⟨.scan whole between, tail, isRead⟩
  | case4 b m hi lo rest isMarker notFill notScan alone ih =>
    obtain ⟨pieces, walked', rfl⟩ := Option.map_eq_some_iff.mp walked
    have first : b = 0xFF := not_not.mp isMarker
    subst first
    obtain ⟨before, tail, isRead⟩ := ih walked' (tame.of_cons rfl)
    exact ⟨.mark alone before, tail, by rw [read_mark alone, isRead]; rfl⟩
  | case6 b m hi lo rest isMarker notFill notScan notAlone body next taken ih =>
    obtain ⟨pieces, walked', rfl⟩ := Option.map_eq_some_iff.mp walked
    have first : b = 0xFF := not_not.mp isMarker
    subst first
    obtain ⟨before, tail, isRead⟩ := ih walked' (tame.of_cons rfl)
    have notEnd : m ≠ 0xD9 := tame .before m body mem_cons_self
    have lengthy : HasLength m := ⟨notFill, notEnd, notScan, by simpa using notAlone⟩
    refine ⟨.segment lengthy (takeBody_whole taken).2 before, tail, ?_⟩
    rw [read_segment lengthy taken, isRead]
    rfl

end Kryfo.Picture.Jpeg
