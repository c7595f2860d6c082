import Kryfo.Wire.Pad

/-!
# The laws of padding

A filled frame measures the least allowed size that it fits with an empty filler, and taking the
filler out gives the frame back, but for a frame of an allowed size with an empty filler and one
past every rumor size with a second filler.
-/

namespace Kryfo.Wire

open Library Library.Utf16 List

/-! ## Heads -/

def heads : List Text := [headText ++ [leftBrace], [leftBrace]]

variable {head : Text}

theorem bodyAt_append (isHead : head ∈ heads) (body : Text) :
    bodyAt (head ++ body) = some head.length := by
  simp only [heads, mem_cons, not_mem_nil, or_false] at isHead
  rcases isHead with rfl | rfl
  · rfl
  · rfl

variable {start : Nat}

theorem exists_head {s : Text} (begins : bodyAt s = some start) :
    ∃ head ∈ heads, ∃ body, s = head ++ body ∧ start = head.length := by
  unfold bodyAt at begins
  split at begins
  next long =>
    obtain ⟨body, rfl⟩ := isPrefixOf_iff_prefix.mp long
    cases begins
    exact ⟨_, mem_cons_self, body, rfl, rfl⟩
  next =>
    split at begins
    next short =>
      obtain ⟨body, rfl⟩ := isPrefixOf_iff_prefix.mp short
      cases begins
      exact ⟨[leftBrace], by simp [heads], body, rfl, rfl⟩
    next => cases begins

theorem unpad_of_none {s : Text} (noHead : bodyAt s = none) : unpad s = s := by
  rw [unpad, noHead]

theorem unpad_append (isHead : head ∈ heads) (body : Text) :
    unpad (head ++ body) = head ++ (strip body).getD body := by
  unfold unpad
  rw [bodyAt_append isHead]
  dsimp only
  rw [drop_left, take_left]
  cases strip body <;> rfl

/-! ## Fillers -/

/-- Behind a filler that is seen come the fields: the filler has any one character, zeros, the
closing quote, and a comma unless the frame ends there. -/
def Filled (text body : Text) : Prop :=
  ∃ c zeros, ∃ close ∈ [[quote, comma], [quote]],
    text = fieldText ++ c :: (List.replicate zeros zero ++ (close ++ body)) ∧
      (close = [quote] → body.head? = some rightBrace)

theorem drop_field (c : UInt16) (rest : Text) :
    (fieldText ++ c :: rest).drop (padField.length + 5) = rest := by
  rw [← singleton_append, ← append_assoc]
  exact drop_left' rfl

theorem strip_eq_some_iff {text body : Text} : strip text = some body ↔ Filled text body := by
  constructor
  · intro stripped
    unfold strip at stripped
    split at stripped
    next begins =>
      obtain ⟨_ | ⟨c, rest⟩, rfl⟩ := isPrefixOf_iff_prefix.mp begins
      · cases stripped
      rw [drop_field] at stripped
      have parts := takeWhile_append_dropWhile (p := fun u => decide (u = zero)) (l := rest)
      have zeros : rest.takeWhile (fun u => decide (u = zero)) = List.replicate _ zero :=
        eq_replicate_of_mem fun u inside => by simpa using mem_takeWhile_imp inside
      rw [zeros] at parts
      split at stripped
      next q next' tail eq =>
        rw [eq] at parts
        split_ifs at stripped with other isComma isBrace
        · cases stripped
          rw [not_not.mp other, isComma] at parts
          exact ⟨c, _, [quote, comma], by simp, by rw [← parts]; rfl, by simp⟩
        · cases stripped
          rw [not_not.mp other] at parts
          exact ⟨c, _, [quote], by simp, by rw [← parts]; rfl, by simp [isBrace]⟩
      next => cases stripped
    next => cases stripped
  · rintro ⟨c, zeros, close, isClose, rfl, ends⟩
    have begins : fieldText.isPrefixOf
        (fieldText ++ c :: (List.replicate zeros zero ++ (close ++ body))) = true := by simp
    have allZeros : ∀ u ∈ List.replicate zeros zero, decide (u = zero) = true := fun u inside =>
      decide_eq_true (eq_of_mem_replicate inside)
    rw [strip, if_pos begins, drop_field, dropWhile_append_of_pos allZeros]
    simp only [mem_cons, not_mem_nil, or_false] at isClose
    rcases isClose with rfl | rfl
    · rfl
    · obtain ⟨rest, rfl⟩ := head?_eq_some_iff.mp (ends rfl)
      rfl

theorem strip_filler_succ (zeros : Nat) (body : Text) :
    strip (filler (zeros + 1) body ++ body) = some body := by
  refine strip_eq_some_iff.mpr ⟨zero, zeros, afterZeros body, ?_, ?_, ?_⟩
  · unfold afterZeros
    split <;> simp
  · simp [filler, replicate_succ]
  · unfold afterZeros
    split <;> simp_all

theorem strip_filler_zero {body : Text} (there : body ≠ []) :
    strip (filler 0 body ++ body) = none := by
  obtain ⟨first, rest, rfl⟩ := exists_cons_of_ne_nil there
  unfold filler afterZeros
  by_cases last : first = rightBrace
  · subst last
    cases rest <;> rfl
  · have more : (first :: rest).head? ≠ some rightBrace := by simpa using last
    rw [if_neg more]
    rfl

/-! ## Measures -/

theorem measure_append (w : Way) {a : Text} (whole : EndsWhole a) (b : Text) :
    w.measure (a ++ b) = w.measure a + w.measure b := by
  cases w with
  | toSeal => simp [Way.measure, utf8Length, runes_append whole]
  | toRumor => simp [Way.measure, rumorLength, Utf16.utf8Encode, runes_append whole]

theorem endsWhole_of_last {a : Text} {u : UInt16} (last : a.getLast? = some u)
    (whole : isHigh u = false) : EndsWhole a := by
  intro v last'
  rw [last] at last'
  cases last'
  exact whole

theorem endsWhole_zeros (zeros : Nat) : EndsWhole (List.replicate zeros zero) := by
  intro u last
  have inside : u ∈ List.replicate zeros zero := mem_of_getLast? last
  rw [eq_of_mem_replicate inside]
  decide

theorem measure_zeros (w : Way) (zeros : Nat) : w.measure (List.replicate zeros zero) = zeros := by
  induction zeros with
  | zero => cases w <;> rfl
  | succ zeros ih =>
    have one : w.measure [zero] = 1 := by cases w <;> decide
    rw [replicate_succ', measure_append w (endsWhole_zeros zeros), ih, one]

theorem endsWhole_head (isHead : head ∈ heads) : EndsWhole head := by
  simp only [heads, mem_cons, not_mem_nil, or_false] at isHead
  rcases isHead with rfl | rfl <;> exact endsWhole_of_last (u := leftBrace) (by decide) (by decide)

theorem endsWhole_fieldText : EndsWhole fieldText :=
  endsWhole_of_last (u := quote) (by decide) (by decide)

theorem endsWhole_afterZeros (body : Text) : EndsWhole (afterZeros body) := by
  unfold afterZeros
  split
  · exact endsWhole_of_last (u := quote) (by decide) (by decide)
  · exact endsWhole_of_last (u := comma) (by decide) (by decide)

theorem measure_filler (w : Way) (zeros : Nat) (body : Text) :
    w.measure (filler zeros body) = w.measure (filler 0 body) + zeros := by
  have parts : ∀ n, w.measure (filler n body) =
      w.measure fieldText + (n + w.measure (afterZeros body)) := by
    intro n
    rw [filler, append_assoc, measure_append w endsWhole_fieldText,
      measure_append w (endsWhole_zeros n), measure_zeros]
  rw [parts zeros, parts 0]
  omega

theorem endsWhole_append {a b : Text} (there : b ≠ []) (whole : EndsWhole b) :
    EndsWhole (a ++ b) := by
  intro u last
  rw [getLast?_append_of_ne_nil a there] at last
  exact whole u last

theorem endsWhole_filler (zeros : Nat) (body : Text) : EndsWhole (filler zeros body) := by
  refine endsWhole_append ?_ (endsWhole_afterZeros body)
  unfold afterZeros
  split <;> exact cons_ne_nil _ _

theorem measure_filled (w : Way) (isHead : head ∈ heads) (zeros : Nat) (body : Text) :
    w.measure (head ++ filler zeros body ++ body) =
      w.measure (head ++ body) + w.measure (filler 0 body) + zeros := by
  rw [append_assoc, measure_append w (endsWhole_head isHead),
    measure_append w (endsWhole_filler zeros body), measure_filler, measure_append w (endsWhole_head isHead)]
  omega

/-! ## Sizes -/

/-- The sizes a frame is filled to.  A seal past its last size goes to whole multiples of one more
than it, less one, up to the most the onion takes. -/
def Way.Allows : Way → Bool → Nat → Prop
  | toSeal, slice, size =>
    size ∈ kSealSizes.drop (if slice then sliceFrom else 0) ∨
      30399 < size ∧ size ≤ kSealOnionMost ∧ ((size + 1) % 30400 = 0 ∨ size = kSealOnionMost)
  | toRumor, slice, size => size ∈ kRumorSizes.drop (if slice then sliceFrom else 0)

variable {size : Nat}

theorem isLeast_of_firstSize {sizes : List Nat} (sorted : sizes.Pairwise (· ≤ ·)) {need : Nat}
    (first : firstSize sizes need = some size) : IsLeast {t | t ∈ sizes ∧ need ≤ t} size := by
  induction sizes with
  | nil => cases first
  | cons least rest ih =>
    obtain ⟨below, sorted'⟩ := pairwise_cons.mp sorted
    unfold firstSize at first
    rw [find?_cons] at first
    split at first
    next fits =>
      cases first
      refine ⟨⟨mem_cons_self, of_decide_eq_true fits⟩, ?_⟩
      rintro t ⟨listed, -⟩
      rcases mem_cons.mp listed with rfl | later
      · exact le_rfl
      · exact below t later
    next small =>
      obtain ⟨⟨listed, fits⟩, lower⟩ := ih sorted' first
      refine ⟨⟨mem_cons_of_mem _ listed, fits⟩, ?_⟩
      rintro t ⟨listed', fits'⟩
      rcases mem_cons.mp listed' with rfl | later
      · exact absurd (decide_eq_true fits') (by rw [small]; decide)
      · exact lower ⟨later, fits'⟩

theorem lt_of_firstSize_none {sizes : List Nat} {need : Nat} (none' : firstSize sizes need = none)
    (listed : size ∈ sizes) : size < need := by
  have unfit := find?_eq_none.mp none' size listed
  simpa using unfit

theorem le_last_of_mem_seal {slice : Bool}
    (listed : size ∈ kSealSizes.drop (if slice then sliceFrom else 0)) : size ≤ 30399 := by
  have every : ∀ t ∈ kSealSizes, t ≤ 30399 := by decide
  exact every size (mem_of_mem_drop listed)

theorem isLeast_sealTarget {need : Nat} {slice : Bool}
    (goes : sealTarget need slice = .ok (some size)) :
    IsLeast {t | Way.toSeal.Allows slice t ∧ need ≤ t} size := by
  unfold sealTarget at goes
  split at goes
  next first =>
    cases goes
    have sorted : (kSealSizes.drop (if slice then sliceFrom else 0)).Pairwise (· ≤ ·) := by
      cases slice <;> decide
    obtain ⟨⟨listed, fits⟩, lower⟩ := isLeast_of_firstSize sorted first
    refine ⟨⟨.inl listed, fits⟩, ?_⟩
    rintro t ⟨listed' | ⟨past, -⟩, fits'⟩
    · exact lower ⟨listed', fits'⟩
    · exact (le_last_of_mem_seal listed).trans past.le
  next none' =>
    have listed : 30399 ∈ kSealSizes.drop (if slice then sliceFrom else 0) := by
      cases slice <;> decide
    have past : 30399 < need := lt_of_firstSize_none none' listed
    split at goes
    next => cases goes
    next within =>
      cases goes
      unfold kSealOnionMost at within ⊢
      refine ⟨⟨.inr ⟨?_, ?_, ?_⟩, ?_⟩, ?_⟩
      · omega
      · exact Nat.min_le_right _ _
      · unfold kSealOnionMost
        omega
      · omega
      · rintro t ⟨listed' | ⟨-, most, multiple⟩, fits'⟩
        · have := le_last_of_mem_seal listed'
          omega
        · unfold kSealOnionMost at most multiple
          omega

theorem isLeast_target {w : Way} {need : Nat} {slice : Bool}
    (goes : w.target need slice = .ok (some size)) :
    IsLeast {t | w.Allows slice t ∧ need ≤ t} size := by
  cases w with
  | toSeal => exact isLeast_sealTarget goes
  | toRumor =>
    have sorted : (kRumorSizes.drop (if slice then sliceFrom else 0)).Pairwise (· ≤ ·) := by
      cases slice <;> decide
    exact isLeast_of_firstSize sorted (Except.ok.inj goes)

theorem target_of_allows {w : Way} {slice : Bool} (allowed : w.Allows slice size) :
    w.target size slice = .ok (some size) := by
  have answered : ∃ t, w.target size slice = .ok (some t) := by
    cases w with
    | toSeal =>
      have most : size ≤ kSealOnionMost :=
        allowed.elim (fun listed => (le_last_of_mem_seal listed).trans (by decide)) (·.2.1)
      change ∃ t, sealTarget size slice = .ok (some t)
      unfold sealTarget
      split
      · exact ⟨_, rfl⟩
      · rw [if_neg most.not_gt]
        exact ⟨_, rfl⟩
    | toRumor =>
      cases first : firstSize (kRumorSizes.drop (if slice then sliceFrom else 0)) size with
      | none => exact absurd (lt_of_firstSize_none first allowed) (lt_irrefl _)
      | some t => exact ⟨t, congrArg Except.ok first⟩
  obtain ⟨t, goes⟩ := answered
  have least := isLeast_target goes
  rw [goes, le_antisymm (least.2 ⟨allowed, le_rfl⟩) least.1.2]

theorem target_eq_none_iff {w : Way} {slice : Bool} {need : Nat} :
    w.target need slice = .ok none ↔ w = .toRumor ∧ ∀ size, w.Allows slice size → size < need := by
  cases w with
  | toSeal =>
    change sealTarget need slice = .ok none ↔ _
    unfold sealTarget
    split
    · simp
    · split_ifs <;> simp
  | toRumor => simp [Way.target, rumorTarget, Way.Allows, firstSize]

/-! ## Frames that are filled -/

section

variable (jsonDecode : Text → Option Json)

/-- What the way answers for a frame that has something behind its head. -/
def Answers (w : Way) (u : Text) (start : Nat) (answer : Except FrameTooLarge (Option Nat)) : Prop :=
  bodyAt u = some start ∧ start < u.length ∧
    w.target (need w u start) (isSlice jsonDecode u start) = answer

def ExactFit (w : Way) (u : Text) : Prop :=
  ∃ start, Answers jsonDecode w u start (.ok (some (need w u start)))

/-- No size of the way holds the frame, which is left as it is. -/
def PastLast (w : Way) (u : Text) : Prop := ∃ start, Answers jsonDecode w u start (.ok none)

/-- The size is the least allowed one that holds the frame with an empty filler. -/
def HasClass (w : Way) (u : Text) (size : Nat) : Prop :=
  ∃ start, bodyAt u = some start ∧
    IsLeast {t | w.Allows (isSlice jsonDecode u start) t ∧ need w u start ≤ t} size

variable {jsonDecode} {w : Way} {u p : Text}

theorem fill_filled (answers : Answers jsonDecode w u start (.ok (some size))) :
    fill jsonDecode w u = .ok (fillWith u start (size - need w u start)) := by
  obtain ⟨begins, longer, goes⟩ := answers
  unfold fill
  rw [begins]
  dsimp only
  rw [if_neg (by omega), goes]

theorem fill_pastLast (past : PastLast jsonDecode w u) : fill jsonDecode w u = .ok u := by
  obtain ⟨start, begins, longer, goes⟩ := past
  unfold fill
  rw [begins]
  dsimp only
  rw [if_neg (by omega), goes]

theorem fill_cases (filled : fill jsonDecode w u = .ok p) :
    (∃ start size, Answers jsonDecode w u start (.ok (some size)) ∧
        p = fillWith u start (size - need w u start)) ∨
      p = u ∧ (PastLast jsonDecode w u ∨ unpad u = u) := by
  unfold fill at filled
  split at filled
  next noHead =>
    cases filled
    exact .inr ⟨rfl, .inr (unpad_of_none noHead)⟩
  next start begins =>
    split at filled
    next short =>
      cases filled
      refine .inr ⟨rfl, .inr ?_⟩
      unfold unpad
      rw [begins]
      dsimp only
      rw [drop_eq_nil_of_le short]
      rfl
    next longer =>
      split at filled
      next => cases filled
      next goes =>
        cases filled
        exact .inr ⟨rfl, .inl ⟨start, begins, by omega, goes⟩⟩
      next size goes =>
        cases filled
        exact .inl ⟨start, size, ⟨begins, by omega, goes⟩, rfl⟩

theorem exists_body (begins : bodyAt u = some start) (longer : start < u.length) :
    ∃ head ∈ heads, ∃ body, body ≠ [] ∧ u = head ++ body ∧ start = head.length := by
  obtain ⟨head, isHead, body, rfl, rfl⟩ := exists_head begins
  refine ⟨head, isHead, body, ?_, rfl, rfl⟩
  rintro rfl
  simp at longer

theorem fillWith_append (head body : Text) (zeros : Nat) :
    fillWith (head ++ body) head.length zeros = head ++ (filler zeros body ++ body) := by
  rw [fillWith, take_left, drop_left, append_assoc]

theorem unpad_fillWith_succ (begins : bodyAt u = some start) (zeros : Nat) :
    unpad (fillWith u start (zeros + 1)) = u := by
  obtain ⟨head, isHead, body, rfl, rfl⟩ := exists_head begins
  rw [fillWith_append, unpad_append isHead, strip_filler_succ]
  rfl

theorem unpad_fillWith_zero (begins : bodyAt u = some start) (longer : start < u.length) :
    unpad (fillWith u start 0) = fillWith u start 0 := by
  obtain ⟨head, isHead, body, there, rfl, rfl⟩ := exists_body begins longer
  rw [fillWith_append, unpad_append isHead, strip_filler_zero there]
  rfl

theorem fillWith_ne (start zeros : Nat) : fillWith u start zeros ≠ u := by
  intro same
  have long := congrArg List.length same
  have five : 0 < fieldText.length := by decide
  have whole : (u.take start).length + (u.drop start).length = u.length := by
    rw [← length_append, take_append_drop]
  simp only [fillWith, filler, length_append] at long
  omega

theorem measure_fillWith (begins : bodyAt u = some start) (zeros : Nat) :
    w.measure (fillWith u start zeros) = need w u start + zeros := by
  obtain ⟨head, isHead, body, rfl, rfl⟩ := exists_head begins
  rw [fillWith_append, ← append_assoc, measure_filled w isHead, need, drop_left]

theorem hasClass_fillWith (answers : Answers jsonDecode w u start (.ok (some size))) :
    HasClass jsonDecode w u (w.measure (fillWith u start (size - need w u start))) := by
  obtain ⟨begins, -, goes⟩ := answers
  have least := isLeast_target goes
  have fits : need w u start ≤ size := least.1.2
  have measured : w.measure (fillWith u start (size - need w u start)) = size := by
    rw [measure_fillWith begins]
    omega
  rw [measured]
  exact ⟨start, begins, least⟩

theorem HasClass.unique {size' : Nat} (isClass : HasClass jsonDecode w u size)
    (isClass' : HasClass jsonDecode w u size') : size = size' := by
  obtain ⟨start, begins, least⟩ := isClass
  obtain ⟨start', begins', least'⟩ := isClass'
  rw [begins] at begins'
  cases begins'
  exact least.unique least'

end

/-! ## The laws -/

section

variable (jsonDecode : Text → Option Json)

/-- What padding promises of a text. -/
structure Laws (s : Text) : Prop where
  undone : ∀ w p, pad jsonDecode w s = .ok p → unpad p = unpad s
  again : ∀ w v p, pad jsonDecode w s = .ok p → pad jsonDecode v p = pad jsonDecode v s
  least : ∀ w p, pad jsonDecode w s = .ok p → p ≠ unpad s →
    HasClass jsonDecode w (unpad s) (w.measure p)
  alike : ∀ w p s' p' size, pad jsonDecode w s = .ok p → p ≠ unpad s →
    pad jsonDecode w s' = .ok p' → p' ≠ unpad s' →
    HasClass jsonDecode w (unpad s) size → HasClass jsonDecode w (unpad s') size →
    w.measure p = w.measure p'

/-- What a text has to be for one way to be undone. -/
def Undoable (w : Way) (s : Text) : Prop :=
  ¬ExactFit jsonDecode w (unpad s) ∧ (PastLast jsonDecode w (unpad s) → unpad (unpad s) = unpad s)

/-- A text is a head and, behind a filler if one is seen, the fields. -/
def Fields (s head body : Text) : Prop :=
  head ∈ heads ∧ ((∃ text, s = head ++ text ∧ Filled text body) ∨
    s = head ++ body ∧ ¬∃ rest, Filled body rest)

/-- With an empty filler the text measures no allowed size, and one longer than every rumor size
has no second filler right behind the first. -/
structure Safe (s : Text) : Prop where
  notExact : ∀ (w : Way) (head body : Text), Fields s head body → body ≠ [] →
    ¬w.Allows (isSlice jsonDecode (head ++ body) head.length)
      (w.measure (head ++ (filler 0 body ++ body)))
  single : ∀ head body, Fields s head body →
    (∀ size, Way.toRumor.Allows (isSlice jsonDecode (head ++ body) head.length) size →
      size < rumorLength (head ++ (filler 0 body ++ body))) → ¬∃ rest, Filled body rest

variable {jsonDecode} {w : Way} {s p : Text}

theorem unpad_pad (undoable : Undoable jsonDecode w s) (padded : pad jsonDecode w s = .ok p) :
    unpad p = unpad s := by
  obtain ⟨notExact, single⟩ := undoable
  rcases fill_cases padded with ⟨start, size, answers, rfl⟩ | ⟨rfl, past | same⟩
  · have fits : need w (unpad s) start ≤ size := (isLeast_target answers.2.2).1.2
    have more : size ≠ need w (unpad s) start := by
      rintro rfl
      exact notExact ⟨start, answers⟩
    obtain ⟨zeros, eq⟩ : ∃ zeros, size - need w (unpad s) start = zeros + 1 :=
      ⟨size - need w (unpad s) start - 1, by omega⟩
    rw [eq]
    exact unpad_fillWith_succ answers.1 zeros
  · exact single past
  · exact same

theorem undoable_of_unpad_pad
    (undone : ∀ p, pad jsonDecode w s = .ok p → unpad p = unpad s) : Undoable jsonDecode w s := by
  constructor
  · rintro ⟨start, answers⟩
    have back := undone _ (fill_filled answers)
    rw [Nat.sub_self, unpad_fillWith_zero answers.1 answers.2.1] at back
    exact fillWith_ne start 0 back
  · intro past
    exact undone _ (fill_pastLast past)

theorem Fields.unpad_eq {body : Text} (fields : Fields s head body) : unpad s = head ++ body := by
  obtain ⟨isHead, ⟨text, rfl, filled⟩ | ⟨rfl, plain⟩⟩ := fields
  · rw [unpad_append isHead, strip_eq_some_iff.mpr filled]
    rfl
  · rw [unpad_append isHead]
    cases stripped : strip body with
    | none => rfl
    | some rest => exact absurd ⟨rest, strip_eq_some_iff.mp stripped⟩ plain

theorem exists_fields (begins : bodyAt (unpad s) = some start) :
    ∃ head body, Fields s head body ∧ start = head.length := by
  cases found : bodyAt s with
  | none =>
    rw [unpad_of_none found, found] at begins
    cases begins
  | some start' =>
    obtain ⟨head, isHead, text, rfl, rfl⟩ := exists_head found
    have fields : Fields (head ++ text) head ((strip text).getD text) := by
      refine ⟨isHead, ?_⟩
      cases stripped : strip text with
      | none => exact .inr ⟨rfl, by simp [← strip_eq_some_iff, stripped]⟩
      | some body => exact .inl ⟨text, rfl, strip_eq_some_iff.mp stripped⟩
    rw [fields.unpad_eq, bodyAt_append isHead] at begins
    exact ⟨head, _, fields, (Option.some.inj begins).symm⟩

theorem need_eq (isHead : head ∈ heads) (body : Text) :
    need w (head ++ body) head.length = w.measure (head ++ (filler 0 body ++ body)) := by
  rw [← fillWith_append, measure_fillWith (bodyAt_append isHead body), Nat.add_zero]

theorem Filled.ne {body rest : Text} (filled : Filled body rest) : rest ≠ body := by
  obtain ⟨c, zeros, close, -, same, -⟩ := filled
  intro eq
  have long := congrArg List.length same
  simp only [eq, length_append, length_cons] at long
  omega

theorem undoable_iff_safe : (∀ w, Undoable jsonDecode w s) ↔ Safe jsonDecode s := by
  constructor
  · intro undoable
    constructor
    · intro w head body fields there allowed
      refine (undoable w).1 ⟨head.length, ?_⟩
      have longer := length_pos_of_ne_nil there
      rw [fields.unpad_eq, need_eq fields.1]
      refine ⟨bodyAt_append fields.1 body, by rw [length_append]; omega, ?_⟩
      rw [need_eq fields.1]
      exact target_of_allows allowed
    · rintro head body fields past ⟨rest, filled⟩
      have longer : 0 < body.length := by
        obtain ⟨c, zeros, close, -, rfl, -⟩ := filled
        simp
      have single := (undoable .toRumor).2 ⟨head.length, by
        rw [fields.unpad_eq]
        refine ⟨bodyAt_append fields.1 body, by rw [length_append]; omega, ?_⟩
        rw [need_eq fields.1]
        exact target_eq_none_iff.mpr ⟨rfl, past⟩⟩
      rw [fields.unpad_eq, unpad_append fields.1, strip_eq_some_iff.mpr filled] at single
      exact filled.ne (append_cancel_left single)
  · intro safe w
    constructor
    · rintro ⟨start, begins, longer, goes⟩
      obtain ⟨head, body, fields, rfl⟩ := exists_fields begins
      rw [fields.unpad_eq] at longer goes
      rw [need_eq fields.1] at goes
      refine safe.notExact w head body fields ?_ (isLeast_target goes).1.1
      rintro rfl
      simp at longer
    · rintro ⟨start, begins, -, goes⟩
      obtain ⟨head, body, fields, rfl⟩ := exists_fields begins
      rw [fields.unpad_eq, need_eq fields.1] at goes
      obtain ⟨rfl, past⟩ := target_eq_none_iff.mp goes
      have plain := safe.single head body fields past
      rw [fields.unpad_eq]
      exact Fields.unpad_eq ⟨fields.1, .inr ⟨rfl, plain⟩⟩

theorem hasClass_pad (padded : pad jsonDecode w s = .ok p) (added : p ≠ unpad s) :
    HasClass jsonDecode w (unpad s) (w.measure p) := by
  rcases fill_cases padded with ⟨start, size, answers, rfl⟩ | ⟨same, -⟩
  · exact hasClass_fillWith answers
  · exact absurd same added

end

/-- Padding keeps its promises exactly for the safe texts. -/
theorem pad_laws_iff (jsonDecode : Text → Option Json) (s : Text) :
    Laws jsonDecode s ↔ Safe jsonDecode s := by
  rw [← undoable_iff_safe]
  constructor
  · intro laws w
    exact undoable_of_unpad_pad (laws.undone w)
  · intro undoable
    refine ⟨?_, ?_, ?_, ?_⟩
    · intro w p padded
      exact unpad_pad (undoable w) padded
    · intro w v p padded
      unfold pad
      rw [unpad_pad (undoable w) padded]
    · intro w p padded added
      exact hasClass_pad padded added
    · intro w p s' p' size padded added padded' added' isClass isClass'
      rw [(hasClass_pad padded added).unique isClass, (hasClass_pad padded' added').unique isClass']

def exactFrame : Text :=
  units "\x7b\"m\":\"" ++ List.replicate 831 (0x78 : UInt16) ++ units "\"\x7d"

theorem exactFit_exactFrame (jsonDecode : Text → Option Json) :
    Answers jsonDecode .toSeal exactFrame 1 (.ok (some (need .toSeal exactFrame 1))) := by
  have notSlice : isSlice jsonDecode exactFrame 1 = false := by
    have noCount : exactFrame.tails.any (units "\"ct\":").isPrefixOf = false := by decide +kernel
    rw [isSlice, noCount, Bool.false_and]
  refine ⟨by decide +kernel, by decide +kernel, ?_⟩
  rw [notSlice]
  decide +kernel

theorem exactFrame_keepsFiller : ¬∃ jsonDecode, Laws jsonDecode exactFrame := by
  rintro ⟨jsonDecode, laws⟩
  have plain : unpad exactFrame = exactFrame := by decide +kernel
  have answers := exactFit_exactFrame jsonDecode
  have padded := fill_filled answers
  have back := laws.undone .toSeal _ padded
  rw [Nat.sub_self] at back
  exact fillWith_ne 1 0 back

end Kryfo.Wire
