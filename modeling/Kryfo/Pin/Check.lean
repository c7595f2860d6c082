import Kryfo.Pin.Shape

/-!
# What a pin opens

A check looks for the pin's tag.  With an ideal key derivation and MAC a tag belongs
to one pin and random bytes are no pin's tag.
-/

namespace Kryfo.Pin

open Library List

variable {Pin : Type}

/-- Different pins have different tags, and what was sealed opens to what it was. -/
structure Primitives.Ideal (prims : Primitives Pin) : Prop where
  tag_inj : ∀ salt logN p q i,
    prims.label (prims.scrypt p salt logN) .tag i = prims.label (prims.scrypt q salt logN) .tag i →
      p = q
  tag_length : ∀ k i, (prims.label k .tag i).length = pinTagLen
  sealed_length : ∀ key nonce plain, (prims.sealed key nonce plain).length = plain.length + overhead
  opened_sealed : ∀ key nonce plain,
    prims.opened key nonce (prims.sealed key nonce plain) = some plain

section

variable (prims : Primitives Pin) (salt : Bytes) (logN : Int)

def tagOf (p : Pin) (i : Nat) : Bytes := prims.label (prims.scrypt p salt logN) .tag i

def NoTag (b : Bytes) : Prop := ∀ p i, tagOf prims salt logN p i ≠ b

def NoWrap (b : Bytes) : Prop :=
  ∀ p i, openSealed prims (prims.label (prims.scrypt p salt logN) .wrap i) b = none

/-- Random bytes are no pin's tag, open under no key and are no old check's hash. -/
structure Draws.Ideal (d : Draws) : Prop where
  wraps : ∀ i, NoWrap prims salt logN (d.wraps i)
  entryTag : ∀ i, NoTag prims salt logN (d.entries i).tag
  entryWrap : ∀ i, NoWrap prims salt logN (d.entries i).wrap
  noWrap : NoWrap prims salt logN d.noWrap
  standIn : ∀ p check, prims.legacyHash p (d.standInSalt check) ≠ d.standInHash check

def Tagged (entries : List RawEntry) (p : Pin) (i : Nat) : Prop :=
  ∃ e, entries[i]? = some e ∧ tagOf prims salt logN p i = e.tag

def Once (entries : List RawEntry) : Prop :=
  ∀ p i j, Tagged prims salt logN entries p i → Tagged prims salt logN entries p j → i = j

end

variable {prims : Primitives Pin} {salt : Bytes} {logN : Int} {entries : List RawEntry}

variable {i : Nat} {p : Pin}

theorem tagged_iff :
    tagged prims (prims.scrypt p salt logN) entries i = true ↔
      Tagged prims salt logN entries p i := by
  unfold tagged Tagged
  cases entries[i]? with
  | none => simp
  | some e => simp [tagOf]

theorem legacyMatch_eq {d d' : Draws} (ideal : d.Ideal prims salt logN)
    (ideal' : d'.Ideal prims salt logN) (check : OldCheck) (p : Pin) (s h : List Char) :
    legacyMatch prims d check p s h = legacyMatch prims d' check p s h := by
  unfold legacyMatch
  split_ifs
  · rw [decide_eq_false (ideal.standIn p check), decide_eq_false (ideal'.standIn p check)]
  · rfl

theorem foldl_last {p : Nat → Bool} (l : List Nat) (found : Option Nat) :
    l.foldl (fun found i => if p i then some i else found) found =
      ((l.filter p).getLast?).or found := by
  induction l generalizing found with
  | nil => rfl
  | cons i l ih =>
    rw [foldl_cons, ih]
    cases holds : p i with
    | false => simp [holds]
    | true =>
      rw [filter_cons_of_pos holds, getLast?_cons]
      cases (l.filter p).getLast? <;> simp

theorem matching_eq (k : Bytes) (entries : List RawEntry) :
    matching prims k entries = ((List.range pinEntries).filter (tagged prims k entries)).getLast? := by
  rw [matching, foldl_last, Option.or_none]

theorem matching_congr {k : Bytes} {entries entries' : List RawEntry}
    (same : ∀ i < pinEntries, tagged prims k entries i = tagged prims k entries' i) :
    matching prims k entries = matching prims k entries' := by
  rw [matching_eq, matching_eq, filter_congr fun i inside => same i (mem_range.mp inside)]

theorem tagged_of_matching {k : Bytes} (found : matching prims k entries = some i) :
    i < pinEntries ∧ tagged prims k entries i = true := by
  rw [matching_eq] at found
  obtain ⟨inside, holds⟩ := mem_filter.mp (mem_of_getLast? found)
  exact ⟨mem_range.mp inside, holds⟩

theorem not_tagged_of_matching {k : Bytes} (none : matching prims k entries = none)
    (inside : i < pinEntries) : tagged prims k entries i = false := by
  rw [matching_eq, getLast?_eq_none_iff] at none
  have := filter_eq_nil_iff.mp none i (mem_range.mpr inside)
  exact eq_false_of_ne_true this

theorem Once.matching_eq (once : Once prims salt logN entries) (inside : i < pinEntries)
    (here : Tagged prims salt logN entries p i) :
    matching prims (prims.scrypt p salt logN) entries = some i := by
  cases found : matching prims (prims.scrypt p salt logN) entries with
  | none =>
    have := not_tagged_of_matching found inside
    rw [tagged_iff.mpr here] at this
    cases this
  | some j =>
    have there := tagged_iff.mp (tagged_of_matching found).2
    rw [once p i j here there]

theorem Once.checkRaw_eq {e : RawEntry} (once : Once prims salt logN entries)
    (inside : i < pinEntries) (entry : entries[i]? = some e)
    (tag : tagOf prims salt logN p i = e.tag) (r : PinResult) :
    checkRaw prims (prims.scrypt p salt logN) entries r =
      r.filled i (openEntry prims (prims.scrypt p salt logN) e i) := by
  rw [checkRaw, once.matching_eq inside ⟨e, entry, tag⟩]
  simp only [entry]

theorem checkRaw_of_untagged (untagged : ∀ i, ¬Tagged prims salt logN entries p i) (r : PinResult) :
    checkRaw prims (prims.scrypt p salt logN) entries r = r := by
  cases found : matching prims (prims.scrypt p salt logN) entries with
  | none => rw [checkRaw, found]
  | some i => exact absurd (tagged_iff.mp (tagged_of_matching found).2) (untagged i)

theorem filled_eq_self_of_index {r : PinResult} {opened : Option Bytes × Option Bytes}
    (elsewhere : (r.filled i opened).index ≠ i) : r.filled i opened = r := by
  unfold PinResult.filled at elsewhere ⊢
  split
  · rename_i record isRecord
    split_ifs with whole
    · rw [isRecord] at elsewhere
      simp only [whole] at elsewhere
      exact absurd rfl elsewhere
    · rfl
  · rfl

theorem tagged_set {j : Nat} {e : RawEntry} (inside : i < entries.length) :
    Tagged prims salt logN (entries.set i e) p j ↔
      if j = i then tagOf prims salt logN p i = e.tag else Tagged prims salt logN entries p j := by
  unfold Tagged
  by_cases same : j = i
  · subst same
    rw [if_pos rfl, getElem?_set_self inside]
    constructor
    · rintro ⟨e', entry, tag⟩
      rw [Option.some.inj entry]
      exact tag
    · intro tag
      exact ⟨e, rfl, tag⟩
  · rw [if_neg same, getElem?_set_ne (Ne.symm same)]

/-- Another pin's entry, or none, in a place this pin does not open leaves what it opens. -/
theorem Once.checkRaw_set {e : RawEntry} {r : PinResult} (once : Once prims salt logN entries)
    (count : entries.length = pinEntries) (inside : i < pinEntries)
    (other : tagOf prims salt logN p i ≠ e.tag)
    (elsewhere : (checkRaw prims (prims.scrypt p salt logN) entries r).index ≠ i) :
    checkRaw prims (prims.scrypt p salt logN) (entries.set i e) r =
      checkRaw prims (prims.scrypt p salt logN) entries r := by
  have within : i < entries.length := by rwa [count]
  have after (j : Nat) : Tagged prims salt logN (entries.set i e) p j ↔
      j ≠ i ∧ Tagged prims salt logN entries p j := by
    rw [tagged_set within]
    by_cases same : j = i
    · simp [other]
    · simp [same]
  by_cases here : Tagged prims salt logN entries p i
  · have untagged (j : Nat) : ¬Tagged prims salt logN (entries.set i e) p j := by
      rw [after]
      rintro ⟨apart, there⟩
      exact apart (once p j i there here)
    obtain ⟨old, entry, tag⟩ := here
    rw [once.checkRaw_eq inside entry tag] at elsewhere ⊢
    rw [checkRaw_of_untagged untagged, filled_eq_self_of_index elsewhere]
  · have same (j : Nat) : tagged prims (prims.scrypt p salt logN) (entries.set i e) j =
        tagged prims (prims.scrypt p salt logN) entries j := by
      rw [Bool.eq_iff_iff, tagged_iff, tagged_iff, after]
      exact ⟨And.right, fun there => ⟨fun at' => here (at' ▸ there), there⟩⟩
    unfold checkRaw
    rw [matching_congr fun j _ => same j]
    cases found : matching prims (prims.scrypt p salt logN) entries with
    | none => rfl
    | some j =>
      have apart : i ≠ j := by
        rintro rfl
        exact here (tagged_iff.mp (tagged_of_matching found).2)
      simp only [getElem?_set_ne apart]

end Kryfo.Pin
