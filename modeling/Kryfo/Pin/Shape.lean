import Kryfo.Pin.Table
import Mathlib.Data.List.Forall2

/-!
# What a table decodes to

The bytes of a table after an upgrade and after one entry was put in place.
-/

namespace Kryfo.Pin

open Library List

theorem decodeEntry_iff {v : Int} {e : PinEntry} {r : RawEntry} :
    decodeEntry v e = some r ↔
      (unhexText e.t = some r.tag ∧ unhexText e.m = some r.sealed ∧ unhexText e.w = some r.wrap) ∧
      r.tag.length = pinTagLen ∧ r.sealed.length = pinSealLen ∧
      (if v = 1 then e.w = [] else r.wrap.length = pinWrapLen) := by
  unfold decodeEntry
  constructor
  · intro read
    split at read
    · rename_i tag sealed wrap tagRead sealedRead wrapRead
      by_cases shape : tag.length = pinTagLen ∧ sealed.length = pinSealLen ∧
          (if v = 1 then e.w = [] else wrap.length = pinWrapLen)
      · rw [if_pos shape] at read
        obtain rfl := Option.some.inj read
        exact ⟨⟨tagRead, sealedRead, wrapRead⟩, shape⟩
      · rw [if_neg shape] at read
        cases read
    · cases read
  · rintro ⟨⟨tagRead, sealedRead, wrapRead⟩, shape⟩
    rw [tagRead, sealedRead, wrapRead]
    exact if_pos shape

theorem decodeEntry_text {v : Int} (notFirst : v ≠ 1) {e : RawEntry} (sized : e.Sized) :
    decodeEntry v e.text = some e := by
  rw [decodeEntry_iff, if_neg notFirst]
  exact ⟨⟨unhexText_hexText _, unhexText_hexText _, unhexText_hexText _⟩, sized.tag,
    sized.sealed, sized.wrap⟩

theorem decodeEntries_iff {v : Int} {es : List PinEntry} {rs : List RawEntry} :
    decodeEntries v es = some rs ↔ List.Forall₂ (fun e r => decodeEntry v e = some r) es rs := by
  induction es generalizing rs with
  | nil =>
    rw [List.forall₂_nil_left_iff, decodeEntries, Option.some.injEq, eq_comm]
  | cons e es ih =>
    rw [decodeEntries]
    constructor
    · intro read
      split at read
      · rename_i r rest first others
        obtain rfl := Option.some.inj read
        exact List.Forall₂.cons first (ih.mp others)
      · exact absurd read (by simp)
    · intro read
      cases read with
      | cons first others => rw [first, ih.mpr others]

/-- A table that is read whole. -/
structure Decodes (t : PinTable) (raw : PinRaw) : Prop where
  counted : t.entries.length = wanted t.v
  known : wanted t.v ≠ 0
  low : pinLogNLow ≤ t.logN
  high : t.logN ≤ pinLogNHigh
  salt : unhexText t.salt = some raw.salt
  saltLength : raw.salt.length = pinSaltLen
  entries : List.Forall₂ (fun e r => decodeEntry t.v e = some r) t.entries raw.entries

variable {t : PinTable} {raw : PinRaw}

theorem decode_eq_ok : t.decode = .ok raw ↔ Decodes t raw := by
  unfold PinTable.decode
  constructor
  · intro read
    split_ifs at read with shape
    rw [not_or, not_or, not_or, not_not] at shape
    obtain ⟨known, counted, low, high⟩ := shape
    split at read
    · cases read
    · rename_i salt saltRead
      split_ifs at read with long
      split at read
      · cases read
      · rename_i entries entriesRead
        obtain rfl := Except.ok.inj read
        exact ⟨counted, known, not_lt.mp low, not_lt.mp high, saltRead, not_not.mp long,
          decodeEntries_iff.mp entriesRead⟩
  · intro read
    have shape : ¬(wanted t.v = 0 ∨ t.entries.length ≠ wanted t.v ∨ t.logN < pinLogNLow ∨
        pinLogNHigh < t.logN) := by
      rw [not_or, not_or, not_or, not_not]
      exact ⟨read.known, read.counted, not_lt.mpr read.low, not_lt.mpr read.high⟩
    rw [if_neg shape, read.salt]
    simp only [read.saltLength, ne_eq, not_true_eq_false, if_false,
      decodeEntries_iff.mpr read.entries]

theorem Decodes.length_eq (read : Decodes t raw) : raw.entries.length = wanted t.v := by
  rw [← read.entries.length_eq, read.counted]

theorem Decodes.pinKey_eq {Pin : Type} (prims : Primitives Pin) (read : Decodes t raw) (pin : Pin)
    (salt : Bytes) : pinKey prims pin salt t.logN = .ok (prims.scrypt pin salt t.logN) := by
  rw [pinKey, if_neg]
  rw [not_or]
  exact ⟨not_lt.mpr read.low, not_lt.mpr read.high⟩

theorem forall₂_set {α β : Type} {R : α → β → Prop} {as : List α} {bs : List β}
    (all : List.Forall₂ R as bs) {a : α} {b : β} (related : R a b) (i : Nat) :
    List.Forall₂ R (as.set i a) (bs.set i b) := by
  induction all generalizing i with
  | nil => exact List.Forall₂.nil
  | cons first others ih =>
    cases i with
    | zero => exact List.Forall₂.cons related others
    | succ i => exact List.Forall₂.cons first (ih i)

theorem Decodes.setEntry (read : Decodes t raw) (second : t.v = pinVersion) {e : RawEntry}
    (sized : e.Sized) (i : Nat) :
    Decodes (t.setEntry i e) { raw with entries := raw.entries.set i e } where
  counted := (length_set ..).trans read.counted
  known := read.known
  low := read.low
  high := read.high
  salt := read.salt
  saltLength := read.saltLength
  entries := by
    refine forall₂_set read.entries ?_ i
    refine decodeEntry_text ?_ sized
    rw [second]
    decide

def upgradedRaw (d : Draws) (entries : List RawEntry) : List RawEntry :=
  entries.mapIdx (fun i e => { e with wrap := d.wraps i }) ++
    (List.range (pinEntries - entries.length)).map fun i => d.entries (entries.length + i)

theorem decodeEntry_upgraded {e : PinEntry} {r : RawEntry} (read : decodeEntry 1 e = some r)
    {wrap : Bytes} (size : wrap.length = pinWrapLen) :
    decodeEntry pinVersion { e with w := hexText wrap } = some { r with wrap := wrap } := by
  rw [decodeEntry_iff] at read
  obtain ⟨⟨tagRead, sealedRead, _⟩, tagLength, sealedLength, _⟩ := read
  rw [decodeEntry_iff]
  exact ⟨⟨tagRead, sealedRead, unhexText_hexText wrap⟩, tagLength, sealedLength, size⟩

theorem forall₂_mapIdx {α β : Type} {R S : α → β → Prop} {as : List α} {bs : List β}
    {f : Nat → α → α} {g : Nat → β → β} (all : List.Forall₂ R as bs)
    (kept : ∀ i a b, R a b → S (f i a) (g i b)) :
    List.Forall₂ S (as.mapIdx f) (bs.mapIdx g) := by
  induction all generalizing f g with
  | nil => exact List.Forall₂.nil
  | cons first others ih =>
    rw [mapIdx_cons, mapIdx_cons]
    exact List.Forall₂.cons (kept 0 _ _ first) (ih fun i a b => kept (i + 1) a b)

theorem Decodes.upgraded (read : Decodes t raw) (first : t.v = 1) (d : Draws) :
    Decodes ⟨pinVersion, t.logN, t.salt, upgradeEntries d t.entries⟩
      { raw with entries := upgradedRaw d raw.entries } := by
  have count : t.entries.length = 8 := by
    rw [read.counted, first]
    rfl
  have second : wanted pinVersion ≠ 0 := by decide
  have notFirst : pinVersion ≠ 1 := by decide
  have same : raw.entries.length = t.entries.length := read.entries.length_eq.symm
  refine ⟨?_, second, read.low, read.high, read.salt, read.saltLength, ?_⟩
  · simp only [upgradeEntries, length_append, length_mapIdx, count]
    rfl
  · have old := read.entries
    rw [first] at old
    rw [upgradedRaw, same]
    refine rel_append (forall₂_mapIdx old fun i e r here =>
      decodeEntry_upgraded here (d.wrapsLength i)) ?_
    rw [List.forall₂_map_left_iff, List.forall₂_map_right_iff, List.forall₂_same]
    intro i _
    exact decodeEntry_text notFirst (d.entriesSized _)

theorem wanted_ne_zero {v : Int} (known : wanted v ≠ 0) : v = 1 ∨ v = pinVersion := by
  unfold wanted at known
  split_ifs at known with first second
  · exact .inl first
  · exact .inr second
  · exact absurd rfl known

theorem current_eq_ok {d : Draws} {up : PinTable} :
    t.current d = .ok (up, raw) ↔ (t.v = pinVersion ∧ up = t ∧ Decodes t raw) ∨
      (t.v = 1 ∧ up = ⟨pinVersion, t.logN, t.salt, upgradeEntries d t.entries⟩ ∧
        ∃ raw₁, Decodes t raw₁ ∧ raw = { raw₁ with entries := upgradedRaw d raw₁.entries }) := by
  cases read : t.decode with
  | error e =>
    have none (raw : PinRaw) : ¬Decodes t raw := by
      rw [← decode_eq_ok, read]
      exact fun same => by cases same
    simp only [PinTable.current, PinTable.upgrade, read]
    simp [none]
  | ok raw₁ =>
    have decodes := decode_eq_ok.mp read
    have unique {raw : PinRaw} (other : Decodes t raw) : raw₁ = raw :=
      Except.ok.inj (read.symm.trans (decode_eq_ok.mpr other))
    rcases wanted_ne_zero decodes.known with first | second
    · have upgraded := decode_eq_ok.mpr (decodes.upgraded first d)
      have notSecond : ¬t.v = pinVersion := by
        rw [first]
        decide
      simp only [PinTable.current, PinTable.upgrade, read, if_neg notSecond, upgraded,
        Except.map, Except.ok.injEq, Prod.mk.injEq]
      constructor
      · rintro ⟨rfl, rfl⟩
        exact .inr ⟨first, rfl, raw₁, decodes, rfl⟩
      · rintro (⟨second, _⟩ | ⟨_, rfl, raw₂, other, rfl⟩)
        · exact absurd second notSecond
        · rw [unique other]
          exact ⟨rfl, rfl⟩
    · have notFirst : ¬t.v = 1 := by
        rw [second]
        decide
      simp only [PinTable.current, PinTable.upgrade, read, if_pos second, Except.map,
        Except.ok.injEq, Prod.mk.injEq]
      constructor
      · rintro ⟨rfl, rfl⟩
        exact .inl ⟨second, rfl, decodes⟩
      · rintro (⟨_, rfl, other⟩ | ⟨first, _⟩)
        · exact ⟨rfl, unique other⟩
        · exact absurd first notFirst

end Kryfo.Pin
