import Kryfo.Pin.Check

/-!
# What each call on the table does

A check of an upgraded table answers as one of the table it came from.  A call that is refused
returns the table it was given.
-/

namespace Kryfo.Pin

open Library List

variable {Pin : Type} {prims : Primitives Pin} {salt : Bytes} {logN : Int}

variable {d : Draws} {t : PinTable}

theorem pinCheck_eq {raw : PinRaw} (second : t.v = pinVersion) (read : Decodes t raw) (p : Pin)
    (old : PinLegacy) :
    pinCheck prims d p t old = .ok (checkRaw prims (prims.scrypt p raw.salt t.logN) raw.entries
      { legacyApp := legacyApp prims d p old, legacyWipe := legacyWipe prims d p old }) := by
  have current : t.current d = .ok (t, raw) := current_eq_ok.mpr (.inl ⟨second, rfl, read⟩)
  simp only [pinCheck, current, read.pinKey_eq]

theorem legacyResult_eq {d' : Draws} (ideal : d.Ideal prims salt logN)
    (ideal' : d'.Ideal prims salt logN) (p : Pin) (old : PinLegacy) :
    ({ legacyApp := legacyApp prims d p old, legacyWipe := legacyWipe prims d p old } :
        PinResult) =
      { legacyApp := legacyApp prims d' p old, legacyWipe := legacyWipe prims d' p old } := by
  rw [legacyApp, legacyWipe, legacyMatch_eq ideal ideal', legacyMatch_eq ideal ideal', legacyApp,
    legacyWipe]

variable {entries : List RawEntry}

theorem getElem?_upgradedRaw (d : Draws) (short : entries.length ≤ pinEntries) {i : Nat}
    (inside : i < pinEntries) :
    (upgradedRaw d entries)[i]? = some (match entries[i]? with
        | some e => { e with wrap := d.wraps i }
        | none => d.entries i) := by
  unfold upgradedRaw
  by_cases old : i < entries.length
  · rw [getElem?_append_left (by rwa [length_mapIdx]), getElem?_mapIdx, getElem?_eq_getElem old]
    rfl
  · have beyond : entries.length ≤ i := Nat.le_of_not_lt old
    have within : i - entries.length < pinEntries - entries.length := by omega
    rw [getElem?_append_right (by rwa [length_mapIdx]), length_mapIdx,
      getElem?_map, getElem?_range within, getElem?_eq_none beyond]
    simp only [Option.map_some, Nat.add_sub_cancel' beyond]

theorem length_upgradedRaw (d : Draws) (short : entries.length ≤ pinEntries) :
    (upgradedRaw d entries).length = pinEntries := by
  rw [upgradedRaw, length_append, length_mapIdx, length_map, length_range]
  omega

theorem tagged_upgradedRaw (ideal : d.Ideal prims salt logN) (short : entries.length ≤ pinEntries)
    {p : Pin} {i : Nat} (inside : i < pinEntries) :
    Tagged prims salt logN (upgradedRaw d entries) p i ↔ Tagged prims salt logN entries p i := by
  unfold Tagged
  rw [getElem?_upgradedRaw d short inside]
  cases entries[i]? with
  | none =>
    simp only [Option.some.injEq, exists_eq_left', reduceCtorEq, false_and, exists_false, iff_false]
    exact ideal.entryTag i p i
  | some e => simp only [Option.some.injEq, exists_eq_left']

theorem checkRaw_upgradedRaw {d' : Draws} (ideal : d.Ideal prims salt logN)
    (ideal' : d'.Ideal prims salt logN) (short : entries.length ≤ pinEntries) (p : Pin)
    (r : PinResult) :
    checkRaw prims (prims.scrypt p salt logN) (upgradedRaw d entries) r =
      checkRaw prims (prims.scrypt p salt logN) (upgradedRaw d' entries) r := by
  have same (i : Nat) (inside : i < pinEntries) :
      tagged prims (prims.scrypt p salt logN) (upgradedRaw d entries) i =
        tagged prims (prims.scrypt p salt logN) (upgradedRaw d' entries) i := by
    rw [Bool.eq_iff_iff, tagged_iff, tagged_iff, tagged_upgradedRaw ideal short inside,
      tagged_upgradedRaw ideal' short inside]
  unfold checkRaw
  rw [matching_congr same]
  cases found : matching prims (prims.scrypt p salt logN) (upgradedRaw d' entries) with
  | none => rfl
  | some i =>
    obtain ⟨inside, here⟩ := tagged_of_matching found
    rw [tagged_iff, tagged_upgradedRaw ideal' short inside] at here
    obtain ⟨e, entry, _⟩ := here
    simp only [getElem?_upgradedRaw _ short inside, entry, openEntry, ideal.wraps i p i,
      ideal'.wraps i p i]

def PinTable.saltBytes (t : PinTable) : Bytes := (unhexText t.salt).getD []

theorem Decodes.saltBytes_eq {raw : PinRaw} (read : Decodes t raw) : t.saltBytes = raw.salt := by
  rw [PinTable.saltBytes, read.salt, Option.getD_some]

theorem upgrade_eq_ok {up : PinTable} (upgraded : t.upgrade d = .ok up) :
    ∃ raw, Decodes t raw ∧ ((t.v = pinVersion ∧ up = t) ∨
      (t.v = 1 ∧ up = ⟨pinVersion, t.logN, t.salt, upgradeEntries d t.entries⟩)) := by
  unfold PinTable.upgrade at upgraded
  split at upgraded
  · cases upgraded
  · rename_i raw read
    have decodes := decode_eq_ok.mp read
    refine ⟨raw, decodes, ?_⟩
    split_ifs at upgraded with second
    · exact .inl ⟨second, (Except.ok.inj upgraded).symm⟩
    · exact .inr ⟨(wanted_ne_zero decodes.known).resolve_right second,
        (Except.ok.inj upgraded).symm⟩

theorem pinCheck_upgrade {d₁ d₂ : Draws} {up : PinTable} (upgraded : t.upgrade d = .ok up)
    (ideal : d.Ideal prims t.saltBytes t.logN) (ideal₁ : d₁.Ideal prims t.saltBytes t.logN)
    (ideal₂ : d₂.Ideal prims t.saltBytes t.logN) (p : Pin) (old : PinLegacy) :
    pinCheck prims d₁ p up old = pinCheck prims d₂ p t old := by
  obtain ⟨raw, read, ⟨second, rfl⟩ | ⟨first, rfl⟩⟩ := upgrade_eq_ok upgraded
  · rw [pinCheck_eq second read, pinCheck_eq second read, legacyResult_eq ideal₁ ideal₂]
  · rw [read.saltBytes_eq] at ideal ideal₁ ideal₂
    have short : raw.entries.length ≤ pinEntries := by
      rw [read.length_eq, first]
      decide
    have current : t.current d₂ = .ok (_, { raw with entries := upgradedRaw d₂ raw.entries }) :=
      current_eq_ok.mpr (.inr ⟨first, rfl, raw, read, rfl⟩)
    rw [pinCheck_eq rfl (read.upgraded first d), legacyResult_eq ideal₁ ideal₂]
    simp only [pinCheck, current, read.pinKey_eq]
    rw [checkRaw_upgradedRaw ideal ideal₂ short]

/-- An entry that opens a record and a key for one pin. -/
structure SealedFor (prims : Primitives Pin) (salt : Bytes) (logN : Int) (i : Nat) (p : Pin)
    (record key : Bytes) (e : RawEntry) : Prop where
  tag : tagOf prims salt logN p i = e.tag
  opens : openEntry prims (prims.scrypt p salt logN) e i =
    (some record, if key = [] then none else some key)

theorem openSealed_sealWith (ideal : prims.Ideal) {nonce : Bytes}
    (size : nonce.length = nonceLen) (key plain : Bytes) :
    openSealed prims key (sealWith prims key nonce plain) = some plain := by
  have length : (sealWith prims key nonce plain).length = nonceLen + (plain.length + overhead) := by
    rw [sealWith, length_append, size, ideal.sealed_length]
  rw [openSealed, if_neg (by omega), sealWith, take_left' size, drop_left' size,
    ideal.opened_sealed]

theorem sealedFor_pinSealEntry (ideal : prims.Ideal) (drawn : d.Ideal prims salt logN) (p : Pin)
    (i : Nat) (record key : Bytes) :
    SealedFor prims salt logN i p record key
      (pinSealEntry prims d (prims.scrypt p salt logN) i record key) where
  tag := rfl
  opens := by
    by_cases none : key = []
    · simp only [openEntry, pinSealEntry, none, ne_eq, not_true_eq_false, if_false, if_true,
        openSealed_sealWith ideal d.recordNonceLength, drawn.noWrap p i]
    · simp only [openEntry, pinSealEntry, none, ne_eq, not_false_eq_true, if_false, if_true,
        openSealed_sealWith ideal d.recordNonceLength, openSealed_sealWith ideal d.wrapNonceLength]

theorem sized_pinSealEntry (ideal : prims.Ideal) (d : Draws) (k : Bytes) (i : Nat)
    {record key : Bytes} (whole : record.length = pinMetaLen)
    (keyed : key.length = 0 ∨ key.length = pinKeyLen) :
    (pinSealEntry prims d k i record key).Sized where
  tag := ideal.tag_length k i
  sealed := by
    simp only [pinSealEntry, sealWith, length_append, d.recordNonceLength,
      ideal.sealed_length, whole]
    rfl
  wrap := by
    simp only [pinSealEntry]
    split_ifs with some
    · rcases keyed with none | whole
      · exact absurd (length_eq_zero_iff.mp none) some
      · rw [sealWith, length_append, d.wrapNonceLength, ideal.sealed_length, whole]
        rfl
    · exact d.noWrapLength

theorem pinClashes_eq_false {raw : PinRaw} {i : Nat} {p : Pin} {old : PinLegacy}
    (clear : pinClashes prims d (prims.scrypt p salt logN) raw i p old = false) {j : Nat}
    (inside : j < pinEntries) (apart : j ≠ i) : ¬Tagged prims salt logN raw.entries p j := by
  rw [pinClashes, Bool.or_eq_false_iff, Bool.or_eq_false_iff] at clear
  have none := any_eq_false.mp clear.1.1 j (mem_range.mpr inside)
  rw [Bool.and_eq_true, decide_eq_true_iff, not_and, tagged_iff] at none
  exact none apart

theorem wholeEntry_eq_some {opened : Option Bytes × Option Bytes} {record key : Bytes}
    (whole : wholeEntry opened = some (record, key)) :
    opened = (some record, some key) ∧ record.length = pinMetaLen ∧ key.length = pinKeyLen := by
  unfold wholeEntry at whole
  split at whole
  · split_ifs at whole with sizes
    obtain ⟨rfl, rfl⟩ := Prod.mk.inj (Option.some.inj whole)
    exact ⟨rfl, sizes⟩
  · cases whole

/-- The table a call was given, with what was wrong. -/
def Refused (t : PinTable) (reply : Reply) : Prop := ∃ why, reply = (t, some why)

theorem scrypt_of_pinKey {prims : Primitives Pin} {pin : Pin} {salt k : Bytes} {logN : Int}
    (key : pinKey prims pin salt logN = .ok k) : prims.scrypt pin salt logN = k := by
  unfold pinKey at key
  split_ifs at key
  exact Except.ok.inj key

theorem pinSetup_cases (prims : Primitives Pin) (d : Draws) (pin : Pin) (t : PinTable)
    (old : PinLegacy) (index kind : Int) (container wrapPlain : Bytes) :
    Refused t (pinSetup prims d pin t old index kind container wrapPlain) ∨
      ∃ (i : Nat) (up : PinTable) (raw : PinRaw), index = i ∧ i < pinEntries ∧
        (1 ≤ kind ∧ kind ≤ 255 ∧ container.length = 16 ∧
          (wrapPlain.length = 0 ∨ wrapPlain.length = pinKeyLen)) ∧
        t.current d = .ok (up, raw) ∧
        pinClashes prims d (prims.scrypt pin raw.salt t.logN) raw i pin old = false ∧
        pinSetup prims d pin t old index kind container wrapPlain =
          (up.setEntry i (pinSealEntry prims d (prims.scrypt pin raw.salt t.logN) i
            (UInt8.ofNat kind.toNat :: container) wrapPlain), none) := by
  unfold pinSetup
  split_ifs with bad
  · exact .inl ⟨_, rfl⟩
  rcases t.current d with e | ⟨up, raw⟩
  · exact .inl ⟨e, rfl⟩
  dsimp only
  rcases key : pinKey prims pin raw.salt t.logN with e | k
  · exact .inl ⟨e, rfl⟩
  obtain rfl := scrypt_of_pinKey key
  dsimp only
  cases clash : pinClashes prims d (prims.scrypt pin raw.salt t.logN) raw index.toNat pin old with
  | true => exact .inl ⟨_, rfl⟩
  | false => exact .inr ⟨index.toNat, up, raw, by omega, by omega, by omega, rfl, clash, rfl⟩

theorem pinRewrap_cases (prims : Primitives Pin) (d : Draws) (oldPin newPin : Pin) (t : PinTable)
    (old : PinLegacy) (index : Int) :
    Refused t (pinRewrap prims d oldPin newPin t old index) ∨
      ∃ (i : Nat) (up : PinTable) (raw : PinRaw) (e : RawEntry) (record key : Bytes),
        index = i ∧ i < pinEntries ∧ t.current d = .ok (up, raw) ∧
        raw.entries[i]? = some e ∧ tagOf prims raw.salt t.logN oldPin i = e.tag ∧
        openEntry prims (prims.scrypt oldPin raw.salt t.logN) e i = (some record, some key) ∧
        record.length = pinMetaLen ∧ key.length = pinKeyLen ∧
        pinClashes prims d (prims.scrypt newPin raw.salt t.logN) raw i newPin old = false ∧
        pinRewrap prims d oldPin newPin t old index =
          (up.setEntry i (pinSealEntry prims d (prims.scrypt newPin raw.salt t.logN) i record key),
            none) := by
  unfold pinRewrap
  split_ifs with bad
  · exact .inl ⟨_, rfl⟩
  rcases t.current d with e | ⟨up, raw⟩
  · exact .inl ⟨e, rfl⟩
  dsimp only
  rcases oldKey : pinKey prims oldPin raw.salt t.logN with e | ko
  · exact .inl ⟨e, rfl⟩
  obtain rfl := scrypt_of_pinKey oldKey
  dsimp only
  cases here : tagged prims (prims.scrypt oldPin raw.salt t.logN) raw.entries index.toNat with
  | false => exact .inl ⟨_, rfl⟩
  | true =>
    obtain ⟨e, entry, tag⟩ := tagged_iff.mp here
    simp only [entry, Option.bind_some]
    rcases opened : wholeEntry
        (openEntry prims (prims.scrypt oldPin raw.salt t.logN) e index.toNat) with - | ⟨record, key⟩
    · exact .inl ⟨_, rfl⟩
    rcases newKey : pinKey prims newPin raw.salt t.logN with e | kn
    · exact .inl ⟨e, rfl⟩
    obtain rfl := scrypt_of_pinKey newKey
    dsimp only
    cases clash : pinClashes prims d (prims.scrypt newPin raw.salt t.logN) raw index.toNat newPin
        old with
    | true => exact .inl ⟨_, rfl⟩
    | false =>
      obtain ⟨opens, whole, keyLength⟩ := wholeEntry_eq_some opened
      exact .inr ⟨index.toNat, up, raw, e, record, key, by omega, by omega, rfl, entry, tag, opens,
        whole, keyLength, clash, rfl⟩

theorem pinClear_cases (d : Draws) (t : PinTable) (index : Int) :
    Refused t (pinClear d t index) ∨
      ∃ (i : Nat) (up : PinTable) (raw : PinRaw), index = i ∧ i < pinEntries ∧
        t.current d = .ok (up, raw) ∧ pinClear d t index = (up.setEntry i (d.entries i), none) := by
  unfold pinClear
  cases current : t.current d with
  | error e => exact .inl ⟨e, rfl⟩
  | ok pair =>
    obtain ⟨up, raw⟩ := pair
    split_ifs with bad
    · exact .inl ⟨_, rfl⟩
    · exact .inr ⟨index.toNat, up, raw, by omega, by omega, rfl, rfl⟩

end Kryfo.Pin
