import Kryfo.Pin.Calls
import Kryfo.Library.Run

/-!
# Pins do not get in each other's way

Beside the table goes a book of what each entry was last set to.  Along every run of
calls the table does what the book says.
-/

namespace Kryfo.Pin

open Library List

variable {Pin : Type}

/-- What an entry was last set to: what it was at first, random bytes, or a pin. -/
inductive Slot (Pin : Type) where
  | kept
  | cleared
  | held (pin : Pin) (kind : Nat) (container key : Bytes)
  deriving DecidableEq

abbrev Book (Pin : Type) := Nat → Slot Pin

inductive Act (Pin : Type) where
  | setup (pin : Pin) (old : PinLegacy) (index kind : Int) (container wrapPlain : Bytes)
  | rewrap (oldPin newPin : Pin) (old : PinLegacy) (index : Int)
  | clear (index : Int)

namespace Act

def index : Act Pin → Int
  | setup _ _ index _ _ _ => index
  | rewrap _ _ _ index => index
  | clear index => index

def pin? : Act Pin → Option Pin
  | setup pin _ _ _ _ _ => some pin
  | rewrap _ newPin _ _ => some newPin
  | clear _ => none

def reply (prims : Primitives Pin) (d : Draws) (t : PinTable) : Act Pin → Reply
  | setup pin old index kind container wrapPlain =>
    pinSetup prims d pin t old index kind container wrapPlain
  | rewrap oldPin newPin old index => pinRewrap prims d oldPin newPin t old index
  | clear index => pinClear d t index

/-- What the entry is set to by a call that was taken. -/
def slot (before : Slot Pin) : Act Pin → Slot Pin
  | setup pin _ _ kind container wrapPlain => .held pin kind.toNat container wrapPlain
  | rewrap _ newPin _ _ =>
    match before with
    | .held _ kind container key => .held newPin kind container key
    | other => other
  | clear _ => .cleared

end Act

structure Sys (Pin : Type) where
  table : PinTable
  book : Book Pin

def Sys.next (prims : Primitives Pin) (s : Sys Pin) (d : Draws) (act : Act Pin) : Sys Pin where
  table := (act.reply prims d s.table).1
  book i :=
    if (act.reply prims d s.table).2 = none ∧ (i : Int) = act.index then act.slot (s.book i)
    else s.book i

def Sys.step (prims : Primitives Pin) (s : Sys Pin) (label : Draws × Act Pin) (s' : Sys Pin) :
    Prop := s' = s.next prims label.1 label.2

def Drawn (prims : Primitives Pin) (s : Sys Pin) (label : Draws × Act Pin) : Prop :=
  label.1.Ideal prims s.table.saltBytes s.table.logN

variable {prims : Primitives Pin}

theorem Refused.unchanged {t : PinTable} {reply : Reply} (refused : Refused t reply) :
    reply.1 = t ∧ reply.2 ≠ none := by
  obtain ⟨why, rfl⟩ := refused
  exact ⟨rfl, by simp⟩

theorem Act.refused_unchanged (d : Draws) (t : PinTable) (act : Act Pin)
    (refused : (act.reply prims d t).2 ≠ none) : (act.reply prims d t).1 = t := by
  cases act with
  | setup pin old index kind container wrapPlain =>
    rcases pinSetup_cases prims d pin t old index kind container wrapPlain with
      kept | ⟨i, up, raw, _, _, _, _, _, taken⟩
    · exact kept.unchanged.1
    · exact absurd (congrArg Prod.snd taken) refused
  | rewrap oldPin newPin old index =>
    rcases pinRewrap_cases prims d oldPin newPin t old index with
      kept | ⟨i, up, raw, e, record, key, _, _, _, _, _, _, _, _, _, taken⟩
    · exact kept.unchanged.1
    · exact absurd (congrArg Prod.snd taken) refused
  | clear index =>
    rcases pinClear_cases d t index with kept | ⟨i, up, raw, _, _, _, taken⟩
    · exact kept.unchanged.1
    · exact absurd (congrArg Prod.snd taken) refused

def SlotOK (prims : Primitives Pin) (salt : Bytes) (logN : Int) (first : List RawEntry) (i : Nat)
    (e : RawEntry) : Slot Pin → Prop
  | .kept => first[i]? = some e ∧ NoWrap prims salt logN e.wrap
  | .cleared => NoTag prims salt logN e.tag ∧ NoWrap prims salt logN e.wrap
  | .held pin kind container key =>
    SealedFor prims salt logN i pin (UInt8.ofNat kind :: container) key e ∧
      kind ≤ 255 ∧ container.length = 16 ∧ (key.length = 0 ∨ key.length = pinKeyLen)

/-- The table is whole, no pin's tag is in it twice, and it is as the book says. -/
structure Represents (prims : Primitives Pin) (salt : Bytes) (logN : Int) (first : List RawEntry)
    (s : Sys Pin) (entries : List RawEntry) : Prop where
  second : s.table.v = pinVersion
  decodes : Decodes s.table ⟨salt, entries⟩
  cost : s.table.logN = logN
  once : Once prims salt logN entries
  slots : ∀ i e, entries[i]? = some e → SlotOK prims salt logN first i e (s.book i)

variable {salt : Bytes} {logN : Int} {first entries : List RawEntry} {s : Sys Pin}

theorem Represents.count (represents : Represents prims salt logN first s entries) :
    entries.length = pinEntries := by
  have length := represents.decodes.length_eq
  rw [represents.second] at length
  exact length

variable {d : Draws}

theorem Represents.current_eq (represents : Represents prims salt logN first s entries)
    {up : PinTable} {raw : PinRaw} (current : s.table.current d = .ok (up, raw)) :
    up = s.table ∧ raw = ⟨salt, entries⟩ := by
  have here : s.table.current d = .ok (s.table, ⟨salt, entries⟩) :=
    current_eq_ok.mpr (.inl ⟨represents.second, rfl, represents.decodes⟩)
  exact Prod.mk.inj (Except.ok.inj (current.symm.trans here))

theorem lt_of_tagged {p : Pin} {j : Nat} (here : Tagged prims salt logN entries p j) :
    j < entries.length := by
  obtain ⟨e, entry, _⟩ := here
  exact (List.getElem?_eq_some_iff.mp entry).1

variable {i : Nat} {e : RawEntry}

theorem Once.set (once : Once prims salt logN entries) (inside : i < entries.length)
    (apart : ∀ p, tagOf prims salt logN p i = e.tag → ∀ j, j ≠ i → ¬Tagged prims salt logN entries p j) :
    Once prims salt logN (entries.set i e) := by
  intro p j k atJ atK
  rw [tagged_set inside] at atJ atK
  split_ifs at atJ atK with sameJ sameK sameK
  · rw [sameJ, sameK]
  · exact absurd atK (apart p atJ k sameK)
  · exact absurd atJ (apart p atK j sameJ)
  · exact once p j k atJ atK

theorem Represents.put (represents : Represents prims salt logN first s entries) {slot : Slot Pin}
    (inside : i < pinEntries) (sized : e.Sized)
    (apart : ∀ p, tagOf prims salt logN p i = e.tag → ∀ j, j ≠ i → ¬Tagged prims salt logN entries p j)
    (ok : SlotOK prims salt logN first i e slot) {book : Book Pin} (here : book i = slot)
    (elsewhere : ∀ j, j ≠ i → book j = s.book j) :
    Represents prims salt logN first ⟨s.table.setEntry i e, book⟩ (entries.set i e) where
  second := represents.second
  decodes := represents.decodes.setEntry represents.second sized i
  cost := represents.cost
  once := represents.once.set (by rwa [represents.count]) apart
  slots := by
    intro j e' entry
    have within : i < entries.length := by rwa [represents.count]
    by_cases same : j = i
    · subst same
      rw [getElem?_set_self within] at entry
      obtain rfl := Option.some.inj entry
      change SlotOK prims salt logN first j e (book j)
      rw [here]
      exact ok
    · rw [getElem?_set_ne (Ne.symm same)] at entry
      change SlotOK prims salt logN first j e' (book j)
      rw [elsewhere j same]
      exact represents.slots j e' entry

/-- A sealed entry's pin is in no other entry. -/
theorem apart_of_clashes (ideal : prims.Ideal) {pin : Pin} {old : PinLegacy}
    (count : entries.length = pinEntries) (tag : tagOf prims salt logN pin i = e.tag)
    (clear : pinClashes prims d (prims.scrypt pin salt logN) ⟨salt, entries⟩ i pin old = false)
    (p : Pin) (same : tagOf prims salt logN p i = e.tag) (j : Nat) (other : j ≠ i) :
    ¬Tagged prims salt logN entries p j := by
  obtain rfl := ideal.tag_inj salt logN p pin i (same.trans tag.symm)
  intro there
  have inside : j < pinEntries := by
    rw [← count]
    exact lt_of_tagged there
  exact pinClashes_eq_false clear inside other there

theorem Sys.next_of_refused {act : Act Pin} (refused : (act.reply prims d s.table).2 ≠ none) :
    s.next prims d act = s := by
  have unchanged := act.refused_unchanged d s.table refused
  have book (i : Nat) : (s.next prims d act).book i = s.book i :=
    if_neg fun taken => refused taken.1
  obtain ⟨table, old⟩ := s
  simp only [Sys.next, Sys.mk.injEq] at unchanged book ⊢
  exact ⟨unchanged, funext book⟩

/-- What a call does to a table that is as its book says. -/
inductive Does (prims : Primitives Pin) (salt : Bytes) (logN : Int) (entries : List RawEntry)
    (s : Sys Pin) (d : Draws) (act : Act Pin) : Prop
  | refuses (refused : (act.reply prims d s.table).2 ≠ none)
  | puts (i : Nat) (e : RawEntry) (inside : i < pinEntries) (index : act.index = i)
      (reply : act.reply prims d s.table = (s.table.setEntry i e, none)) (sized : e.Sized)
      (apart : ∀ p, tagOf prims salt logN p i = e.tag →
        act.pin? = some p ∧ ∀ j, j ≠ i → ¬Tagged prims salt logN entries p j)
      (slot : ∀ first old, entries[i]? = some old → SlotOK prims salt logN first i old (s.book i) →
          SlotOK prims salt logN first i e (act.slot (s.book i)))

theorem Represents.does (ideal : prims.Ideal)
    (represents : Represents prims salt logN first s entries) (drawn : d.Ideal prims salt logN)
    (act : Act Pin) : Does prims salt logN entries s d act := by
  have cost := represents.cost
  cases act with
  | setup pin old index kind container wrapPlain =>
    rcases pinSetup_cases prims d pin s.table old index kind container wrapPlain with
      refused | ⟨i, up, raw, rfl, inside, ⟨low, high, boxed, keyed⟩, current, clear, taken⟩
    · exact .refuses refused.unchanged.2
    · obtain ⟨rfl, rfl⟩ := represents.current_eq current
      rw [cost] at clear taken
      have whole : (UInt8.ofNat kind.toNat :: container).length = pinMetaLen := by
        rw [length_cons, boxed]
        rfl
      refine .puts i _ inside rfl taken (sized_pinSealEntry ideal d _ i whole keyed) ?_ ?_
      · intro p same
        have mine := ideal.tag_inj salt logN p pin i same
        exact ⟨congrArg some mine.symm, apart_of_clashes ideal represents.count rfl clear p same⟩
      · intro _ _ _ _
        exact ⟨sealedFor_pinSealEntry ideal drawn pin i _ wrapPlain, by omega, boxed, keyed⟩
  | rewrap oldPin newPin old index =>
    rcases pinRewrap_cases prims d oldPin newPin s.table old index with
      refused | ⟨i, up, raw, e, record, key, rfl, inside, current, entry, tag, opened, whole,
        keyed, clear, taken⟩
    · exact .refuses refused.unchanged.2
    · obtain ⟨rfl, rfl⟩ := represents.current_eq current
      rw [cost] at tag opened clear taken
      refine .puts i _ inside rfl taken
        (sized_pinSealEntry ideal d _ i whole (.inr keyed)) ?_ ?_
      · intro p same
        have mine := ideal.tag_inj salt logN p newPin i same
        exact ⟨congrArg some mine.symm, apart_of_clashes ideal represents.count rfl clear p same⟩
      · intro first' before here ok
        obtain rfl := Option.some.inj (entry.symm.trans here)
        have wrap := congrArg Prod.snd opened
        cases held : s.book i with
        | kept | cleared =>
          rw [held] at ok
          exact absurd (wrap.symm.trans (ok.2 oldPin i)) (by simp)
        | held pin kind container key' =>
          rw [held] at ok
          obtain ⟨sealedFor, low, boxed, sized⟩ := ok
          obtain rfl := ideal.tag_inj salt logN oldPin pin i (tag.trans sealedFor.tag.symm)
          have same := opened.symm.trans sealedFor.opens
          obtain ⟨sameRecord, sameKey⟩ := Prod.mk.inj same
          obtain rfl := Option.some.inj sameRecord
          obtain rfl : key = key' := by
            split_ifs at sameKey
            exact Option.some.inj sameKey
          exact ⟨sealedFor_pinSealEntry ideal drawn newPin i _ key, low, boxed, sized⟩
  | clear index =>
    rcases pinClear_cases d s.table index with refused | ⟨i, up, raw, rfl, inside, current, taken⟩
    · exact .refuses refused.unchanged.2
    · obtain ⟨rfl, rfl⟩ := represents.current_eq current
      refine .puts i _ inside rfl taken (d.entriesSized i) ?_ ?_
      · intro p same
        exact absurd same (drawn.entryTag i p i)
      · intro _ _ _ _
        exact ⟨drawn.entryTag i, drawn.entryWrap i⟩

theorem Represents.next (ideal : prims.Ideal)
    (represents : Represents prims salt logN first s entries) (drawn : d.Ideal prims salt logN)
    (act : Act Pin) :
    ∃ entries', Represents prims salt logN first (s.next prims d act) entries' := by
  cases represents.does ideal drawn act with
  | refuses refused =>
    rw [Sys.next_of_refused refused]
    exact ⟨entries, represents⟩
  | puts i e inside index reply sized apart slot =>
    have within : i < entries.length := by rwa [represents.count]
    obtain ⟨old, entry⟩ : ∃ old, entries[i]? = some old :=
      ⟨_, getElem?_eq_getElem within⟩
    have table : (s.next prims d act).table = s.table.setEntry i e := congrArg Prod.fst reply
    have here : (s.next prims d act).book i = act.slot (s.book i) :=
      if_pos ⟨congrArg Prod.snd reply, index.symm⟩
    have elsewhere (j : Nat) (other : j ≠ i) : (s.next prims d act).book j = s.book j := by
      refine if_neg fun taken => other ?_
      omega
    have put := represents.put inside sized (fun p same => (apart p same).2)
      (slot first old entry (represents.slots i old entry)) here elsewhere
    rw [← table] at put
    exact ⟨_, put⟩

def PinTable.TagsOnce (prims : Primitives Pin) (t : PinTable) : Prop :=
  ∀ raw, t.decode = .ok raw → Once prims raw.salt t.logN raw.entries

inductive Start (prims : Primitives Pin) : PinTable → Prop
  | empty (d : Draws) (logN : Int) (salt : Bytes) (size : salt.length = pinSaltLen)
      (low : pinLogNLow ≤ logN) (high : logN ≤ pinLogNHigh) (drawn : d.Ideal prims salt logN) :
      Start prims (newPinTable d logN salt)
  | older (d : Draws) (t up : PinTable) (isFirst : t.v = 1) (upgraded : t.upgrade d = .ok up)
      (drawn : d.Ideal prims t.saltBytes t.logN) (once : t.TagsOnce prims) : Start prims up

theorem decodes_newPinTable (d : Draws) {logN : Int} {salt : Bytes}
    (size : salt.length = pinSaltLen) (low : pinLogNLow ≤ logN) (high : logN ≤ pinLogNHigh) :
    Decodes (newPinTable d logN salt) ⟨salt, (List.range pinEntries).map d.entries⟩ where
  counted := (length_map ..).trans length_range
  known := by
    change wanted pinVersion ≠ 0
    decide
  low := low
  high := high
  salt := unhexText_hexText salt
  saltLength := size
  entries := by
    have notFirst : pinVersion ≠ 1 := by decide
    rw [newPinTable, List.forall₂_map_left_iff, List.forall₂_map_right_iff, List.forall₂_same]
    intro i _
    exact decodeEntry_text notFirst (d.entriesSized i)

theorem getElem?_draws (entry : ((List.range pinEntries).map d.entries)[i]? = some e) :
    e = d.entries i := by
  rw [getElem?_map, Option.map_eq_some_iff] at entry
  obtain ⟨j, inside, rfl⟩ := entry
  obtain ⟨_, rfl⟩ := List.getElem?_eq_some_iff.mp inside
  rw [getElem_range]

theorem Start.represents {t₀ : PinTable} (start : Start prims t₀) :
    ∃ salt logN first, Represents prims salt logN first ⟨t₀, fun _ => .kept⟩ first ∧
      t₀.saltBytes = salt := by
  cases start with
  | empty d logN salt size low high drawn =>
    have read := decodes_newPinTable d size low high
    refine ⟨salt, logN, _, ⟨rfl, read, rfl, ?_, ?_⟩, read.saltBytes_eq⟩
    · rintro p i j ⟨e, entry, tag⟩
      rw [getElem?_draws entry] at tag
      exact absurd tag (drawn.entryTag i p i)
    · intro i e entry
      rw [getElem?_draws entry]
      rw [getElem?_draws entry] at entry
      exact ⟨entry, drawn.entryWrap i⟩
  | older d t up isFirst upgraded drawn once =>
    obtain ⟨raw, read, ⟨isSecond, _⟩ | ⟨_, rfl⟩⟩ := upgrade_eq_ok upgraded
    · rw [isFirst] at isSecond
      exact absurd isSecond (by decide)
    · have onceRaw := once raw (decode_eq_ok.mpr read)
      rw [read.saltBytes_eq] at drawn
      have short : raw.entries.length ≤ pinEntries := by
        rw [read.length_eq, isFirst]
        decide
      have within {i : Nat} {p : Pin}
          (here : Tagged prims raw.salt t.logN (upgradedRaw d raw.entries) p i) :
          i < pinEntries := by
        rw [← length_upgradedRaw d short]
        exact lt_of_tagged here
      have decodes := read.upgraded isFirst d
      refine ⟨raw.salt, t.logN, _, ⟨rfl, decodes, rfl, ?_, ?_⟩, decodes.saltBytes_eq⟩
      · intro p i j atI atJ
        exact onceRaw p i j ((tagged_upgradedRaw drawn short (within atI)).mp atI)
          ((tagged_upgradedRaw drawn short (within atJ)).mp atJ)
      · intro i e entry
        refine ⟨entry, ?_⟩
        have inside : i < pinEntries := by
          rw [← length_upgradedRaw d short]
          exact (List.getElem?_eq_some_iff.mp entry).1
        rw [getElem?_upgradedRaw d short inside] at entry
        obtain rfl := Option.some.inj entry
        split
        · exact drawn.wraps i
        · exact drawn.entryWrap i

theorem Represents.run (ideal : prims.Ideal) {s₀ : Sys Pin}
    (represents : Represents prims salt logN first s₀ entries)
    (run : Run (Sys.step prims) (Drawn prims) s₀ s) :
    ∃ entries', Represents prims salt logN first s entries' := by
  refine run.invariant (fun s => ∃ entries', Represents prims salt logN first s entries')
    ⟨entries, represents⟩ ?_
  rintro s s' ⟨d, act⟩ ⟨entries', here⟩ drawn rfl
  rw [Drawn, here.decodes.saltBytes_eq, here.cost] at drawn
  exact here.next ideal drawn act

theorem Represents.check_eq (represents : Represents prims salt logN first s entries)
    (d : Draws) (p : Pin) (old : PinLegacy) :
    pinCheck prims d p s.table old = .ok (checkRaw prims (prims.scrypt p salt logN) entries
      { legacyApp := legacyApp prims d p old, legacyWipe := legacyWipe prims d p old }) := by
  rw [pinCheck_eq represents.second represents.decodes, represents.cost]

theorem Represents.pinCheck_held (represents : Represents prims salt logN first s entries)
    {kind : Nat} {pin : Pin} {container key : Bytes} (inside : i < pinEntries)
    (held : s.book i = .held pin kind container key) (d : Draws) (old : PinLegacy) :
    pinCheck prims d pin s.table old = .ok
      { index := i, kind := kind, container := hexText container, unwrapped := hexText key,
        legacyApp := legacyApp prims d pin old, legacyWipe := legacyWipe prims d pin old } := by
  have within : i < entries.length := by rwa [represents.count]
  have entry := getElem?_eq_getElem within
  have ok := represents.slots i _ entry
  rw [held] at ok
  obtain ⟨sealedFor, high, boxed, keyed⟩ := ok
  have whole : (UInt8.ofNat kind :: container).length = pinMetaLen := by
    rw [length_cons, boxed]
    rfl
  have same : (UInt8.ofNat kind).toNat = kind := by
    rw [UInt8.toNat_ofNat', Nat.mod_eq_of_lt (by omega)]
  rw [represents.check_eq, represents.once.checkRaw_eq inside entry sealedFor.tag, sealedFor.opens]
  by_cases none : key = []
  · subst none
    simp only [PinResult.filled, whole, headD_cons, same]
    rfl
  · have size : key.length = pinKeyLen :=
      keyed.resolve_left fun zero => none (length_eq_zero_iff.mp zero)
    simp only [PinResult.filled, whole, if_true, headD_cons, tail_cons, same, if_neg none, size]

theorem Represents.check_next (ideal : prims.Ideal)
    (represents : Represents prims salt logN first s entries) (drawn : d.Ideal prims salt logN)
    {act : Act Pin} {p : Pin} (other : act.pin? ≠ some p) {r : PinResult}
    (elsewhere : (checkRaw prims (prims.scrypt p salt logN) entries r).index = -1 ∨
      (checkRaw prims (prims.scrypt p salt logN) entries r).index ≠ act.index)
    {entries' : List RawEntry}
    (after : Represents prims salt logN first (s.next prims d act) entries') :
    checkRaw prims (prims.scrypt p salt logN) entries' r =
      checkRaw prims (prims.scrypt p salt logN) entries r := by
  cases represents.does ideal drawn act with
  | refuses refused =>
    rw [Sys.next_of_refused refused] at after
    have same := Except.ok.inj ((decode_eq_ok.mpr after.decodes).symm.trans
      (decode_eq_ok.mpr represents.decodes))
    rw [(PinRaw.mk.inj same).2]
  | puts i e inside index reply sized apart slot =>
    have table : (s.next prims d act).table = s.table.setEntry i e := congrArg Prod.fst reply
    have decodes := represents.decodes.setEntry represents.second sized i
    rw [← table] at decodes
    have same := Except.ok.inj ((decode_eq_ok.mpr after.decodes).symm.trans
      (decode_eq_ok.mpr decodes))
    rw [(PinRaw.mk.inj same).2]
    have notHere : (checkRaw prims (prims.scrypt p salt logN) entries r).index ≠ i := by
      omega
    exact represents.once.checkRaw_set represents.count inside
      (fun tag => other (apart p tag).1) notHere

theorem Represents.check_kept {s₀ : Sys Pin}
    (represents₀ : Represents prims salt logN first s₀ first)
    (represents : Represents prims salt logN first s entries) {p : Pin} {r : PinResult}
    (opens : (checkRaw prims (prims.scrypt p salt logN) first r).index = i)
    (closed : r.index = -1) (kept : s.book i = .kept) :
    checkRaw prims (prims.scrypt p salt logN) entries r =
      checkRaw prims (prims.scrypt p salt logN) first r := by
  cases found : matching prims (prims.scrypt p salt logN) first with
  | none =>
    rw [checkRaw, found] at opens
    simp only [closed] at opens
    omega
  | some j =>
    obtain ⟨inside, here⟩ := tagged_of_matching found
    obtain ⟨e, entry, tag⟩ := tagged_iff.mp here
    rw [represents₀.once.checkRaw_eq inside entry tag] at opens ⊢
    obtain rfl : j = i := by
      by_contra apart
      have elsewhere : (r.filled j
          (openEntry prims (prims.scrypt p salt logN) e j)).index ≠ j := by omega
      rw [filled_eq_self_of_index elsewhere] at opens
      omega
    have within : j < entries.length := by rwa [represents.count]
    have now := getElem?_eq_getElem within
    have ok := represents.slots j _ now
    rw [kept] at ok
    obtain same := Option.some.inj (entry.symm.trans ok.1)
    rw [← same] at now
    exact represents.once.checkRaw_eq inside now tag r

def PinTable.HasTag (prims : Primitives Pin) (t : PinTable) (p : Pin) (i : Nat) : Prop :=
  ∃ raw, t.decode = .ok raw ∧ Tagged prims raw.salt t.logN raw.entries p i

theorem pins_isolated (prims : Primitives Pin) (ideal : prims.Ideal) (t₀ : PinTable)
    (start : Start prims t₀) (s : Sys Pin)
    (run : Run (Sys.step prims) (Drawn prims) ⟨t₀, fun _ => .kept⟩ s) :
    (∀ p i j, s.table.HasTag prims p i → s.table.HasTag prims p j → i = j) ∧
    (∀ i < pinEntries, ∀ pin kind container key, s.book i = .held pin kind container key →
      ∀ d old, pinCheck prims d pin s.table old = .ok
        { index := i, kind := kind, container := hexText container, unwrapped := hexText key,
          legacyApp := legacyApp prims d pin old, legacyWipe := legacyWipe prims d pin old }) ∧
    (∀ p d old r, ∀ i : Nat, pinCheck prims d p t₀ old = .ok r → r.index = i → s.book i = .kept →
      pinCheck prims d p s.table old = .ok r) ∧
    (∀ d act, Drawn prims s (d, act) → ∀ p d₁ old r, act.pin? ≠ some p →
      pinCheck prims d₁ p s.table old = .ok r → r.index = -1 ∨ r.index ≠ act.index →
        pinCheck prims d₁ p (act.reply prims d s.table).1 old = .ok r) ∧
    (∀ d t, ∀ act : Act Pin, (act.reply prims d t).2 ≠ none → (act.reply prims d t).1 = t) ∧
    (∀ d d₁ d₂ t up p old, t.upgrade d = .ok up → d.Ideal prims t.saltBytes t.logN →
      d₁.Ideal prims t.saltBytes t.logN → d₂.Ideal prims t.saltBytes t.logN →
        pinCheck prims d₁ p up old = pinCheck prims d₂ p t old) := by
  obtain ⟨salt, logN, first, represents₀, _⟩ := start.represents
  obtain ⟨entries, represents⟩ := represents₀.run ideal run
  refine ⟨?_, ?_, ?_, ?_, ?_, ?_⟩
  · rintro p i j ⟨raw, read, atI⟩ ⟨raw', read', atJ⟩
    obtain rfl := Except.ok.inj (read.symm.trans (decode_eq_ok.mpr represents.decodes))
    obtain rfl := Except.ok.inj (read'.symm.trans (decode_eq_ok.mpr represents.decodes))
    rw [represents.cost] at atI atJ
    exact represents.once p i j atI atJ
  · intro i inside pin kind container key held d old
    exact represents.pinCheck_held inside held d old
  · intro p d old r i checked index kept
    rw [represents₀.check_eq] at checked
    obtain rfl := Except.ok.inj checked
    rw [represents.check_eq, represents₀.check_kept represents index rfl kept]
  · intro d act drawn p d₁ old r other checked elsewhere
    rw [Drawn, represents.decodes.saltBytes_eq, represents.cost] at drawn
    obtain ⟨entries', after⟩ := represents.next ideal drawn act
    rw [represents.check_eq] at checked
    obtain rfl := Except.ok.inj checked
    have next := after.check_eq d₁ p old
    rw [represents.check_next ideal drawn other elsewhere after] at next
    exact next
  · intro d t act refused
    exact act.refused_unchanged d t refused
  · intro d d₁ d₂ t up p old upgraded drawn drawn₁ drawn₂
    exact pinCheck_upgrade upgraded drawn drawn₁ drawn₂ p old

section Runs

def whatByte : What → UInt8
  | .tag => 1
  | .record => 2
  | .wrap => 3

def macOf (key : Bytes) : Bytes := (key ++ List.replicate 16 0).take 16

/-- Primitives for two pins, with the pin, the use and the index in every label. -/
def boolPrims : Primitives Bool where
  scrypt p _ _ := [if p then 1 else 0]
  label k what i := k.headD 0 :: whatByte what :: UInt8.ofNat i :: List.replicate 29 7
  sealed key _ plain := plain ++ macOf key
  opened key _ c :=
    if c.drop (c.length - 16) = macOf key then some (c.take (c.length - 16)) else none
  legacyHash p salt := salt ++ [if p then 't' else 'f']

theorem length_macOf (key : Bytes) : (macOf key).length = 16 := by
  rw [macOf, length_take, length_append, length_replicate]
  omega

theorem boolPrims_ideal : boolPrims.Ideal where
  tag_inj salt logN p q i same := by
    have head : (if p then 1 else 0 : UInt8) = if q then 1 else 0 := (List.cons.inj same).1
    have apart : ∀ p q : Bool,
        ((if p then 1 else 0 : UInt8) = if q then 1 else 0) → p = q := by decide
    exact apart p q head
  tag_length k i := rfl
  sealed_length key nonce plain := by
    change (plain ++ macOf key).length = _
    rw [length_append, length_macOf]
    rfl
  opened_sealed key nonce plain := by
    have size : (plain ++ macOf key).length - 16 = plain.length := by
      rw [length_append, length_macOf, Nat.add_sub_cancel]
    change (if (plain ++ macOf key).drop ((plain ++ macOf key).length - 16) = macOf key then _
      else none) = _
    rw [size, if_pos drop_left]
    change some ((plain ++ macOf key).take ((plain ++ macOf key).length - 16)) = _
    rw [size, take_left]

def nines : RawEntry := ⟨List.replicate 32 9, List.replicate 45 9, List.replicate 60 9⟩

def boolDraws : Draws where
  wraps _ := List.replicate 60 9
  wrapsLength _ := rfl
  entries _ := nines
  entriesSized _ := ⟨rfl, rfl, rfl⟩
  recordNonce := List.replicate 12 0
  recordNonceLength := rfl
  wrapNonce := List.replicate 12 0
  wrapNonceLength := rfl
  noWrap := List.replicate 60 9
  noWrapLength := rfl
  standInSalt _ := []
  standInHash _ := []

theorem noWrap_nines (salt : Bytes) (logN : Int) :
    NoWrap boolPrims salt logN (List.replicate 60 9) := by
  intro p i
  cases p <;> rfl

theorem boolDraws_ideal (salt : Bytes) (logN : Int) : boolDraws.Ideal boolPrims salt logN where
  wraps _ := noWrap_nines salt logN
  entryTag _ p i same := by
    have head : (if p then 1 else 0 : UInt8) = 9 := (List.cons.inj same).1
    cases p <;> exact absurd head (by decide)
  entryWrap _ := noWrap_nines salt logN
  noWrap := noWrap_nines salt logN
  standIn p _ same := by cases p <;> cases same

def zeroSalt : Bytes := List.replicate 32 0

def noLegacy : PinLegacy := ⟨[], [], [], []⟩

def fiveBox : Bytes := List.replicate 16 5

def freshSys : Sys Bool := ⟨newPinTable boolDraws 14 zeroSalt, fun _ => .kept⟩

def setFirst : Act Bool := .setup true noLegacy 0 1 fiveBox []

def setSecond : Act Bool := .setup false noLegacy 1 4 fiveBox (List.replicate 32 6)

def bothSet : Sys Bool :=
  (freshSys.next boolPrims boolDraws setFirst).next boolPrims boolDraws setSecond

theorem pins_isolated_bothSet :
    pinCheck boolPrims boolDraws true bothSet.table noLegacy = .ok
      { index := 0, kind := 1, container := hexText fiveBox,
        legacyApp := false, legacyWipe := false } ∧
    pinCheck boolPrims boolDraws false bothSet.table noLegacy = .ok
      { index := 1, kind := 4, container := hexText fiveBox,
        unwrapped := hexText (List.replicate 32 6), legacyApp := false, legacyWipe := false } := by
  have start : Start boolPrims freshSys.table :=
    .empty boolDraws 14 zeroSalt rfl (by decide) (by decide) (boolDraws_ideal _ _)
  have one : Run (Sys.step boolPrims) (Drawn boolPrims) freshSys
      (freshSys.next boolPrims boolDraws setFirst) :=
    .snoc .refl (show Sys.step boolPrims freshSys (boolDraws, setFirst) _ from rfl)
      (boolDraws_ideal _ _)
  have run : Run (Sys.step boolPrims) (Drawn boolPrims) freshSys bothSet :=
    .snoc one (show Sys.step boolPrims _ (boolDraws, setSecond) bothSet from rfl)
      (boolDraws_ideal _ _)
  have held := (pins_isolated boolPrims boolPrims_ideal freshSys.table start bothSet run).2.1
  exact ⟨held 0 (by decide) true 1 fiveBox [] (by decide) boolDraws noLegacy,
    held 1 (by decide) false 4 fiveBox (List.replicate 32 6) (by decide) boolDraws noLegacy⟩

/-- A table of the first version with one pin's tag in two entries: only the first opens. -/
def taggedTwice : PinTable where
  v := 1
  logN := 14
  salt := hexText zeroSalt
  entries := (List.range 8).map fun i =>
    if i = 0 then
      { (pinSealEntry boolPrims boolDraws [1] 0 (1 :: fiveBox) []).text with w := [] }
    else if i = 3 then ⟨hexText (boolPrims.label [1] .tag 3), hexText nines.sealed, []⟩
    else ⟨hexText nines.tag, hexText nines.sealed, []⟩

def upgradedTwice : PinTable :=
  ⟨pinVersion, 14, hexText zeroSalt, upgradeEntries boolDraws taggedTwice.entries⟩

def setFourth : Act Bool := .setup false noLegacy 3 4 fiveBox []

/-- The other pin's setup of the fourth entry changes what the pin opens. -/
theorem not_pins_isolated :
    boolPrims.Ideal ∧ (∀ salt logN, boolDraws.Ideal boolPrims salt logN) ∧ taggedTwice.v = 1 ∧
      taggedTwice.upgrade boolDraws = .ok upgradedTwice ∧ setFourth.pin? ≠ some true ∧
      (setFourth.reply boolPrims boolDraws upgradedTwice).2 = none ∧
      pinCheck boolPrims boolDraws true upgradedTwice noLegacy =
        .ok { legacyApp := false, legacyWipe := false } ∧
      pinCheck boolPrims boolDraws true (setFourth.reply boolPrims boolDraws upgradedTwice).1
          noLegacy =
        .ok { index := 0, kind := 1, container := hexText fiveBox,
              legacyApp := false, legacyWipe := false } :=
  ⟨boolPrims_ideal, boolDraws_ideal, rfl, by decide, by decide, by decide,
    by decide, by decide⟩

end Runs

end Kryfo.Pin
