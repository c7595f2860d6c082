import Kryfo.Lock.Acts

/-!
# The hold of the lock

The window of a hold closes once its length has passed on the uptime clock of one boot.  While it
is open no act opens a session, and no typed pin but a wipe pin makes a difference.  A finger is
the exception where the screen's clock is ahead of the counters.
-/

namespace Kryfo.Lock

open Library

theorem LockCounters.holdLeft_rebased (c : LockCounters) (uptime boot : Int) :
    (c.rebased uptime boot).holdLeft uptime boot = c.holdLeft uptime boot := by
  unfold rebased
  split
  next => rfl
  next moved =>
    have running : ¬c.holdLen ≤ 0 := fun none => moved (.inl none)
    have later : boot ≠ c.holdBoot := fun same => moved (.inr same)
    simp only [holdLeft, if_neg running]
    omega

theorem LockCounters.rebased_of_running {c : LockCounters} (running : 0 < c.holdLen)
    (uptime boot : Int) : (c.rebased uptime boot).holdBoot = boot ∧
      ((c.holdBoot = boot ∧ (c.rebased uptime boot).holdStart = c.holdStart) ∨
        (c.rebased uptime boot).holdStart = uptime) := by
  unfold rebased
  split
  next kept =>
    have same : c.holdBoot = boot := by
      rcases kept with none | same
      · omega
      · exact same.symm
    exact ⟨same, .inl ⟨same, rfl⟩⟩
  next => exact ⟨rfl, .inr rfl⟩

section

variable {Pin Hash Table : Type}

def Act.setsBeside : Act Pin → Bool
  | setDecoyPin _ _ _ => true
  | setVaultPin _ _ _ _ => true
  | setPanicPin _ _ => true
  | _ => false

namespace Phone

variable (e : PinEngine Pin Hash Table) (p : Phone Hash Table)

theorem held_iff : p.Held ↔ 0 < p.lock.counters.holdLeft p.uptime p.boot := by
  unfold Held base
  rw [LockCounters.holdLeft_rebased]

def isWipePin (pin : Pin) : Bool := (p.checked e pin).isWipe

def Opens (a : Act Pin) : Prop :=
  match a with
  | .verify pin session took =>
    (p.verifyPin e pin session took).1 ∈ [PinResult.normal, .decoy, .vault]
  | .finger reply session => (p.tryBiometric reply session).1 = true
  | _ => False

/-- What an act shows, and what it leaves for later checks to show. -/
def shown (a : Act Pin) : Answer × Tally := ((p.act e a).1, (p.after e a).tally)

/-- A finger that opens unless the screen shows a hold. -/
def fingerMay : Act Pin → Bool
  | .finger reply session =>
    p.lock.enabled && p.lock.locked && p.lock.biometric && p.lock.bioSupported &&
      !p.lock.bioStale && p.fingerSeal.isSome && decide (reply = .ok (some p.fingerOpens)) &&
      (decide (p.fingerOpens ≠ .decoy) || p.decoyReady && session.inDecoy)
  | _ => false

/-- A finger that may open is tried past the date at which the screen's hold ends only where there
is no hold, or its length has passed on the uptime of its own boot; and beside an old app pin a pin
is set only where it counts. -/
def Steady (a : Act Pin) : Prop :=
  (p.fingerMay a = true → p.lock.holdEndsForScreen ≤ p.date → p.lock.counters.holdLen ≤ 0 ∨
      p.boot = p.lock.counters.holdBoot ∧
        p.lock.counters.holdStart + p.lock.counters.holdLen ≤ p.uptime) ∧
    (a.setsBeside = true → p.asksTry = true ∨ p.lock.legacy.app = none)

instance (a : Act Pin) : Decidable (p.Steady a) := inferInstanceAs (Decidable (_ ∧ _))

/-! ## A held pad -/

section Pad

variable {p}

theorem verifyPin_of_held (held : p.Held) {pin : Pin} (other : p.isWipePin e pin = false)
    (session : Session) (took : Nat) :
    p.verifyPin e pin session took =
      (.throttled, ((p.keep p.base).elapse took).refreshHoldForScreen) := by
  have verdict : p.verdict e pin = (.throttled, p.base) := by
    have notWipe : ¬(p.checked e pin).isWipe = true := Bool.eq_false_iff.mp other
    rw [verdict, if_neg notWipe, if_pos held]
  rw [verifyPin, verdict]
  rfl

theorem confirmPin_of_held (held : p.Held) {pin : Pin} (other : p.isWipePin e pin = false)
    (changesVault : Bool) (took : Nat) :
    p.confirmPin e pin changesVault took = (.throttled, p.elapse took) := by
  have notWipe : ¬(p.checked e pin).isWipe = true := Bool.eq_false_iff.mp other
  rw [confirmPin, if_neg notWipe, if_pos held]

theorem setTry_of_held (held : p.Held) (took : Nat) : (p.setTry took).1 = false := by
  simp [setTry, held]

theorem setup_of_held (held : p.Held) (asked : p.asksTry = true) (pin : Pin) (entry : Entry)
    (took : Nat) : p.setup e pin entry took = (false, (p.setTry took).2) := by
  rw [setup, if_pos asked, if_neg (by simp [setTry_of_held held])]

/-- With no table and no old app pin, only the old wipe pin is in use. -/
theorem write_of_noTable (noTable : p.lock.table = none) {entry : Entry}
    (noApp : (p.legacyBeside entry.slot).app = none) {pin : Pin}
    (other : p.isWipePin e pin = false) : (p.write e pin entry).1 = true := by
  have noWipe : p.lock.legacy.wipe.any (e.matchesHash · pin) = false := by
    have both : ((p.checked e pin).kind = some .wipe || (p.checked e pin).lw) = false := other
    exact (Bool.or_eq_false_iff.mp both).2
  have beside : (p.legacyBeside entry.slot).wipe.any (e.matchesHash · pin) = false := by
    unfold legacyBeside
    dsimp only
    split
    · rfl
    · exact noWipe
  have free : e.clashes pin (p.ensureTable e) (p.legacyBeside entry.slot) entry.slot = false := by
    unfold PinEngine.clashes ensureTable
    rw [noTable, Option.getD_none, e.find_newTable, noApp, beside]
    rfl
  unfold write
  rw [PinEngine.setup, if_neg (by simp [free])]
  dsimp only
  split <;> rfl

theorem noTable_of_not_asked (notAsked : p.asksTry = false) : p.lock.table = none := by
  have both := Bool.or_eq_false_iff.mp notAsked
  exact Option.isSome_eq_false_iff.mp both.2 |> Option.isNone_iff_eq_none.mp

theorem setup_of_not_asked (notAsked : p.asksTry = false) {entry : Entry}
    (noApp : (p.legacyBeside entry.slot).app = none) {pin : Pin}
    (other : p.isWipePin e pin = false) (took : Nat) :
    (p.setup e pin entry took).1 = true := by
  rw [setup, if_neg (by simp [notAsked])]
  exact @write_of_noTable _ _ _ e (p.elapse took) (noTable_of_not_asked notAsked) entry noApp pin
    other

theorem setup_same (held : p.Held) {entry : Entry}
    (counted : p.asksTry = true ∨ (p.legacyBeside entry.slot).app = none) {pin pin' : Pin}
    (other : p.isWipePin e pin = false) (other' : p.isWipePin e pin' = false) (took : Nat) :
    (p.setup e pin' entry took).1 = (p.setup e pin entry took).1 := by
  cases asked : p.asksTry with
  | true => rw [setup_of_held e held asked, setup_of_held e held asked]
  | false =>
    have noApp : (p.legacyBeside entry.slot).app = none := by
      rcases counted with was | none
      · rw [asked] at was
        exact Bool.noConfusion was
      · exact none
    rw [setup_of_not_asked e asked noApp other, setup_of_not_asked e asked noApp other']

theorem counted_beside (counted : p.asksTry = true ∨ p.lock.legacy.app = none) (slot : PinSlot) :
    p.asksTry = true ∨ (p.legacyBeside slot).app = none := by
  rcases counted with counts | none
  · exact .inl counts
  · simp [legacyBeside, none]

theorem setupPin_same (held : p.Held) {pin pin' : Pin} (other : p.isWipePin e pin = false)
    (other' : p.isWipePin e pin' = false) (took : Nat) :
    (p.setupPin e pin' took).1 = (p.setupPin e pin took).1 := by
  unfold setupPin
  by_cases outside : p.lock.inDecoy = false
  · rw [if_pos outside, if_pos outside]
    exact setup_same e held (.inr rfl) other other' took
  · have refused : ¬(p.setTry took).1 = true := by simp [setTry_of_held held]
    rw [if_neg outside, if_neg outside, if_neg refused, if_neg refused]

theorem fst_setupPanicPin (pin : Pin) (took : Nat) :
    (p.setupPanicPin e pin took).1 = (p.setup e pin
      ⟨if p.lock.inDecoy then .decoyWipe else .wipe, .wipe, .everyday, []⟩ took).1 := by
  unfold setupPanicPin
  split <;>
  · dsimp only
    split
    next done => exact done.symm
    next => rfl

theorem fst_setupDecoyPin (pin : Pin) (sealsAgain : Bool) (took : Nat) :
    (p.setupDecoyPin e pin sealsAgain took).1 =
      if p.lock.inDecoy then (p.setup e pin ⟨.decoyDecoy, .decoy, .decoy, []⟩ took).1
      else (p.parkFingerForDecoy.setup e pin ⟨.decoy, .decoy, .decoy, []⟩ took).1 := by
  unfold setupDecoyPin
  split <;>
  · dsimp only
    split
    next done => exact done.symm
    next refused => exact (Bool.not_eq_true _ ▸ refused : _ = false).symm

theorem setupDecoyPin_same (held : p.Held)
    (counted : p.asksTry = true ∨ p.lock.legacy.app = none) {pin pin' : Pin}
    (other : p.isWipePin e pin = false) (other' : p.isWipePin e pin' = false) (sealsAgain : Bool)
    (took : Nat) :
    (p.setupDecoyPin e pin' sealsAgain took).1 = (p.setupDecoyPin e pin sealsAgain took).1 := by
  rw [fst_setupDecoyPin, fst_setupDecoyPin]
  split
  · exact setup_same e held (counted_beside counted _) other other' took
  · have beside := counted_beside counted .decoy
    cases parks : (p.lock.decoyListed || p.lock.inDecoy || !p.lock.biometric) with
    | true =>
      rw [parkFingerForDecoy, if_pos parks]
      exact setup_same e held beside other other' took
    | false =>
      rw [parkFingerForDecoy, if_neg (by simp [parks])]
      refine @setup_same _ _ _ e _ ?_ _ ?_ _ _ ?_ ?_ took
      exacts [held, beside, other, other']

/-- While the pad is held, what is shown of a pin that is not a wipe pin is the same for all. -/
theorem shown_same (held : p.Held) {a : Act Pin} (steady : p.Steady a) {f : Pin → Pin}
    (other : ∀ pin ∈ a.pins, p.isWipePin e pin = false ∧ p.isWipePin e (f pin) = false) :
    p.shown e (a.withPins f) = p.shown e a := by
  cases a with
  | verify pin session took =>
    obtain ⟨one, two⟩ := other pin (List.mem_singleton.mpr rfl)
    simp only [shown, Act.withPins, after, act, verifyPin_of_held e held one,
      verifyPin_of_held e held two]
  | confirm pin changesVault took =>
    obtain ⟨one, two⟩ := other pin (List.mem_singleton.mpr rfl)
    simp only [shown, Act.withPins, after, act, confirmPin_of_held e held one,
      confirmPin_of_held e held two]
  | setPin pin took =>
    obtain ⟨one, two⟩ := other pin (List.mem_singleton.mpr rfl)
    simp only [shown, Act.withPins, after, act, tally_setupPin, setupPin_same e held one two]
  | setDecoyPin pin sealsAgain took =>
    obtain ⟨one, two⟩ := other pin (List.mem_singleton.mpr rfl)
    simp only [shown, Act.withPins, after, act, tally_setupDecoyPin,
      setupDecoyPin_same e held (steady.2 rfl) one two]
  | setVaultPin pin key of took =>
    obtain ⟨one, two⟩ := other pin (List.mem_singleton.mpr rfl)
    cases asked : p.vaultPinAsked key of with
    | false => simp only [shown, Act.withPins, after, act, p.setupVaultPin_of_not_asked e asked]
    | true =>
      obtain ⟨entry, same⟩ := p.setupVaultPin_of_asked e asked
      have counted := counted_beside (steady.2 rfl) entry.slot
      simp only [shown, Act.withPins, after, act, same, tally_setup,
        setup_same e held counted one two]
  | rewrapPin oldPin newPin took =>
    cases there : p.lock.table with
    | none => simp only [shown, Act.withPins, after, act, p.rewrapVaultPin_of_none e there]
    | some table =>
      have refused : ¬(p.setTry took).1 = true := by simp [setTry_of_held held]
      simp only [shown, Act.withPins, after, act, rewrapVaultPin, if_neg refused]
  | setPanicPin pin took =>
    obtain ⟨one, two⟩ := other pin (List.mem_singleton.mpr rfl)
    have counted := counted_beside (steady.2 rfl) (if p.lock.inDecoy then .decoyWipe else .wipe)
    simp only [shown, Act.withPins, after, act, tally_setupPanicPin, fst_setupPanicPin]
    rw [@setup_same _ _ _ e p held
      ⟨if p.lock.inDecoy then .decoyWipe else .wipe, .wipe, .everyday, []⟩ counted _ _ one two]
  | _ => rfl

theorem named_of_openByFinger {opens : Option HaloContainer} {session : Session}
    (opened : (p.openByFinger opens session).1 = true) : opens = some p.fingerOpens ∧
      (p.fingerOpens ≠ .decoy ∨ p.decoyReady = true ∧ session.inDecoy = true) := by
  unfold openByFinger at opened
  split at opened
  · cases opened
  next may =>
    have named : opens = some p.fingerOpens := not_not.mp may
    refine ⟨named, or_iff_not_imp_left.mpr fun decoy => ?_⟩
    rw [if_pos (named.trans (congrArg some (not_not.mp decoy)))] at opened
    dsimp only at opened
    split_ifs at opened with unready inDecoy
    exact ⟨by simpa using unready, inDecoy⟩

theorem fingerMay_of_opened {a : Act Pin} (opened : p.FingerOpened a) :
    p.fingerMay a = true ∧ p.lock.holdEndsForScreen ≤ p.date := by
  cases a with
  | finger reply session =>
    simp only [FingerOpened, tryBiometric] at opened
    split_ifs at opened with off held unasked unsealed
    have shown : p.lock.holdEndsForScreen ≤ p.date := by
      simp only [throttleLeft] at held
      omega
    cases reply with
    | ok opens =>
      dsimp only at opened
      split_ifs at opened with opens
      obtain ⟨named, session⟩ := named_of_openByFinger opens
      refine ⟨?_, shown⟩
      simp only [Bool.not_eq_false, Bool.and_eq_true, Bool.not_eq_true, Bool.or_eq_false_iff,
        Bool.not_eq_false'] at off unasked
      simpa [fingerMay, off, unasked, Option.isSome_iff_ne_none, unsealed, named] using session
    | _ => cases opened
  | _ => exact opened.elim

/-- A held pad is opened by no finger that is tried while the clocks are steady. -/
theorem not_fingerOpened (held : p.Held) {a : Act Pin} (steady : p.Steady a) :
    ¬p.FingerOpened a := by
  intro opened
  have running := p.held_iff.mp held
  obtain ⟨may, shown⟩ := fingerMay_of_opened opened
  unfold LockCounters.holdLeft at running
  rcases steady.1 may shown with none | ⟨same, past⟩
  · rw [if_pos none] at running
    omega
  · split_ifs at running <;> omega

theorem not_opens (held : p.Held) {a : Act Pin} (steady : p.Steady a) : ¬p.Opens e a := by
  intro opens
  cases a with
  | verify pin session took =>
    have inside : (p.verifyPin e pin session took).1 ∈ [PinResult.normal, .decoy, .vault] := opens
    have shut : (p.verdict e pin).1 = .panic ∨ (p.verdict e pin).1 = .throttled := by
      unfold verdict
      split
      · exact .inl rfl
      · exact .inr rfl
    unfold verifyPin at inside
    rcases shut with panic | throttled
    · simp [openedAs, panic] at inside
    · simp [openedAs, throttled] at inside
  | finger reply session => exact not_fingerOpened held steady opens
  | _ => exact opens

end Pad

end Phone

/-! ## The window of a hold -/

/-- Where a hold is counted from. -/
structure Since where
  boot : Int
  uptime : Int

/-- The hold that a miss opened still keeps the pad, at least until its window closes. -/
structure Covers (len : Int) (t : Tally) (since : Since) : Prop where
  long : 0 < len
  holdLen : t.counters.holdLen = len
  running : t.boot = since.boot → t.uptime < since.uptime + len
  boots : t.counters.holdBoot ≤ t.boot
  sinceBoot : since.boot ≤ t.boot
  sinceUptime : since.boot = t.boot → since.uptime ≤ t.uptime
  covered : t.counters.holdBoot = t.boot → since.boot = t.boot ∧ since.uptime ≤ t.counters.holdStart

variable {since : Since}

theorem Covers.holdLeft_pos {len : Int} {t : Tally} (covers : Covers len t since) :
    0 < t.counters.holdLeft t.uptime t.boot := by
  obtain ⟨long, holdLen, running, -, -, -, covered⟩ := covers
  unfold LockCounters.holdLeft
  split
  next => omega
  next sameBoot =>
    omega

/-- A phone with the window of the hold that is watched, none once it has closed. -/
structure Watch (Hash Table : Type) where
  phone : Phone Hash Table
  window : Option Since

namespace Watch

variable (e : PinEngine Pin Hash Table) (len : Int)

/-- A window closes once its length has passed in the boot it is counted in. -/
def closing (p : Phone Hash Table) (since : Since) : Option Since :=
  if p.boot = since.boot ∧ since.uptime + len ≤ p.uptime then none else some since

/-- The first check that sees a later boot counts the hold from there. -/
def seen (p : Phone Hash Table) (a : Act Pin) (since : Since) : Since :=
  if p.looks a = true ∧ p.boot ≠ since.boot then ⟨p.boot, p.uptime⟩ else since

def next (w : Watch Hash Table) (a : Act Pin) : Watch Hash Table where
  phone := w.phone.after e a
  window := w.window.bind fun since => closing len (w.phone.after e a) (seen w.phone a since)

def start (p : Phone Hash Table) (a : Act Pin) : Watch Hash Table where
  phone := p.after e a
  window := closing len (p.after e a) ⟨p.boot, p.uptime⟩

variable {p : Phone Hash Table}

theorem eq_of_closing {since' : Since} (isOpen : closing len p since = some since') :
    since' = since ∧ (p.boot = since.boot → p.uptime < since.uptime + len) := by
  unfold closing at isOpen
  split at isOpen
  next => cases isOpen
  next notOver =>
    cases isOpen
    exact ⟨rfl, fun same => not_le.mp fun isOver => notOver ⟨same, isOver⟩⟩

variable {len}

theorem covers_start {c : LockCounters} {ms : Nat} (long : 0 < len)
    (start : c.holdStart = p.uptime) (boot : c.holdBoot = p.boot) (holdLen : c.holdLen = len)
    {p' : Phone Hash Table} (left : p'.tally = (p.tally.keep c).elapse ms)
    (isOpen : closing len p' ⟨p.boot, p.uptime⟩ = some since) : Covers len p'.tally since := by
  obtain ⟨rfl, running⟩ := eq_of_closing len isOpen
  have sameBoot : p'.boot = p.boot := congrArg Tally.boot left
  have later : p'.uptime = p.uptime + ms := congrArg Tally.uptime left
  rw [sameBoot, later] at running
  rw [left]
  refine ⟨long, holdLen, fun _ => running rfl, boot.le, le_rfl, fun _ => ?_, fun _ => ⟨rfl, ?_⟩⟩
  · show p.uptime ≤ p.uptime + ms
    omega
  · exact start.ge

theorem seen_cases (p : Phone Hash Table) (a : Act Pin) (since : Since) :
    (seen p a since = since ∧ (p.looks a = true → p.boot = since.boot)) ∨
      (seen p a since = ⟨p.boot, p.uptime⟩ ∧ p.boot ≠ since.boot) := by
  unfold seen
  split
  next later => exact .inr ⟨rfl, later.2⟩
  next notLater =>
    exact .inl ⟨rfl, fun looks => not_not.mp fun other => notLater ⟨looks, other⟩⟩

/-- Counted from a later boot or not, the hold covers what is left of the window. -/
theorem covers_seen (covers : Covers len p.tally since) (a : Act Pin) :
    Covers len p.tally (seen p a since) ∧ (p.looks a = true → (seen p a since).boot = p.boot) := by
  obtain ⟨long, holdLen, running, boots, sinceBoot, sinceUptime, covered⟩ := covers
  rcases seen_cases p a since with ⟨same, looked⟩ | ⟨moved, later⟩
  · rw [same]
    exact ⟨⟨long, holdLen, running, boots, sinceBoot, sinceUptime, covered⟩,
      fun looks => (looked looks).symm⟩
  · rw [moved]
    refine ⟨⟨long, holdLen, fun _ => ?_, boots, le_rfl, fun _ => le_rfl, fun here => ?_⟩,
      fun _ => rfl⟩
    · show p.uptime < p.uptime + len
      omega
    · exact (later (covered here).1.symm).elim

theorem covers_next (loaded : p.tally.Loaded) {since' : Since} (covers : Covers len p.tally since)
    {a : Act Pin} (steady : p.Steady a)
    (isOpen : closing len (p.after e a) (seen p a since) = some since') :
    Covers len (p.after e a).tally since' := by
  have held : p.Held := p.held_iff.mpr covers.holdLeft_pos
  have shut : ¬(¬p.Held ∨ p.FingerOpened a) :=
    not_or.mpr ⟨not_not.mpr held, Phone.not_fingerOpened held steady⟩
  obtain ⟨rfl, running⟩ := eq_of_closing len isOpen
  obtain ⟨⟨long, holdLen, -, boots, sinceBoot, sinceUptime, covered⟩, looked⟩ := covers_seen covers a
  have effect := p.effect_act e loaded a
  change (p.after e a).tally.boot = _ → (p.after e a).tally.uptime < _ at running
  generalize (p.after e a).tally = t at effect running ⊢
  cases effect with
  | same ms =>
    refine ⟨long, holdLen, running, boots, sinceBoot, fun here => ?_, covered⟩
    have before := sinceUptime here
    exact le_trans before (Int.le_add_of_nonneg_right (Int.natCast_nonneg ms))
  | rebooted uptime =>
    have next : p.tally.boot < p.boot + 1 := Int.lt_succ _
    refine ⟨long, holdLen, running, le_of_lt (lt_of_le_of_lt boots next),
      le_of_lt (lt_of_le_of_lt sinceBoot next), fun here => ?_, fun here => ?_⟩
    · exact absurd here (ne_of_lt (lt_of_le_of_lt sinceBoot next))
    · exact absurd here (ne_of_lt (lt_of_le_of_lt boots next))
  | rewritten => exact ⟨long, holdLen, running, boots, sinceBoot, sinceUptime, covered⟩
  | saw ms looks =>
    have here := looked looks
    have before := sinceUptime here
    have baseLen : p.base.holdLen = len := (LockCounters.holdLen_rebased _ _ _).trans holdLen
    have counts : 0 < p.lock.counters.holdLen := by
      rw [show p.lock.counters.holdLen = len from holdLen]
      exact long
    obtain ⟨baseBoot, baseStart⟩ := LockCounters.rebased_of_running counts p.uptime p.boot
    refine ⟨long, baseLen, running, baseBoot.le, sinceBoot, fun _ => ?_, fun _ => ⟨here, ?_⟩⟩
    · exact le_trans before (Int.le_add_of_nonneg_right (Int.natCast_nonneg ms))
    · rcases baseStart with ⟨sameBoot, sameStart⟩ | fromHere
      · exact le_of_le_of_eq (covered sameBoot).2 sameStart.symm
      · exact le_of_le_of_eq before fromHere.symm
  | missed ms free => exact (shut (.inl free)).elim
  | opened ms free | decoy ms free => exact (shut free).elim

/-- What a run keeps: the phone is loaded and the hold covers the open window. -/
structure Keeps (len : Int) (w : Watch Hash Table) : Prop where
  loaded : w.phone.tally.Loaded
  covers : ∀ since, w.window = some since → Covers len w.phone.tally since

theorem Keeps.next {w : Watch Hash Table} (keeps : Keeps len w) {a : Act Pin}
    (steady : w.phone.Steady a) : Keeps len (w.next e len a) where
  loaded := w.phone.loaded_act e keeps.loaded a
  covers since' isOpen := by
    obtain ⟨since, was, closes⟩ := Option.bind_eq_some_iff.mp isOpen
    exact covers_next e keeps.loaded (keeps.covers since was) steady closes

end Watch

namespace Phone

variable (e : PinEngine Pin Hash Table) (p : Phone Hash Table)

/-- The act is a miss and starts a hold of this length. -/
structure StartsHold (a : Act Pin) (len : Int) : Prop where
  missed : p.Missed e a
  long : 0 < len
  start : (p.after e a).lock.counters.holdStart = p.uptime
  boot : (p.after e a).lock.counters.holdBoot = p.boot
  holdLen : (p.after e a).lock.counters.holdLen = len

variable {p}

variable {a : Act Pin}

theorem tally_of_missed (loaded : p.tally.Loaded) (missed : p.Missed e a) :
    ∃ ms, (p.after e a).tally = (p.tally.keep (p.base.miss p.uptime p.boot)).elapse ms := by
  have effect := p.effect_act e loaded a
  generalize (p.after e a).tally = t at effect ⊢
  cases effect with
  | same ms noMiss | rebooted uptime noMiss | rewritten noMiss | saw ms looks noMiss
  | opened ms free noMiss | decoy ms free noMiss => exact (noMiss missed).elim
  | missed ms => exact ⟨ms, rfl⟩

theorem keeps_start (loaded : p.tally.Loaded) {len : Int} (starts : p.StartsHold e a len) :
    Watch.Keeps len (Watch.start e len p a) where
  loaded := p.loaded_act e loaded a
  covers since isOpen := by
    obtain ⟨ms, left⟩ := tally_of_missed e loaded starts.missed
    have counters : (p.after e a).lock.counters = p.base.miss p.uptime p.boot :=
      congrArg Tally.counters left
    have start := starts.start
    have boot := starts.boot
    have holdLen := starts.holdLen
    rw [counters] at start boot holdLen
    exact Watch.covers_start starts.long start boot holdLen left isOpen

/-! ## The budget -/

structure Counted (Hash Table : Type) where
  phone : Phone Hash Table
  misses : Nat

def Counted.next (c : Counted Hash Table) (a : Act Pin) : Counted Hash Table where
  phone := c.phone.after e a
  misses := if c.phone.Missed e a then c.misses + 1 else c.misses

structure Counted.Keeps (c : Counted Hash Table) : Prop where
  loaded : c.phone.tally.Loaded
  budget : c.phone.lock.counters.budget = c.misses

theorem budget_act (loaded : p.tally.Loaded) (noUnlock : ¬p.Unlocks e a) :
    (p.after e a).lock.counters.budget =
      if p.Missed e a then p.lock.counters.budget + 1 else p.lock.counters.budget := by
  have effect := p.effect_act e loaded a
  change (p.after e a).tally.counters.budget = _
  generalize (p.after e a).tally = t at effect ⊢
  cases effect with
  | same ms noMiss | rebooted uptime noMiss | rewritten noMiss | decoy ms free noMiss =>
    rw [if_neg noMiss]; rfl
  | saw ms looks noMiss =>
    rw [if_neg noMiss]
    exact LockCounters.budget_rebased _ _ _
  | missed ms free missed =>
    rw [if_pos missed]
    refine (LockCounters.budget_miss _ _ _).trans ?_
    exact congrArg (· + 1) (LockCounters.budget_rebased _ _ _)
  | opened ms free noMiss unlocks => exact (noUnlock unlocks).elim

theorem Counted.Keeps.next {c : Counted Hash Table} (keeps : c.Keeps)
    (noUnlock : ¬c.phone.Unlocks e a) : (c.next e a).Keeps where
  loaded := c.phone.loaded_act e keeps.loaded a
  budget := by
    have counted := budget_act e keeps.loaded noUnlock
    rw [keeps.budget] at counted
    refine counted.trans ?_
    change _ = ((if c.phone.Missed e a then c.misses + 1 else c.misses : Nat) : Int)
    split <;> rfl

theorem keeps_of_unlocks (loaded : p.tally.Loaded) (unlocks : p.Unlocks e a) :
    (Counted.mk (p.after e a) 0).Keeps where
  loaded := p.loaded_act e loaded a
  budget := by
    have effect := p.effect_act e loaded a
    change (p.after e a).tally.counters.budget = _
    generalize (p.after e a).tally = t at effect ⊢
    cases effect with
    | same ms noMiss noUnlock | rebooted uptime noMiss noUnlock | rewritten noMiss noUnlock
    | saw ms looks noMiss noUnlock | missed ms free missed noUnlock
    | decoy ms free noMiss noUnlock => exact (noUnlock unlocks).elim
    | opened ms => rfl

theorem startsHold_of_fifth {c : Counted Hash Table} (keeps : c.Keeps)
    (missed : c.phone.Missed e a) (many : 20 ≤ c.misses + 1) (fifth : 5 ∣ c.misses + 1) :
    ∃ len, LockCounters.leastHold (c.misses + 1) ≤ len ∧ c.phone.StartsHold e a len := by
  obtain ⟨ms, left⟩ := tally_of_missed e keeps.loaded missed
  have counters : (c.phone.after e a).lock.counters =
      c.phone.base.miss c.phone.uptime c.phone.boot := congrArg Tally.counters left
  have counted : c.phone.base.budget + 1 = ((c.misses + 1 : Nat) : Int) := by
    rw [show c.phone.base.budget = c.phone.lock.counters.budget from
      LockCounters.budget_rebased _ _ _, keeps.budget]
    rfl
  obtain ⟨start, boot, least⟩ :=
    LockCounters.miss_of_fifth counted many fifth c.phone.uptime c.phone.boot
  rw [← counters] at start boot least
  exact ⟨_, least, missed, lt_of_lt_of_le (LockCounters.leastHold_pos _) least, start, boot, rfl⟩

end Phone

/-- In every run whose steps are steady, from a miss that starts a hold until its window
closes no act opens a session, and what is shown of a pin that is not a wipe pin is the
same for all.  In every run without an everyday unlock, each fifth miss from the twentieth
on starts a hold as long as its number asks for. -/
theorem hold_kept (e : PinEngine Pin Hash Table) (p : Phone Hash Table) (a : Act Pin)
    (loaded : p.tally.Loaded) :
    (∀ len, p.StartsHold e a len → ∀ w : Watch Hash Table,
      Run (fun w b w' => w' = w.next e len b) (fun w b => w.phone.Steady b)
        (Watch.start e len p a) w → w.window.isSome →
      ∀ b : Act Pin, w.phone.Steady b → ¬w.phone.Opens e b ∧ ∀ f : Pin → Pin, (∀ pin ∈ b.pins,
          w.phone.isWipePin e pin = false ∧ w.phone.isWipePin e (f pin) = false) →
          w.phone.shown e (b.withPins f) = w.phone.shown e b) ∧
    (p.Unlocks e a → ∀ c : Phone.Counted Hash Table,
      Run (fun c b c' => c' = c.next e b) (fun c b => ¬c.phone.Unlocks e b)
        ⟨p.after e a, 0⟩ c →
      ∀ b : Act Pin, c.phone.Missed e b → 20 ≤ c.misses + 1 → 5 ∣ c.misses + 1 →
        ∃ len, LockCounters.leastHold (c.misses + 1) ≤ len ∧ c.phone.StartsHold e b len) := by
  refine ⟨fun len starts w run isOpen b steady => ?_, fun unlocks c run b missed many fifth => ?_⟩
  · have keeps : Watch.Keeps len w := by
      refine run.invariant (Watch.Keeps len) (Phone.keeps_start e loaded starts) ?_
      rintro s _ b keeps allowed rfl
      exact keeps.next e allowed
    obtain ⟨since, window⟩ := Option.isSome_iff_exists.mp isOpen
    have held : w.phone.Held := w.phone.held_iff.mpr (keeps.covers since window).holdLeft_pos
    exact ⟨Phone.not_opens e held steady, fun f other => Phone.shown_same e held steady other⟩
  · have keeps : c.Keeps := by
      refine run.invariant Phone.Counted.Keeps (Phone.keeps_of_unlocks e loaded unlocks) ?_
      rintro s _ b keeps allowed rfl
      exact keeps.next e allowed
    exact Phone.startsHold_of_fifth e keeps missed many fifth

end

/-! ## A small engine -/

def listEngine : PinEngine Nat Nat (List (Nat × Entry)) where
  calibrate := 14
  newTable _ := []
  find table pin := table.lookup pin
  put table pin entry := (pin, entry) :: table
  clear table slot := table.filter fun row => row.2.slot ≠ slot
  matchesHash hash pin := hash = pin
  find_newTable _ _ := rfl

def lockedPhone : Phone Nat (List (Nat × Entry)) where
  uptime := 0
  boot := 1
  date := 0
  decoyReady := true
  state := none
  misses := none
  holdUntil := none
  fingerSeal := some .decoy
  lock := {
    enabled := true
    biometric := true
    bioSupported := true
    decoyListed := true
    table := some [(1234, ⟨.app, .everyday, .everyday, []⟩), (5555, ⟨.decoy, .decoy, .decoy, []⟩)] }

def decoySession : Session := ⟨true, false, false⟩

def everydaySession : Session := ⟨false, false, false⟩

def typed (pin : Nat) : Act Nat := .verify pin everydaySession 450

def fourMissed : Phone Nat (List (Nat × Entry)) :=
  [typed 0, typed 0, typed 0, typed 0].foldl (fun p a => p.after listEngine a) lockedPhone

theorem loaded_fourMissed : fourMissed.tally.Loaded := ⟨by decide +kernel, by decide⟩

theorem startsHold_fifth : fourMissed.StartsHold listEngine (typed 0) 30000 :=
  ⟨by decide, by decide, by decide, by decide, by decide⟩

def nineteenMisses : List (Act Nat) :=
  List.replicate 5 (typed 0) ++ .wait 30000 :: List.replicate 5 (typed 0) ++
    .wait 60000 :: List.replicate 5 (typed 0) ++ .wait 120000 :: List.replicate 4 (typed 0)

def nineteenMissed : Phone.Counted Nat (List (Nat × Entry)) :=
  nineteenMisses.foldl (Phone.Counted.next listEngine) ⟨lockedPhone.after listEngine (typed 1234), 0⟩

/-- While the pad is held a finger and two pins are tried. -/
def triedWhileHeld : List (Act Nat) :=
  [.wait 9000, .finger (.ok (some .decoy)) decoySession, typed 5555, .wait 9000, typed 1234]

theorem hold_kept_listEngine :
    ¬(triedWhileHeld.foldl (Watch.next listEngine 30000)
        (Watch.start listEngine 30000 fourMissed (typed 0))).phone.Opens listEngine (typed 1234) ∧
      ∃ len, LockCounters.leastHold (nineteenMissed.misses + 1) ≤ len ∧
        nineteenMissed.phone.StartsHold listEngine (typed 0) len := by
  constructor
  · exact ((hold_kept listEngine fourMissed (typed 0) loaded_fourMissed).1 30000 startsHold_fifth
      _ (.of_allowed _ _ (by decide +kernel)) (by decide +kernel) (typed 1234) (by decide +kernel)).1
  · refine (hold_kept listEngine lockedPhone (typed 1234) ⟨rfl, rfl⟩).2 (by decide +kernel)
      nineteenMissed ?_ (typed 0) (by decide +kernel) (by decide +kernel) (by decide +kernel)
    exact Run.of_allowed (Phone.Counted.next listEngine)
      (fun c b => ¬c.phone.Unlocks listEngine b) (by decide +kernel)

/-- The date is moved a minute on while the pad is held, and a finger opens the decoy. -/
theorem movedDate_opensDecoy :
    fourMissed.tally.Loaded ∧ fourMissed.StartsHold listEngine (typed 0) 30000 ∧
      ∃ w, Run (fun w b w' => w' = Watch.next listEngine 30000 w b) (fun _ _ => True)
          (Watch.start listEngine 30000 fourMissed (typed 0)) w ∧
        w.window.isSome ∧ w.phone.Opens listEngine (.finger (.ok (some .decoy)) decoySession) := by
  refine ⟨loaded_fourMissed, startsHold_fifth,
    (Watch.start listEngine 30000 fourMissed (typed 0)).next listEngine 30000 (.setDate 60000),
    .snoc .refl rfl trivial, ?_, ?_⟩
  · decide
  · show (Phone.tryBiometric _ _ _).1 = true
    decide

end Kryfo.Lock
