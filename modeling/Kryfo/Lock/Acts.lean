import Kryfo.Lock.Pad
import Kryfo.Library.Run

/-!
# What an act does to the counters

Whatever an act is, it leaves the counters as they are, or writes down the boot it saw, counts
one miss, or is an unlock.
-/

namespace Kryfo.Lock

open Library

inductive Act (Pin : Type) where
  | wait (ms : Nat)
  | setDate (date : Int)
  | leave
  | containersOpen (ready : Bool)
  | fingers (on : Bool) (fingers : Fingers) (fingerSeal : Option HaloContainer)
  | restart (fingers : Fingers)
  | reboot (uptime : Nat) (date : Int) (fingers : Fingers)
  | verify (pin : Pin) (session : Session) (took : Nat)
  | confirm (pin : Pin) (changesVault : Bool) (took : Nat)
  | setPin (pin : Pin) (took : Nat)
  | setDecoyPin (pin : Pin) (sealsAgain : Bool) (took : Nat)
  | setVaultPin (pin : Pin) (key : Text) (of : Option HaloContainer) (took : Nat)
  | rewrapPin (oldPin newPin : Pin) (took : Nat)
  | setPanicPin (pin : Pin) (took : Nat)
  | finger (reply : BioReply) (session : Session)

inductive Answer where
  | nothing
  | pin (result : PinResult)
  | set (taken : Option Bool)
  | finger (opened : Bool)
deriving DecidableEq

namespace Act

variable {Pin : Type}

def pins : Act Pin → List Pin
  | verify pin _ _ => [pin]
  | confirm pin _ _ => [pin]
  | setPin pin _ => [pin]
  | setDecoyPin pin _ _ => [pin]
  | setVaultPin pin _ _ _ => [pin]
  | rewrapPin oldPin newPin _ => [oldPin, newPin]
  | setPanicPin pin _ => [pin]
  | _ => []

def withPins (f : Pin → Pin) : Act Pin → Act Pin
  | verify pin session took => verify (f pin) session took
  | confirm pin changesVault took => confirm (f pin) changesVault took
  | setPin pin took => setPin (f pin) took
  | setDecoyPin pin sealsAgain took => setDecoyPin (f pin) sealsAgain took
  | setVaultPin pin key of took => setVaultPin (f pin) key of took
  | rewrapPin oldPin newPin took => rewrapPin (f oldPin) (f newPin) took
  | setPanicPin pin took => setPanicPin (f pin) took
  | act => act

end Act

structure Tally where
  counters : LockCounters
  state : Option Text
  misses : Option Int
  uptime : Int
  boot : Int

namespace Tally

def keep (t : Tally) (c : LockCounters) : Tally := { t with counters := c, state := some c.encode }

def elapse (t : Tally) (ms : Nat) : Tally := { t with uptime := t.uptime + ms }

@[simp]
theorem elapse_zero (t : Tally) : t.elapse 0 = t := by
  simp [elapse]

/-- The counters in memory are those a start would read. -/
structure Loaded (t : Tally) : Prop where
  read : LockCounters.parse t.state = t.counters
  moved : t.misses = none

theorem Loaded.keep {t : Tally} (loaded : t.Loaded) (c : LockCounters) : (t.keep c).Loaded :=
  ⟨LockCounters.parse_encode c, loaded.moved⟩

theorem Loaded.elapse {t : Tally} (loaded : t.Loaded) (ms : Nat) : (t.elapse ms).Loaded :=
  ⟨loaded.read, loaded.moved⟩

end Tally

section

variable {Pin Hash Table : Type}

namespace Phone

variable (e : PinEngine Pin Hash Table) (p : Phone Hash Table)

def act : Act Pin → Answer × Phone Hash Table
  | .wait ms => (.nothing, p.elapse ms)
  | .setDate date => (.nothing, { p with date := date })
  | .leave => (.nothing, { p with lock := { p.lock with locked := p.lock.enabled } })
  | .containersOpen ready => (.nothing, { p with decoyReady := ready })
  | .fingers on fingers fingerSeal =>
    (.nothing, { p with
      fingerSeal := fingerSeal
      lock := { p.lock with
        biometric := on, bioSupported := fingers.supported, bioStale := fingers.stale } })
  | .restart fingers => (.nothing, p.load fingers)
  | .reboot uptime date fingers =>
    (.nothing, { p with boot := p.boot + 1, uptime := uptime, date := date }.load fingers)
  | .verify pin session took =>
    (.pin (p.verifyPin e pin session took).1, (p.verifyPin e pin session took).2)
  | .confirm pin changesVault took =>
    (.pin (p.confirmPin e pin changesVault took).1, (p.confirmPin e pin changesVault took).2)
  | .setPin pin took => (.set (p.setupPin e pin took).1, (p.setupPin e pin took).2)
  | .setDecoyPin pin sealsAgain took =>
    (.set (p.setupDecoyPin e pin sealsAgain took).1, (p.setupDecoyPin e pin sealsAgain took).2)
  | .setVaultPin pin key of took =>
    (.set (p.setupVaultPin e pin key of took).1, (p.setupVaultPin e pin key of took).2)
  | .rewrapPin oldPin newPin took =>
    (.set (p.rewrapVaultPin e oldPin newPin took).1, (p.rewrapVaultPin e oldPin newPin took).2)
  | .setPanicPin pin took =>
    (.set (p.setupPanicPin e pin took).1, (p.setupPanicPin e pin took).2)
  | .finger reply session =>
    (.finger (p.tryBiometric reply session).1, (p.tryBiometric reply session).2)

def after (a : Act Pin) : Phone Hash Table := (p.act e a).2

def tally : Tally := ⟨p.lock.counters, p.state, p.misses, p.uptime, p.boot⟩

def vaultPinAsked (key : Text) (of : Option HaloContainer) : Bool :=
  key.length = 64 && key.all (fun c => c.isDigit || c ∈ "abcdefABCDEF".toList) &&
    p.lock.enabled && (of = none || of = some .vault || of = some .decoyVault)

def tries : Act Pin → Bool
  | .setPin _ _ => p.asksTry
  | .setDecoyPin _ _ _ => p.asksTry
  | .setVaultPin _ key of _ => p.vaultPinAsked key of && p.asksTry
  | .rewrapPin _ _ _ => p.lock.table.isSome
  | .setPanicPin _ _ => p.asksTry
  | _ => false

def looks : Act Pin → Bool
  | .verify _ _ _ => true
  | .confirm _ _ _ => true
  | a => p.tries a

/-- A miss: a pin that is not taken, or any pin set while the pad is free. -/
def Missed (a : Act Pin) : Prop :=
  match a with
  | .verify pin _ _ => (p.verdict e pin).1 = .invalid
  | .confirm pin changesVault took => (p.confirmPin e pin changesVault took).1 = .invalid
  | a => p.tries a = true ∧ ¬p.Held

instance (a : Act Pin) : Decidable (p.Missed e a) :=
  match a with
  | .verify pin _ _ => inferInstanceAs (Decidable ((p.verdict e pin).1 = .invalid))
  | .confirm pin changesVault took =>
    inferInstanceAs (Decidable ((p.confirmPin e pin changesVault took).1 = .invalid))
  | .wait _ | .setDate _ | .leave | .containersOpen _ | .fingers _ _ _ | .restart _
  | .reboot _ _ _ | .setPin _ _ | .setDecoyPin _ _ _ | .setVaultPin _ _ _ _ | .rewrapPin _ _ _
  | .setPanicPin _ _ | .finger _ _ => inferInstanceAs (Decidable (_ ∧ _))

def Unlocks (a : Act Pin) : Prop :=
  match a with
  | .verify pin _ _ => (p.verdict e pin).1 = .normal ∨ (p.verdict e pin).1 = .vault
  | .finger reply session =>
    reply = .ok (some .everyday) ∧ (p.tryBiometric reply session).1 = true
  | _ => False

instance (a : Act Pin) : Decidable (p.Unlocks e a) :=
  match a with
  | .verify pin _ _ =>
    inferInstanceAs (Decidable ((p.verdict e pin).1 = .normal ∨ (p.verdict e pin).1 = .vault))
  | .finger _ _ => inferInstanceAs (Decidable (_ ∧ _))
  | .wait _ | .setDate _ | .leave | .containersOpen _ | .fingers _ _ _ | .restart _
  | .reboot _ _ _ | .confirm _ _ _ | .setPin _ _ | .setDecoyPin _ _ _ | .setVaultPin _ _ _ _
  | .rewrapPin _ _ _ | .setPanicPin _ _ => .isFalse id

/-! ## What leaves the counters alone -/

@[simp]
theorem tally_keep (c : LockCounters) : (p.keep c).tally = p.tally.keep c := rfl

@[simp]
theorem tally_elapse (ms : Nat) : (p.elapse ms).tally = p.tally.elapse ms := rfl

@[simp]
theorem tally_refreshHoldForScreen : p.refreshHoldForScreen.tally = p.tally := rfl

@[simp]
theorem tally_inSession (session : Session) : (p.inSession session).tally = p.tally := rfl

@[simp]
theorem tally_unlocked : p.unlocked.tally = p.tally := rfl

@[simp]
theorem tally_withTable (table : Table) : (p.withTable table).tally = p.tally := rfl

@[simp]
theorem tally_fingerOff : p.fingerOff.tally = p.tally := rfl

@[simp]
theorem tally_fingerStale : p.fingerStale.tally = p.tally := rfl

variable (pin : Pin)

@[simp]
theorem tally_migrateApp : (p.migrateApp e pin).tally = p.tally := by
  unfold migrateApp
  split <;> rfl

@[simp]
theorem tally_showOpened (result : PinResult) : (p.showOpened e pin result).tally = p.tally := by
  unfold showOpened
  split <;> simp

@[simp]
theorem tally_write (entry : Entry) : (p.write e pin entry).2.tally = p.tally := by
  unfold write
  split
  · rfl
  · split <;> rfl

@[simp]
theorem tally_parkFingerForDecoy : p.parkFingerForDecoy.tally = p.tally := by
  unfold parkFingerForDecoy
  split <;> rfl

@[simp]
theorem tally_unparkFinger (sealsAgain : Bool) : (p.unparkFinger sealsAgain).tally = p.tally := by
  unfold unparkFinger
  split
  · rfl
  · split <;> rfl

@[simp]
theorem tally_innerDecoySet : p.innerDecoySet.tally = p.tally := by
  unfold innerDecoySet
  split <;> rfl

@[simp]
theorem asksTry_parkFingerForDecoy : p.parkFingerForDecoy.asksTry = p.asksTry := by
  unfold parkFingerForDecoy
  split <;> rfl

theorem tally_load {p : Phone Hash Table} (loaded : p.tally.Loaded) (fingers : Fingers) :
    (p.load fingers).tally = p.tally := by
  have moved : p.misses = none := loaded.moved
  have read : LockCounters.parse p.state = p.lock.counters := loaded.read
  have finger : ∀ q : Phone Hash Table, (q.loadFinger fingers).tally = q.tally := by
    intro q
    unfold loadFinger
    dsimp only
    split
    · rfl
    · split <;> rfl
  rw [load, tally_refreshHoldForScreen, finger, loadCounters]
  simp only [moved, tally, read]

/-! ## Tries -/

def tried : LockCounters := if p.Held then p.base else p.base.miss p.uptime p.boot

@[simp]
theorem tally_setTry (took : Nat) :
    (p.setTry took).2.tally = (p.tally.keep p.tried).elapse took := rfl

theorem tally_setup (entry : Entry) (took : Nat) :
    (p.setup e pin entry took).2.tally =
      if p.asksTry then (p.tally.keep p.tried).elapse took else p.tally.elapse took := by
  unfold setup
  split
  · split <;> simp
  · simp

theorem tally_setupPin (took : Nat) :
    (p.setupPin e pin took).2.tally =
      if p.asksTry then (p.tally.keep p.tried).elapse took else p.tally.elapse took := by
  unfold setupPin
  split
  next => exact p.tally_setup e _ _ _
  next inside =>
    have asked : p.asksTry = true := by
      simp [asksTry, inside]
    split
    · rw [tally_write]
      split <;> exact p.tally_setTry took
    · exact p.tally_setTry took

theorem tally_setupDecoyPin (sealsAgain : Bool) (took : Nat) :
    (p.setupDecoyPin e pin sealsAgain took).2.tally =
      if p.asksTry then (p.tally.keep p.tried).elapse took else p.tally.elapse took := by
  unfold setupDecoyPin
  split
  · dsimp only
    split
    · rw [tally_innerDecoySet]
      exact p.tally_setup e _ _ _
    · exact p.tally_setup e _ _ _
  · have parked := p.parkFingerForDecoy.tally_setup e pin ⟨.decoy, .decoy, .decoy, []⟩ took
    rw [tally_parkFingerForDecoy, asksTry_parkFingerForDecoy] at parked
    have same : p.parkFingerForDecoy.tried = p.tried := by
      unfold parkFingerForDecoy
      split <;> rfl
    rw [same] at parked
    dsimp only
    split
    · exact parked
    · rw [tally_unparkFinger]
      exact parked

theorem tally_setupPanicPin (took : Nat) :
    (p.setupPanicPin e pin took).2.tally =
      if p.asksTry then (p.tally.keep p.tried).elapse took else p.tally.elapse took := by
  unfold setupPanicPin
  split <;>
  · dsimp only
    split <;> exact p.tally_setup e _ _ _

theorem vaultPinAsked_iff {key : Text} {of : Option HaloContainer} :
    p.vaultPinAsked key of = true ↔
      ¬(key.length ≠ 64 ∨ key.any (fun c => !(c.isDigit || c ∈ "abcdefABCDEF".toList)) = true) ∧
        p.lock.enabled ≠ false ∧ (of = none ∨ of = some .vault ∨ of = some .decoyVault) := by
  simp only [vaultPinAsked, Bool.and_eq_true, decide_eq_true_eq, List.all_eq_true, Bool.or_eq_true,
    List.any_eq_true, Bool.not_eq_true', not_or, not_exists, not_and, Bool.not_eq_false, not_not]
  constructor
  · rintro ⟨⟨⟨long, hex⟩, on⟩, named⟩
    refine ⟨⟨long, fun c inside => ?_⟩, on, or_assoc.mp named⟩
    simpa using hex c inside
  · rintro ⟨⟨long, hex⟩, on, named⟩
    refine ⟨⟨⟨long, fun c inside => ?_⟩, on⟩, or_assoc.mpr named⟩
    simpa using hex c inside

/-- A set of a vault's pin that is not asked for at all throws and changes nothing. -/
theorem setupVaultPin_of_not_asked {key : Text} {of : Option HaloContainer}
    (notAsked : p.vaultPinAsked key of = false) (pin : Pin) (took : Nat) :
    p.setupVaultPin e pin key of took = (none, p) := by
  unfold setupVaultPin
  split
  next => rfl
  next proper =>
    split
    next => rfl
    next on =>
      have unnamed : ¬(of = none ∨ of = some .vault ∨ of = some .decoyVault) := by
        intro named
        have asked := p.vaultPinAsked_iff.mpr ⟨proper, on, named⟩
        rw [asked] at notAsked
        exact Bool.noConfusion notAsked
      rcases of with _ | _ | _ | _ | _ <;> first | rfl | exact (unnamed (by simp)).elim

theorem setupVaultPin_of_asked {key : Text} {of : Option HaloContainer}
    (asked : p.vaultPinAsked key of = true) :
    ∃ entry : Entry, ∀ (pin : Pin) (took : Nat), p.setupVaultPin e pin key of took =
      (some (p.setup e pin entry took).1, (p.setup e pin entry took).2) := by
  obtain ⟨proper, on, named⟩ := p.vaultPinAsked_iff.mp asked
  rcases named with rfl | rfl | rfl
  · refine ⟨⟨p.vaultSlot, .vault, p.vaultContainer, key⟩, fun pin took => ?_⟩
    rw [setupVaultPin, if_neg proper, if_neg on]
  · refine ⟨⟨.vault, .vault, .vault, key⟩, fun pin took => ?_⟩
    rw [setupVaultPin, if_neg proper, if_neg on]
  · refine ⟨⟨.decoyVault, .vault, .decoyVault, key⟩, fun pin took => ?_⟩
    rw [setupVaultPin, if_neg proper, if_neg on]

theorem tally_rewrapVaultPin {table : Table} (there : p.lock.table = some table)
    (oldPin newPin : Pin) (took : Nat) :
    (p.rewrapVaultPin e oldPin newPin took).2.tally = (p.tally.keep p.tried).elapse took := by
  unfold rewrapVaultPin
  simp only [there]
  split
  · split <;> exact p.tally_setTry took
  · exact p.tally_setTry took

theorem rewrapVaultPin_of_none (none : p.lock.table = none) (oldPin newPin : Pin) (took : Nat) :
    p.rewrapVaultPin e oldPin newPin took = (Option.none, p) := by
  unfold rewrapVaultPin
  simp only [none]

/-! ## Checks -/

theorem tally_verifyPin (session : Session) (took : Nat) :
    (p.verifyPin e pin session took).2.tally
      = (p.tally.keep (p.verdict e pin).2).elapse took := by
  unfold verifyPin
  dsimp only
  split <;> simp

theorem tally_confirmPin (changesVault : Bool) (took : Nat) :
    (p.confirmPin e pin changesVault took).2.tally =
      if (p.confirmPin e pin changesVault took).1 = .invalid then
        (p.tally.keep (p.base.miss p.uptime p.boot)).elapse took
      else p.tally.elapse took := by
  unfold confirmPin
  split
  · rfl
  split
  · rfl
  split
  · split
    · simp
    · rfl
  · rfl

theorem not_held_of_confirmPin {pin : Pin} {changesVault : Bool} {took : Nat}
    (missed : (p.confirmPin e pin changesVault took).1 = .invalid) : ¬p.Held := by
  intro held
  unfold confirmPin at missed
  split at missed <;> exact PinResult.noConfusion missed

def FingerOpened : Act Pin → Prop
  | .finger reply session => (p.tryBiometric reply session).1 = true
  | _ => False

/-- What one act makes of the counters, at a time `ms` after it began. -/
inductive Effect (a : Act Pin) : Tally → Prop
  | same (ms : Nat) (noMiss : ¬p.Missed e a) (noUnlock : ¬p.Unlocks e a) :
      Effect a (p.tally.elapse ms)
  | rebooted (uptime : Nat) (noMiss : ¬p.Missed e a) (noUnlock : ¬p.Unlocks e a) :
      Effect a { p.tally with boot := p.boot + 1, uptime := uptime }
  | rewritten (noMiss : ¬p.Missed e a) (noUnlock : ¬p.Unlocks e a) :
      Effect a (p.tally.keep p.lock.counters)
  | saw (ms : Nat) (looks : p.looks a = true) (noMiss : ¬p.Missed e a)
      (noUnlock : ¬p.Unlocks e a) :
      Effect a ((p.tally.keep p.base).elapse ms)
  | missed (ms : Nat) (free : ¬p.Held) (miss : p.Missed e a) (noUnlock : ¬p.Unlocks e a) :
      Effect a ((p.tally.keep (p.base.miss p.uptime p.boot)).elapse ms)
  | opened (ms : Nat) (free : ¬p.Held ∨ p.FingerOpened a) (noMiss : ¬p.Missed e a)
      (unlock : p.Unlocks e a) : Effect a ((p.tally.keep {}).elapse ms)
  | decoy (ms : Nat) (free : ¬p.Held ∨ p.FingerOpened a) (noMiss : ¬p.Missed e a)
      (noUnlock : ¬p.Unlocks e a) :
      Effect a ((p.tally.keep { budget := p.lock.counters.budget, quiet := true }).elapse ms)

theorem looks_of_tries {a : Act Pin} (tries : p.tries a = true) : p.looks a = true := by
  cases a <;> first | rfl | exact tries

theorem effect_tried {a : Act Pin} (tries : p.tries a = true)
    (isTry : p.Missed e a ↔ p.tries a = true ∧ ¬p.Held) (noUnlock : ¬p.Unlocks e a) (took : Nat) :
    p.Effect e a ((p.tally.keep p.tried).elapse took) := by
  unfold tried
  split
  next held =>
    exact .saw took (p.looks_of_tries tries) (fun missed => (isTry.mp missed).2 held) noUnlock
  next free => exact .missed took free (isTry.mpr ⟨tries, free⟩) noUnlock

theorem effect_asked {a : Act Pin} (tries : p.tries a = p.asksTry)
    (isTry : p.Missed e a ↔ p.tries a = true ∧ ¬p.Held) (noUnlock : ¬p.Unlocks e a) (took : Nat) :
    p.Effect e a
      (if p.asksTry then (p.tally.keep p.tried).elapse took else p.tally.elapse took) := by
  split
  next asked => exact p.effect_tried e (tries.trans asked) isTry noUnlock took
  next notAsked =>
    refine .same took (fun missed => notAsked ?_) noUnlock
    exact tries.symm.trans (isTry.mp missed).1

theorem effect_verify (session : Session) (took : Nat) :
    p.Effect e (.verify pin session took) ((p.tally.keep (p.verdict e pin).2).elapse took) := by
  have missed : p.Missed e (.verify pin session took) ↔ (p.verdict e pin).1 = .invalid := .rfl
  have unlocks : p.Unlocks e (.verify pin session took) ↔
      (p.verdict e pin).1 = .normal ∨ (p.verdict e pin).1 = .vault := .rfl
  have looks : p.looks (.verify pin session took) = true := rfl
  unfold verdict at missed unlocks ⊢
  split_ifs at missed unlocks ⊢ with wipe held everyday vault decoy
  · exact .saw took looks (by simp [missed]) (by simp [unlocks])
  · exact .saw took looks (by simp [missed]) (by simp [unlocks])
  · exact .opened took (.inl held) (by simp [missed]) (by simp [unlocks])
  · exact .opened took (.inl held) (by simp [missed]) (by simp [unlocks])
  · have same : p.base.budget = p.lock.counters.budget := LockCounters.budget_rebased _ _ _
    rw [same]
    exact .decoy took (.inl held) (by simp [missed]) (by simp [unlocks])
  · exact .missed took held (by simp [missed]) (by simp [unlocks])

/-- What a finger can do to the counters. -/
inductive Touched (reply : BioReply) : Bool → Tally → Prop
  | nothing : Touched reply false p.tally
  | takenBack : Touched reply false (p.tally.keep p.lock.counters)
  | everyday (is : reply = .ok (some .everyday)) : Touched reply true (p.tally.keep {})
  | decoy (is : reply = .ok (some .decoy)) :
      Touched reply true (p.tally.keep { budget := p.lock.counters.budget, quiet := true })

theorem fingerOpens_cases : p.fingerOpens = .decoy ∨ p.fingerOpens = .everyday := by
  unfold fingerOpens
  split
  · exact .inl rfl
  · exact .inr rfl

theorem touched_openByFinger (opens : Option HaloContainer) (session : Session) :
    p.Touched (.ok opens) (p.openByFinger opens session).1
      (p.openByFinger opens session).2.tally := by
  unfold openByFinger
  split
  next => exact .nothing
  next may =>
    have named : opens = some p.fingerOpens := not_not.mp may
    split
    next decoy =>
      split
      · exact .nothing
      · dsimp only
        split
        · exact .decoy (by rw [decoy])
        · exact .takenBack
    next notDecoy =>
      refine .everyday ?_
      rcases p.fingerOpens_cases with decoy | everyday
      · exact (notDecoy (named.trans (congrArg some decoy))).elim
      · rw [named, everyday]

theorem touched_tryBiometric (reply : BioReply) (session : Session) :
    p.Touched reply (p.tryBiometric reply session).1 (p.tryBiometric reply session).2.tally := by
  unfold tryBiometric
  split_ifs
  any_goals exact .nothing
  cases reply with
  | ok opens =>
    have touched := p.touched_openByFinger opens session
    dsimp only
    split
    next opened =>
      rw [opened] at touched
      exact touched
    next shut =>
      rw [Bool.not_eq_true] at shut
      rw [shut] at touched
      exact touched
  | _ => exact .nothing

theorem effect_finger (reply : BioReply) (session : Session) :
    p.Effect e (.finger reply session) (p.tryBiometric reply session).2.tally := by
  have noMiss : ¬p.Missed e (.finger reply session) := fun missed => Bool.noConfusion missed.1
  have noUnlock : (p.tryBiometric reply session).1 = false →
      ¬p.Unlocks e (.finger reply session) := by
    intro shut unlocks
    have opened : (p.tryBiometric reply session).1 = true := unlocks.2
    rw [shut] at opened
    exact Bool.noConfusion opened
  have touched := p.touched_tryBiometric reply session
  generalize answered : (p.tryBiometric reply session).1 = answer at touched noUnlock
  generalize (p.tryBiometric reply session).2.tally = t at touched
  cases touched with
  | nothing => simpa using Effect.same 0 noMiss (noUnlock rfl)
  | takenBack => exact .rewritten noMiss (noUnlock rfl)
  | everyday is =>
    subst is
    have opened : p.FingerOpened (.finger (.ok (some .everyday)) session : Act Pin) := answered
    simpa using Effect.opened 0 (.inr opened) noMiss ⟨rfl, answered⟩
  | decoy is =>
    subst is
    have notEveryday : ¬p.Unlocks e (.finger (.ok (some .decoy)) session) := by
      rintro ⟨is, -⟩
      cases is
    have opened : p.FingerOpened (.finger (.ok (some .decoy)) session : Act Pin) := answered
    simpa using Effect.decoy 0 (.inr opened) noMiss notEveryday

theorem effect_act {p : Phone Hash Table} (loaded : p.tally.Loaded) (a : Act Pin) :
    p.Effect e a (p.after e a).tally := by
  have idle : ∀ a : Act Pin, ¬p.Missed e a → ¬p.Unlocks e a → p.Effect e a p.tally := by
    intro a noMiss noUnlock
    simpa using Effect.same 0 noMiss noUnlock
  cases a with
  | wait ms => exact .same ms (fun missed => Bool.noConfusion missed.1) id
  | setDate date | leave | containersOpen ready | fingers on fingers fingerSeal =>
    exact idle _ (fun missed => Bool.noConfusion missed.1) id
  | restart fingers =>
    have read : (p.after e (.restart fingers)).tally = p.tally := tally_load loaded fingers
    rw [read]
    exact idle _ (fun missed => Bool.noConfusion missed.1) id
  | reboot uptime date fingers =>
    let later : Phone Hash Table := { p with boot := p.boot + 1, uptime := uptime, date := date }
    have laterLoaded : later.tally.Loaded := ⟨loaded.read, loaded.moved⟩
    have read : (p.after e (.reboot uptime date fingers)).tally = later.tally :=
      tally_load laterLoaded fingers
    rw [read]
    exact .rebooted uptime (fun missed => Bool.noConfusion missed.1) id
  | verify pin session took =>
    have kept := p.tally_verifyPin e pin session took
    rw [after, act, kept]
    exact p.effect_verify e pin session took
  | confirm pin changesVault took =>
    have kept := p.tally_confirmPin e pin changesVault took
    rw [after, act, kept]
    split
    next missed => exact .missed took (p.not_held_of_confirmPin e missed) missed id
    next taken => exact .same took taken id
  | setPin pin took =>
    rw [after, act, p.tally_setupPin e pin took]
    exact p.effect_asked e rfl .rfl id took
  | setDecoyPin pin sealsAgain took =>
    rw [after, act, p.tally_setupDecoyPin e pin sealsAgain took]
    exact p.effect_asked e rfl .rfl id took
  | setVaultPin pin key of took =>
    cases asked : p.vaultPinAsked key of with
    | false =>
      rw [after, act, p.setupVaultPin_of_not_asked e asked]
      refine idle _ (fun missed => ?_) id
      have tries : (p.vaultPinAsked key of && p.asksTry) = true := missed.1
      rw [asked] at tries
      exact Bool.noConfusion tries
    | true =>
      obtain ⟨entry, same⟩ := p.setupVaultPin_of_asked e asked
      rw [after, act, same, p.tally_setup e pin entry took]
      refine p.effect_asked e ?_ .rfl id took
      simp [tries, asked]
  | rewrapPin oldPin newPin took =>
    cases there : p.lock.table with
    | none =>
      rw [after, act, p.rewrapVaultPin_of_none e there]
      refine idle _ (fun missed => ?_) id
      have tries : p.lock.table.isSome = true := missed.1
      rw [there] at tries
      exact Bool.noConfusion tries
    | some table =>
      rw [after, act, p.tally_rewrapVaultPin e there]
      refine p.effect_tried e ?_ .rfl id took
      simp [tries, there]
  | setPanicPin pin took =>
    rw [after, act, p.tally_setupPanicPin e pin took]
    exact p.effect_asked e rfl .rfl id took
  | finger reply session => exact p.effect_finger e reply session

theorem loaded_act {p : Phone Hash Table} (loaded : p.tally.Loaded) (a : Act Pin) :
    (p.after e a).tally.Loaded := by
  have effect := effect_act e loaded a
  generalize (p.after e a).tally = t at effect ⊢
  cases effect with
  | same ms => exact loaded.elapse ms
  | rebooted uptime => exact ⟨loaded.read, loaded.moved⟩
  | rewritten => exact loaded.keep _
  | saw ms | missed ms | opened ms | decoy ms => exact (loaded.keep _).elapse ms

end Phone

end

end Kryfo.Lock
