import Kryfo.Lock.Counters

/-!
# The pad

A typed pin is checked against the table and the old hashes; a finger opens what its seal names.
The hold is measured on the uptime clock; the screen counts it down on the phone's date.
-/

namespace Kryfo.Lock

open Library

inductive PinResult where
  | normal
  | panic
  | decoy
  | vault
  | invalid
  | throttled
deriving DecidableEq

inductive PinSlot where
  | app
  | wipe
  | decoy
  | vault
  | decoyWipe
  | decoyDecoy
  | decoyVault
deriving DecidableEq

inductive PinKind where
  | everyday
  | wipe
  | decoy
  | vault
deriving DecidableEq

inductive HaloContainer where
  | everyday
  | decoy
  | vault
  | decoyVault
deriving DecidableEq

/-- What a pin opens in the table. -/
structure Entry where
  slot : PinSlot
  kind : PinKind
  container : HaloContainer
  key : Text
deriving DecidableEq

/-- The hashes of the old app pin and the old wipe pin, while they are kept. -/
structure Legacy (Hash : Type) where
  app : Option Hash
  wipe : Option Hash

structure PinEngine (Pin Hash Table : Type) where
  calibrate : Int
  newTable : Int → Table
  find : Table → Pin → Option Entry
  put : Table → Pin → Entry → Table
  clear : Table → PinSlot → Table
  matchesHash : Hash → Pin → Bool
  find_newTable : ∀ (cost : Int) (pin : Pin), find (newTable cost) pin = none

structure Checked where
  entry : Option Entry
  la : Bool
  lw : Bool

namespace Checked

variable (r : Checked)

def kind : Option PinKind := r.entry.map Entry.kind

def isEveryday : Bool := r.kind = some .everyday || r.la

def isWipe : Bool := r.kind = some .wipe || r.lw

def isDecoysVault : Bool :=
  r.kind = some .vault && r.entry.map Entry.container = some .decoyVault

def isVault : Bool := r.kind = some .vault && !r.isDecoysVault

def isDecoy : Bool := r.kind = some .decoy || r.isDecoysVault

end Checked

/-- Why the engine did not write a pin. -/
inductive Refusal where
  | collision
  | failed

section

variable {Pin Hash Table : Type}

namespace PinEngine

variable (e : PinEngine Pin Hash Table)

def check (pin : Pin) (table : Table) (legacy : Legacy Hash) : Checked where
  entry := e.find table pin
  la := legacy.app.any (e.matchesHash · pin)
  lw := legacy.wipe.any (e.matchesHash · pin)

def clashes (pin : Pin) (table : Table) (legacy : Legacy Hash) (slot : PinSlot) : Bool :=
  (e.find table pin).any (fun entry => entry.slot ≠ slot) ||
    legacy.app.any (e.matchesHash · pin) || legacy.wipe.any (e.matchesHash · pin)

def setup (pin : Pin) (table : Table) (legacy : Legacy Hash) (entry : Entry) :
    Except Refusal Table :=
  if e.clashes pin table legacy entry.slot then .error .collision
  else .ok (e.put table pin entry)

def rewrap (oldPin newPin : Pin) (table : Table) (legacy : Legacy Hash) (slot : PinSlot) :
    Except Refusal Table :=
  match e.find table oldPin with
  | none => .error .failed
  | some entry =>
    if entry.slot ≠ slot ∨ entry.key = [] then .error .failed
    else if e.clashes newPin table legacy slot then .error .collision
    else .ok (e.put table newPin entry)

end PinEngine

structure LockState (Hash Table : Type) where
  counters : LockCounters := {}
  holdEndsForScreen : Int := 0
  enabled : Bool := false
  locked : Bool := true
  biometric : Bool := false
  bioSupported : Bool := false
  bioStale : Bool := false
  inDecoy : Bool := false
  inVault : Bool := false
  decoyListed : Bool := false
  dWipeHidden : Bool := false
  dDecoy : Bool := false
  fingerParked : Bool := false
  table : Option Table := none
  legacy : Legacy Hash := ⟨none, none⟩

/-- The clocks, the stored values and the lock of one phone. -/
structure Phone (Hash Table : Type) where
  uptime : Int
  boot : Int
  date : Int
  decoyReady : Bool
  state : Option Text
  misses : Option Int
  holdUntil : Option Int
  fingerSeal : Option HaloContainer
  lock : LockState Hash Table

/-- The session as the app leaves it after an unlock, and whether a vault came open. -/
structure Session where
  inDecoy : Bool
  inVault : Bool
  vaultOpens : Bool

/-- What the phone says of its fingers when it is asked. -/
structure Fingers where
  supported : Bool
  stale : Bool

inductive BioReply where
  | ok (opens : Option HaloContainer)
  | invalidated
  | refused
  | lockout
  | other
deriving DecidableEq

namespace Phone

variable (e : PinEngine Pin Hash Table) (p : Phone Hash Table)

/-! ## Clocks and small writes -/

def throttleLeft : Int := max 0 (p.lock.holdEndsForScreen - p.date)

def elapse (ms : Nat) : Phone Hash Table :=
  { p with uptime := p.uptime + ms, date := p.date + ms }

def refreshHoldForScreen : Phone Hash Table :=
  { p with lock := { p.lock with
      holdEndsForScreen := p.date + p.lock.counters.holdLeft p.uptime p.boot } }

def keep (c : LockCounters) : Phone Hash Table :=
  { p with state := some c.encode, lock := { p.lock with counters := c } }

def inSession (session : Session) : Phone Hash Table :=
  { p with lock := { p.lock with inDecoy := session.inDecoy, inVault := session.inVault } }

def unlocked : Phone Hash Table := { p with lock := { p.lock with locked := false } }

def withTable (table : Table) : Phone Hash Table :=
  { p with lock := { p.lock with table := some table } }

def withoutLegacyApp : Phone Hash Table :=
  { p with lock := { p.lock with legacy := { p.lock.legacy with app := none } } }

def withoutLegacyWipe : Phone Hash Table :=
  { p with lock := { p.lock with legacy := { p.lock.legacy with wipe := none } } }

def fingerOff : Phone Hash Table :=
  { p with
    fingerSeal := none
    lock := { p.lock with biometric := false, bioStale := false } }

def fingerStale : Phone Hash Table := { p with lock := { p.lock with bioStale := true } }

def decoySet : Bool := p.lock.decoyListed || p.lock.inDecoy

def fingerOpens : HaloContainer := if p.decoySet then .decoy else .everyday

def ensureTable : Table := p.lock.table.getD (e.newTable e.calibrate)

def base : LockCounters := p.lock.counters.rebased p.uptime p.boot

/-- The pad is held, by the counters and the uptime clock. -/
def Held : Prop := 0 < p.base.holdLeft p.uptime p.boot

instance : Decidable p.Held := inferInstanceAs (Decidable (_ < _))

variable (pin : Pin)

def checked : Checked :=
  e.check pin (p.lock.table.getD (e.newTable 14)) p.lock.legacy

/-! ## The lock screen -/

def verdict : PinResult × LockCounters :=
  if (p.checked e pin).isWipe then (.panic, p.base)
  else if p.Held then (.throttled, p.base)
  else if (p.checked e pin).isEveryday then (.normal, {})
  else if (p.checked e pin).isVault then (.vault, {})
  else if (p.checked e pin).isDecoy && p.decoyReady then
    (.decoy, { budget := p.base.budget, quiet := true })
  else (.invalid, p.base.miss p.uptime p.boot)

/-- A vault that will not open gives its primary's session instead. -/
def openedAs (result : PinResult) (session : Session) : PinResult :=
  if result = .vault && !session.vaultOpens then .normal else result

def migrateApp : Phone Hash Table :=
  match e.setup pin (p.ensureTable e) { p.lock.legacy with app := none }
      ⟨.app, .everyday, .everyday, []⟩ with
  | .ok table => (p.withTable table).withoutLegacyApp
  | .error _ => p

/-- The lock lifts, and a pin of the old kind moves into the table. -/
def showOpened (result : PinResult) : Phone Hash Table :=
  if result = .normal ∧ (p.checked e pin).kind ≠ some .everyday ∧ (p.checked e pin).la = true then
    p.unlocked.migrateApp e pin
  else p.unlocked

def verifyPin (session : Session) (took : Nat) : PinResult × Phone Hash Table :=
  let result := openedAs (p.verdict e pin).1 session
  let kept := p.keep (p.verdict e pin).2
  match result with
  | .panic => (.panic, kept.elapse took)
  | .invalid => (.invalid, (kept.elapse took).refreshHoldForScreen)
  | .throttled => (.throttled, (kept.elapse took).refreshHoldForScreen)
  | .normal => (.normal, ((kept.inSession session).elapse took).showOpened e pin .normal)
  | .decoy => (.decoy, ((kept.inSession session).elapse took).showOpened e pin .decoy)
  | .vault => (.vault, ((kept.inSession session).elapse took).showOpened e pin .vault)

/-! ## Inside a session -/

def vaultContainer : HaloContainer := if p.lock.inDecoy then .decoyVault else .vault

def vaultSlot : PinSlot := if p.lock.inDecoy then .decoyVault else .vault

def confirms (changesVault : Bool) : Bool :=
  let r := p.checked e pin
  let primary := if p.lock.inDecoy then decide (r.kind = some .decoy) else r.isEveryday
  let ownVault := decide (r.kind = some .vault) &&
    decide (r.entry.map Entry.container = some p.vaultContainer) &&
    decide (r.entry.any (fun entry => entry.key ≠ []))
  if p.lock.inVault then ownVault || (primary && !changesVault) else primary

def confirmPin (changesVault : Bool) (took : Nat) : PinResult × Phone Hash Table :=
  if (p.checked e pin).isWipe then (.panic, p.elapse took)
  else if p.Held then (.throttled, p.elapse took)
  else if p.confirms e pin changesVault then
    if p.lock.inDecoy = false ∧ (p.checked e pin).kind ≠ some .everyday ∧
        (p.checked e pin).la = true then
      (.normal, (p.elapse took).migrateApp e pin)
    else (.normal, p.elapse took)
  else (.invalid, ((p.keep (p.base.miss p.uptime p.boot)).elapse took).refreshHoldForScreen)

/-- Each set of a pin is a try at the lock, refused while the pad is held. -/
def setTry (took : Nat) : Bool × Phone Hash Table :=
  let counters := if p.Held then p.base else p.base.miss p.uptime p.boot
  (!decide p.Held, ((p.keep counters).elapse took).refreshHoldForScreen)

/-- The old hashes a set is checked against: not the one it replaces. -/
def legacyBeside (slot : PinSlot) : Legacy Hash where
  app := if slot = .app then none else p.lock.legacy.app
  wipe := if slot = .wipe then none else p.lock.legacy.wipe

def write (entry : Entry) : Bool × Phone Hash Table :=
  match e.setup pin (p.ensureTable e) (p.legacyBeside entry.slot) entry with
  | .error _ => (p.lock.inDecoy, p.withTable (p.ensureTable e))
  | .ok table =>
    if entry.slot = .app then
      (true, { (p.withTable table).withoutLegacyApp.unlocked with
        lock := { (p.withTable table).withoutLegacyApp.unlocked.lock with enabled := true } })
    else (true, p.withTable table)

/-- A set counts as a try where there is a pin it could find. -/
def asksTry : Bool := p.lock.inDecoy || p.lock.table.isSome

def setup (entry : Entry) (took : Nat) : Bool × Phone Hash Table :=
  if p.asksTry then
    if (p.setTry took).1 then (p.setTry took).2.write e pin entry
    else (false, (p.setTry took).2)
  else (p.elapse took).write e pin entry

def dropDecoyWipe : Phone Hash Table :=
  { p with lock := { p.lock with
      table := p.lock.table.map (e.clear · .decoyWipe), dWipeHidden := false } }

def setupPin (took : Nat) : Bool × Phone Hash Table :=
  if p.lock.inDecoy = false then p.setup e pin ⟨.app, .everyday, .everyday, []⟩ took
  else if (p.setTry took).1 then
    let tried := (p.setTry took).2
    let bare := if tried.lock.dWipeHidden then tried.dropDecoyWipe e else tried
    (true, (bare.write e pin ⟨.decoy, .decoy, .decoy, []⟩).2)
  else (false, (p.setTry took).2)

def parkFingerForDecoy : Phone Hash Table :=
  if p.lock.decoyListed || p.lock.inDecoy || !p.lock.biometric then p
  else { p.fingerOff with lock := { p.fingerOff.lock with fingerParked := true } }

/-- A parked finger comes back where the phone seals it again. -/
def unparkFinger (sealsAgain : Bool) : Phone Hash Table :=
  if p.lock.fingerParked = false ∨ p.lock.decoyListed then p
  else if sealsAgain then
    { p with
      fingerSeal := some p.fingerOpens
      lock := { p.lock with fingerParked := false, biometric := true, bioStale := false } }
  else { p with lock := { p.lock with fingerParked := false } }

/-- A decoy pin of the decoy's own takes fingerprint unlock with it. -/
def innerDecoySet : Phone Hash Table :=
  let marked := { p with lock := { p.lock with dDecoy := true } }
  if p.lock.dDecoy then marked else marked.fingerOff

def decoyListedNow : Phone Hash Table :=
  { p with lock := { p.lock with fingerParked := false, decoyListed := true } }

def setupDecoyPin (sealsAgain : Bool) (took : Nat) : Bool × Phone Hash Table :=
  if p.lock.inDecoy then
    let done := p.setup e pin ⟨.decoyDecoy, .decoy, .decoy, []⟩ took
    if done.1 then (true, done.2.innerDecoySet) else (false, done.2)
  else
    let done := p.parkFingerForDecoy.setup e pin ⟨.decoy, .decoy, .decoy, []⟩ took
    if done.1 then (true, done.2.decoyListedNow) else (false, done.2.unparkFinger sealsAgain)

def setupVaultPin (key : Text) (of : Option HaloContainer) (took : Nat) :
    Option Bool × Phone Hash Table :=
  if key.length ≠ 64 ∨ key.any (fun c => !(c.isDigit || c ∈ "abcdefABCDEF".toList)) then (none, p)
  else if p.lock.enabled = false then (none, p)
  else
    match of with
    | none =>
      let done := p.setup e pin ⟨p.vaultSlot, .vault, p.vaultContainer, key⟩ took
      (some done.1, done.2)
    | some .vault =>
      let done := p.setup e pin ⟨.vault, .vault, .vault, key⟩ took
      (some done.1, done.2)
    | some .decoyVault =>
      let done := p.setup e pin ⟨.decoyVault, .vault, .decoyVault, key⟩ took
      (some done.1, done.2)
    | some _ => (none, p)

def rewrapVaultPin (oldPin newPin : Pin) (took : Nat) : Option Bool × Phone Hash Table :=
  match p.lock.table with
  | none => (none, p)
  | some table =>
    if (p.setTry took).1 then
      match e.rewrap oldPin newPin table p.lock.legacy p.vaultSlot with
      | .ok table => (some true, (p.setTry took).2.withTable table)
      | .error .collision => (some p.lock.inDecoy, (p.setTry took).2)
      | .error .failed => (none, (p.setTry took).2)
    else (some false, (p.setTry took).2)

def setupPanicPin (took : Nat) : Bool × Phone Hash Table :=
  if p.lock.inDecoy then
    let done := p.setup e pin ⟨.decoyWipe, .wipe, .everyday, []⟩ took
    if done.1 then (true, { done.2 with lock := { done.2.lock with dWipeHidden := false } })
    else done
  else
    let done := p.setup e pin ⟨.wipe, .wipe, .everyday, []⟩ took
    if done.1 then (true, done.2.withoutLegacyWipe) else done

/-! ## Fingers -/

def openByFinger (opens : Option HaloContainer) (session : Session) : Bool × Phone Hash Table :=
  if opens ≠ some p.fingerOpens then (false, p.fingerOff)
  else if opens = some .decoy then
    if p.decoyReady = false then (false, p)
    else
      let opened :=
        (p.keep { budget := p.lock.counters.budget, quiet := true }).inSession session
      if opened.lock.inDecoy then (true, opened) else (false, opened.keep p.lock.counters)
  else (true, (p.keep {}).inSession session)

def tryBiometric (reply : BioReply) (session : Session) : Bool × Phone Hash Table :=
  if (p.lock.enabled && p.lock.locked) = false then (false, p)
  else if 0 < p.throttleLeft then (false, p)
  else if !p.lock.biometric || !p.lock.bioSupported || p.lock.bioStale then (false, p)
  else if p.fingerSeal = none then (false, p.fingerStale)
  else
    match reply with
    | .invalidated => (false, p.fingerStale)
    | .refused => (false, p.fingerOff)
    | .lockout => (false, p)
    | .other => (false, p)
    | .ok opens =>
      let done := p.openByFinger opens session
      if done.1 then (true, done.2.unlocked) else (false, done.2)

/-! ## Starts -/

/-- The counters a start reads, with misses and hold of the old kind moved into them. -/
def loadCounters : Phone Hash Table :=
  match p.misses with
  | none => { p with lock := { p.lock with counters := LockCounters.parse p.state } }
  | some misses =>
    { (p.keep {
        run := misses
        budget := misses
        holdStart := p.uptime
        holdLen := max 0 (p.holdUntil.getD 0 - p.date)
        holdBoot := p.boot }) with
      misses := none
      holdUntil := none }

def loadFinger (fingers : Fingers) : Phone Hash Table :=
  let sealed := p.fingerSeal.isSome
  let settled :=
    if p.lock.biometric = false then { p with fingerSeal := none }
    else if p.lock.decoyListed ∧ sealed = false then p.fingerOff
    else p
  { settled with lock := { settled.lock with
      bioSupported := fingers.supported
      bioStale := settled.lock.biometric && (fingers.stale || settled.fingerSeal.isNone) } }

def load (fingers : Fingers) : Phone Hash Table :=
  let fresh := { p with lock := { p.lock with
    inDecoy := false
    inVault := false
    dWipeHidden := false
    fingerParked := false
    locked := p.lock.enabled } }
  (fresh.loadCounters.loadFinger fingers).refreshHoldForScreen

end Phone

end

end Kryfo.Lock
