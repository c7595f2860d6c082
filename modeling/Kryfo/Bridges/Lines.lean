import Kryfo.Library.Text

/-!
# Bridge lines

A bridge line from its text to its parts, to the checks each transport asks for and to the form
it is kept in, as in `engine/bridges.go`.  What the rest of the system decides is in `Net`.
-/

namespace Kryfo.Bridges

open Library List

abbrev Text := List Char

structure Net where
  /-- An address literal as it is written out, if it is one. -/
  parseIP : Text → Option Text
  /-- The lower case of a letter outside ASCII. -/
  lower : Char → Char
  /-- The scheme and the host of a URL, if it is one. -/
  parseURL : Text → Option (Text × Text)
  /-- The argument parser of a transport takes these arguments. -/
  parseArgs : Text → List Word → Bool
  ptToken : Text

inductive Transport
  | vanilla
  | obfs4
  | webtunnel
  | snowflake
  deriving DecidableEq

namespace Transport

def name : Transport → Text
  | .vanilla => "vanilla".toList
  | .obfs4 => "obfs4".toList
  | .webtunnel => "webtunnel".toList
  | .snowflake => "snowflake".toList

theorem isWord_name (t : Transport) : IsWord t.name := by
  cases t <;> decide

def word (t : Transport) : Word := ⟨t.name, t.isWord_name⟩

def ofName (text : Text) : Option Transport :=
  [vanilla, obfs4, webtunnel, snowflake].find? fun t => t.name = text

end Transport

inductive LineError
  | unknown
  | long
  | badAddress
  | badPort
  | notIP
  | bracketed
  | badFingerprint
  | badArgument
  | args (transport : Transport)
  | noCert
  | noFingerprint
  | urlNotHttps
  | fingerprintsApart
  | brokerNotHttps
  | noStun
  | repeated
  deriving DecidableEq

def LineError.text : LineError → String
  | .unknown => "not a bridge line kryfo understands"
  | .long => "arguments too long for tor"
  | .badAddress => "bad address"
  | .badPort => "bad port"
  | .notIP => "address is not an ip"
  | .bracketed => "ipv4 address in brackets"
  | .badFingerprint => "bad fingerprint"
  | .badArgument => "bad argument"
  | .args transport => String.ofList transport.name ++ ": arguments not usable"
  | .noCert => "obfs4: no cert"
  | .noFingerprint => "webtunnel: no fingerprint"
  | .urlNotHttps => "webtunnel: url is not https"
  | .fingerprintsApart => "snowflake: fingerprints missing or apart"
  | .brokerNotHttps => "snowflake: broker url is not https"
  | .noStun => "snowflake: no stun server"
  | .repeated => "repeats an earlier line"

variable (text : Text)

/-- As `net.SplitHostPort`: the port follows the last colon, and brackets stand around a host
only. -/
def splitHostPort : Option (Text × Text) :=
  let port := (text.reverse.takeWhile (· ≠ ':')).reverse
  let i := text.length - port.length - 1
  if ':' ∉ text then none
  else if text.head? = some '[' then
    let close := text.idxOf ']'
    if ']' ∉ text ∨ close + 1 ≠ i ∨ '[' ∈ text.drop 1 ∨ ']' ∈ text.drop (close + 1) then none
    else some ((text.take close).drop 1, port)
  else
    let host := text.take i
    if ':' ∈ host ∨ '[' ∈ text ∨ ']' ∈ text then none else some (host, port)

def joinHostPort (host port : Text) : Text :=
  if ':' ∈ host then '[' :: host ++ ']' :: ':' :: port else host ++ ':' :: port

/-- `strconv.Atoi` gives a number from 1 to 65535. -/
def portFine (port : Text) : Bool :=
  match parseInt port with
  | some p => decide (1 ≤ p ∧ p ≤ 65535)
  | none => false

def isFingerprint : Bool :=
  text.length = 40 && text.all fun c => (hexVal c).isSome

def isArgument : Bool :=
  '=' ∈ text && text.head? ≠ some '='

def argKey : Text := text.takeWhile (· ≠ '=')

def argValue : Text := (text.dropWhile (· ≠ '=')).drop 1

theorem hexVal_toUpper {c : Char} (digit : (hexVal c).isSome = true) :
    (hexVal c.toUpper).isSome = true ∧ c.toUpper.toUpper = c.toUpper := by
  have all : ∀ n < 103, (hexVal (Char.ofNat n)).isSome = true →
      (hexVal (Char.ofNat n).toUpper).isSome = true ∧
        (Char.ofNat n).toUpper.toUpper = (Char.ofNat n).toUpper := by
    decide
  have small := (toNat_of_hexVal digit).2
  rw [← Char.ofNat_toNat c] at digit ⊢
  exact all c.toNat (by omega) digit

def IsFingerprint : Prop := isFingerprint text = true ∧ text.map Char.toUpper = text

theorem isFingerprint_upper {text : Text} (fine : isFingerprint text = true) :
    IsFingerprint (text.map Char.toUpper) := by
  rw [isFingerprint, Bool.and_eq_true, decide_eq_true_eq, all_eq_true] at fine
  constructor
  · rw [isFingerprint, Bool.and_eq_true, decide_eq_true_eq, all_eq_true, length_map]
    refine ⟨fine.1, fun c member => ?_⟩
    obtain ⟨d, inside, rfl⟩ := mem_map.mp member
    exact (hexVal_toUpper (fine.2 d inside)).1
  · rw [map_map]
    exact map_congr_left fun c member => (hexVal_toUpper (fine.2 c member)).2

theorem IsFingerprint.isWord {text : Text} (fine : IsFingerprint text) : IsWord text := by
  have parts := fine.1
  rw [isFingerprint, Bool.and_eq_true, all_eq_true] at parts
  refine ⟨fun empty => ?_, fun c member => isSpace_of_hexVal (parts.2 c member)⟩
  rw [empty] at parts
  cases parts.1

namespace Net

variable (net : Net)

def lowerChar (c : Char) : Char := if c.toNat < 128 then c.toLower else net.lower c

def toLower (text : Text) : Text := text.map net.lowerChar

def addrError (addr : Text) : Option LineError :=
  match splitHostPort addr with
  | none => some .badAddress
  | some (host, port) =>
    if host = [] then some .badAddress
    else if !portFine port then some .badPort
    else if net.parseIP host = none then some .notIP
    else if addr.head? = some '[' ∧ ':' ∉ host then some .bracketed
    else none

end Net

/-- One bridge line taken apart.  The arguments stand as written, in order. -/
structure Line (net : Net) where
  transport : Transport
  addr : Word
  fp : Option Word
  kv : List Word
  addr_fine : net.addrError addr.val = none
  fp_fine : ∀ w ∈ fp, IsFingerprint w.val
  kv_fine : ∀ w ∈ kv, isArgument w.val = true
  deriving DecidableEq

/-- The fingerprint after the address, in upper case, and the rest. -/
def parseFingerprint : List Word →
    Except LineError ({fp : Option Word // ∀ w ∈ fp, IsFingerprint w.val} × List Word)
  | [] => .ok (⟨none, nofun⟩, [])
  | w :: rest =>
    if '=' ∈ w.val then .ok (⟨none, nofun⟩, w :: rest)
    else if fine : isFingerprint w.val = true then
      have upper := isFingerprint_upper fine
      .ok (⟨some ⟨_, upper.isWord⟩, fun _ same => Option.some.inj same ▸ upper⟩, rest)
    else .error .badFingerprint

variable (net : Net)

def parseNamed : List Word → Except LineError (Line net)
  | name :: addr :: rest =>
    match Transport.ofName (net.toLower name.val) with
    | none => .error .unknown
    | some transport =>
      match fine : net.addrError addr.val with
      | some error => .error error
      | none =>
        match parseFingerprint rest with
        | .error error => .error error
        | .ok (fp, kv) =>
          if kvFine : ∀ w ∈ kv, isArgument w.val = true then
            .ok ⟨transport, addr, fp.val, kv, fine, fp.2, kvFine⟩
          else .error .badArgument
  | _ => .error .unknown

/-- A line that begins with an address names no transport. -/
def withTransport : List Word → List Word
  | [] => []
  | w :: f => if (splitHostPort w.val).isSome then Transport.vanilla.word :: w :: f else w :: f

def parseBridgeLine (s : Text) : Except LineError (Line net) :=
  parseNamed net (withTransport (fields (trimSpace s)))

namespace Line

variable {net}

def get (b : Line net) (key : String) : Option Text :=
  (b.kv.find? fun w => argKey w.val = key.toList).map fun w => argValue w.val

def words (b : Line net) : List Word :=
  (if b.transport = .vanilla then [b.addr] else [b.transport.word, b.addr]) ++ b.fp.toList ++ b.kv

end Line

def ptTokenArg : Text := "kryfo".toList

/-- At most 255 bytes each for the socks username and password. -/
def ptArgsMax : Nat := 510

/-- The bytes of an argument as tor sends it, semicolons and backslashes escaped. -/
def argLen : Nat :=
  (text.map Char.utf8Size).sum + text.count ';' + text.count (Char.ofNat 92)

def ptArgsLen (kv : List Text) : Nat := (kv.map argLen).sum + (kv.length - 1)

def startsWith (start : String) (text : Text) : Bool := start.toList.isPrefixOf text

def splitList : List Text :=
  ((text.splitOn ',').map trimSpace).filter fun piece => !piece.isEmpty

/-- The host of a URL without its port and its brackets. -/
def hostname (host : Text) : Text :=
  let port := (host.reverse.takeWhile (· ≠ ':')).reverse
  let host := if ':' ∈ host ∧ port.all Char.isDigit then
    host.take (host.length - port.length - 1) else host
  if host.head? = some '[' ∧ host.getLast? = some ']' then (host.drop 1).dropLast else host

namespace Line

variable {net} (b : Line net)

/-- What a transport asks for beyond its own argument parser. -/
def transportError : Option LineError :=
  match b.transport with
  | .vanilla => none
  | .obfs4 => if b.get "cert" = none then some .noCert else none
  | .webtunnel =>
    if b.fp = none then some .noFingerprint
    else if !startsWith "https://" (net.toLower ((b.get "url").getD [])) then some .urlNotHttps
    else none
  | .snowflake =>
    if b.fp = none ∨ (b.get "fingerprint").map (·.map Char.toUpper) ≠ b.fp.map Subtype.val then
      some .fingerprintsApart
    else
      match net.parseURL ((b.get "url").getD []) with
      | none => some .brokerNotHttps
      | some (scheme, host) =>
        if scheme ≠ "https".toList ∨ hostname host = [] then some .brokerNotHttps
        else
          match b.get "ice" with
          | none => none
          | some ice =>
            if (splitList ice).any fun one => startsWith "stun:" (net.toLower one) then none
            else some .noStun

def error : Option LineError :=
  if b.transport = .vanilla then
    if b.kv ≠ [] then some (.args .vanilla) else none
  else if ptArgsLen (b.kv.map Subtype.val ++ [ptTokenArg ++ '=' :: net.ptToken]) > ptArgsMax then
    some .long
  else
    match b.transportError with
    | some error => some error
    | none => if net.parseArgs b.transport.name b.kv then none else some (.args b.transport)

/-- What an older line can safely leave out, without a token of another run. -/
def normalKV : List Word :=
  let kv := b.kv.filter fun w => !(ptTokenArg ++ ['=']).isPrefixOf w.val
  if b.transport = .obfs4 ∧ b.get "iat-mode" = none then
    kv ++ [⟨"iat-mode=0".toList, by decide⟩]
  else kv

theorem isArgument_normalKV : ∀ w ∈ b.normalKV, isArgument w.val = true := by
  have kept : ∀ w ∈ b.kv.filter fun w => !(ptTokenArg ++ ['=']).isPrefixOf w.val,
      isArgument w.val = true := fun w member => b.kv_fine w (mem_filter.mp member).1
  unfold normalKV
  split
  · intro w member
    rcases mem_append.mp member with inside | last
    · exact kept w inside
    · obtain rfl := mem_singleton.mp last
      decide
  · exact kept

def normal : Line net := { b with kv := b.normalKV, kv_fine := b.isArgument_normalKV }

end Line

def checkBridgeLine (s : Text) : Except LineError (Line net) :=
  match parseBridgeLine net s with
  | .error error => .error error
  | .ok b =>
    match b.error with
    | some error => .error error
    | none => .ok b

/-- Fills in what an older line can leave out, and says whether that changed it. -/
def normaliseBridgeLine (s : Text) : Text × Bool :=
  match parseBridgeLine net s with
  | .error _ => (s, false)
  | .ok b =>
    let out := unwords b.normal.words
    (out, decide (out ≠ unwords (fields s)))

/-- The address the way the socks handshake gives it. -/
def bridgeAddrKey (addr : Text) : Text :=
  match splitHostPort (trimSpace addr) with
  | none => []
  | some (host, port) => net.toLower (joinHostPort ((net.parseIP host).getD host) port)

inductive State
  | ok
  | fixed
  | broken (why : LineError)
  deriving DecidableEq

structure LineCheck where
  i : Nat
  state : State
  deriving DecidableEq

structure Sorting where
  seen : List Text := []
  good : List Text := []
  bad : List Text := []
  checks : List LineCheck := []
  deriving DecidableEq

def Line.seenKey {net : Net} (b : Line net) : Text :=
  b.transport.name ++ ' ' :: bridgeAddrKey net b.addr.val

namespace Sorting

def take (s : Sorting) (ln : Text) : Sorting :=
  let i := s.checks.length
  let (fixed, changed) := normaliseBridgeLine net ln
  match checkBridgeLine net fixed with
  | .error why => { s with bad := s.bad ++ [ln], checks := s.checks ++ [⟨i, .broken why⟩] }
  | .ok b =>
    if b.seenKey ∈ s.seen then
      { s with bad := s.bad ++ [ln], checks := s.checks ++ [⟨i, .broken .repeated⟩] }
    else
      { s with
        seen := s.seen ++ [b.seenKey]
        good := s.good ++ [fixed]
        checks := s.checks ++ [⟨i, if changed then .fixed else .ok⟩] }

end Sorting

def pastedLines (raw : Text) : List Text :=
  ((raw.splitOn '\n').map trimSpace).filter fun ln => !ln.isEmpty

/-- Splits pasted or stored text into lines tor can use and lines it cannot. -/
def sortBridgeLines (raw : Text) : Sorting := (pastedLines raw).foldl (Sorting.take net) {}

def bridgeFor (bridgesEnabled : Bool) (bridgeLines : List Text) (transport : Transport)
    (target : Text) : Option (Line net) :=
  let want := bridgeAddrKey net target
  if want = [] ∨ !bridgesEnabled then none
  else
    bridgeLines.findSome? fun ln =>
      match parseBridgeLine net ln with
      | .ok b => if b.transport = transport ∧ bridgeAddrKey net b.addr.val = want then some b else none
      | .error _ => none

end Kryfo.Bridges
