import Kryfo.Library.Dict
import Kryfo.Library.HexBytes
import Kryfo.Library.Run

/-!
# The handle registry

A handle is claimed with a signature of the key its invite names, and only that key repoints it,
releases it or lists it.  Each request reads, checks and changes one handle in one go.
-/

namespace Kryfo.Handle

open Library

abbrev Text := List Char

/-- What `url.Parse` makes of an invite. -/
structure Url where
  scheme : Text
  host : Text
  get : Text → Text

/-- What the registry runs with: the primitives it calls and its settings. -/
structure Config where
  /-- `TrimSpace`, then `ToLower`. -/
  normal : Text → Text
  parse : Text → Option Url
  sha256 : Bytes → Bytes
  /-- `ed25519.Verify`, true of the signatures the key's holder made. -/
  edVerify : Bytes → Bytes → Bytes → Bool
  utf8 : Text → Bytes
  wordList : List Text
  /-- `fmt.Sscan` into an `int64`. -/
  scan : Text → Option Int
  /-- What the file gives back of a text.  Bytes that are no text are replaced. -/
  readBack : Bytes → Bytes
  acceptV1 : Bool
  maxHandles : Nat

structure Body where
  handle : Text := []
  invite : Text := []
  bio : Text := []
  pubkey : Text := []
  sig : Text := []
  v : Text := []
  ts : Text := []
  listed : Text := []
  name : Text := []

structure Entry where
  invite : Text
  bio : Bytes
  pubkey : Text
  signedAt : Int := 0
  listed : Bool := false
  name : Text := []
  listedAt : Int := 0
deriving DecidableEq

inductive Answer where
  | ok
  | refused (code : Nat) (error : String)
deriving DecidableEq

def maxInvite : Nat := 1024

def signSkew : Int := 600

def listingSkew : Int := 600

def nameMax : Nat := 40

def handleOK (h : Text) : Bool :=
  3 ≤ h.length && h.length ≤ 20 &&
    h.all fun c => ('a' ≤ c && c ≤ 'z') || ('0' ≤ c && c ≤ '9') || c = '_'

def reserved (h : Text) : Bool :=
  String.ofList h ∈ ["admin", "kryfo", "support", "help", "root", "system", "official", "team",
    "security", "abuse", "handle", "api", "well", "static", "assets", "about"]

/-- Printable ASCII without a quote or a backslash. -/
def inviteChar (c : Char) : Bool :=
  32 < c.toNat && c.toNat ≤ 126 && c.toNat ≠ 34 && c.toNat ≠ 92

def claimMsgV1 (h : Text) : Text := "kryfo-handle-v1:".toList ++ h

def releaseMsgV2 (h : Text) (ts : Int) : Text :=
  "kryfo-handle-release-v2:".toList ++ h ++ [':'] ++ formatInt ts

def listingMsg (h : Text) (listed : Bool) (ts : Int) (name : Text) : Text :=
  "kryfo-handle-list-v1:".toList ++ h ++ [':'] ++ (if listed then ['1'] else ['0']) ++ [':'] ++
    formatInt ts ++ [':'] ++ name

/-- Characters that a name does not show: controls and marks of direction. -/
def hidden (c : Char) : Bool :=
  let n := c.toNat
  n < 32 || (127 ≤ n && n ≤ 159) || n = 0x200E || n = 0x200F || (0x202A ≤ n && n ≤ 0x202E) ||
    (0x2066 ≤ n && n ≤ 0x2069)

/-- The loop of `cleanName`: what was written, whether a space came last, how many. -/
def cleanLoop : Text → Text → Bool → Nat → Text
  | [], out, _, _ => out
  | c :: rest, out, space, n =>
    if isSpace c then
      if !space && out ≠ [] then cleanLoop rest (out ++ [' ']) true (n + 1)
      else cleanLoop rest out true n
    else if hidden c then cleanLoop rest out space n
    else if nameMax ≤ n + 1 then out ++ [c]
    else cleanLoop rest (out ++ [c]) false (n + 1)

def cleanName (name : Text) : Text := trimSpace (cleanLoop (trimSpace name) [] false 0)

structure Checked where
  ts : Int
  v2 : Bool
  why : String

namespace Config

variable (cfg : Config)

def claimMsgV2 (h invite : Text) (ts : Int) : Text :=
  "kryfo-handle-claim-v2:".toList ++ h ++ [':'] ++ hexText (cfg.sha256 (cfg.utf8 invite)) ++
    [':'] ++ formatInt ts

def verifyMsg (pubHex sigHex msg : Text) : Bool :=
  match unhexText pubHex, unhexText sigHex with
  | some pub, some sig =>
    pub.length = 32 && sig.length = 64 && cfg.edVerify pub (cfg.utf8 msg) sig
  | _, _ => false

def checkSig (now : Int) (body : Body) (h : Text) (msgV2 : Int → Text) : Checked :=
  if body.v = ['2'] then
    match cfg.scan body.ts with
    | none => ⟨0, true, "bad request"⟩
    | some ts =>
      if ts < now - signSkew ∨ now + signSkew < ts then ⟨0, true, "check the phone's clock"⟩
      else if cfg.verifyMsg body.pubkey body.sig (msgV2 ts) then ⟨ts, true, ""⟩
      else ⟨0, true, "signature does not match"⟩
  else if body.v = [] ∨ body.v = ['1'] then
    if !cfg.acceptV1 then ⟨0, false, "update the app"⟩
    else if cfg.verifyMsg body.pubkey body.sig (claimMsgV1 h) then ⟨0, false, ""⟩
    else ⟨0, false, "signature does not match"⟩
  else ⟨0, false, "bad request"⟩

def wordsOf (pubHex : Text) : Text :=
  match unhexText pubHex with
  | none => []
  | some pub =>
    if pub.length ≠ 32 ∨ cfg.wordList.length ≠ 2048 then []
    else
      let h := cfg.sha256 pub
      let bits := (h.getD 0 0).toNat * 2 ^ 32 + (h.getD 1 0).toNat * 2 ^ 24 +
        (h.getD 2 0).toNat * 2 ^ 16 + (h.getD 3 0).toNat * 2 ^ 8 + (h.getD 4 0).toNat
      let word (n : Nat) := cfg.wordList.getD (n % 2048) []
      word (bits / 2 ^ 22) ++ ['-'] ++ word (bits / 2 ^ 11) ++ ['-'] ++ word bits

def inviteId (invite : Text) : Option Text := (cfg.parse invite).map fun u => u.get "id".toList

def inviteIsKeys (invite pubHex : Text) : Bool :=
  cfg.wordsOf pubHex ≠ [] && cfg.inviteId invite = some (cfg.wordsOf pubHex)

def inviteOK (s : Text) : Bool :=
  s ≠ [] && s.length ≤ maxInvite && s.all inviteChar &&
    match cfg.parse s with
    | none => false
    | some u =>
      u.scheme = "kryfo".toList && u.host = "share".toList && u.get "id".toList ≠ [] &&
        u.get "onion".toList ≠ [] &&
        if u.get ['v'] = [] ∨ u.get ['v'] = ['1'] then u.get "xpub".toList ≠ []
        else if u.get ['v'] = ['2'] ∨ u.get ['v'] = ['3'] then u.get "bundle".toList ≠ []
        else false

def cutBio (bio : Text) : Bytes := (cfg.utf8 bio).take 200

end Config

/-- What a request meets: the clock as it is checked and as it changes the registry, the
limiters, and whether the file is written. -/
structure Turn where
  now : Int
  later : Int := now
  allow : Bool := true
  fresh : Bool := true
  saves : Bool := true

structure Store where
  m : Dict Text Entry := .empty
  /-- Handles released in the last while, with the time on the release. -/
  gone : Dict Text Int := .empty
  file : Dict Text Entry := .empty
  /-- The file holds the last change. -/
  saved : Bool := true

namespace Store

def goneAt (s : Store) (h : Text) : Int := (s.gone.lookup h).getD 0

def put (h : Text) (e : Entry) (s : Store) : Store := { s with m := s.m.set h e, saved := false }

/-- The handle goes, the time on its release is remembered, old ones no longer. -/
def del (now : Int) (h : Text) (ts : Int) (s : Store) : Store :=
  { s with
    m := s.m.remove h
    gone := (s.gone.keep fun _ v => now - 2 * signSkew ≤ v).set h ts
    saved := false }

/-- An ok waits for the last change to be in the file, and a refusal that changed nothing does
not. -/
def save (saves : Bool) (change : Answer × Store) : Answer × Store :=
  match change with
  | (.ok, s) =>
    if s.saved then (.ok, s)
    else if saves then (.ok, { s with file := s.m, saved := true })
    else (.refused 200 "could not save", s)
  | (.refused code error, s) => (.refused code error, s)

variable (cfg : Config)

/-- The change of a claim whose signature is right.  `fresh` is the pace for new names. -/
def claimTx (fresh : Bool) (h : Text) (body : Body) (c : Checked) (s : Store) : Answer × Store :=
  let new : Entry := { invite := body.invite, bio := cfg.cutBio body.bio, pubkey := body.pubkey }
  match s.m.lookup h with
  | some old =>
    if old.pubkey ≠ body.pubkey then (.refused 200 "that handle is taken", s)
    else if 0 < old.signedAt ∧ c.v2 = false then (.refused 200 "update the app", s)
    else if c.v2 = true ∧ c.ts < old.signedAt then (.refused 200 "an older change", s)
    else if old.invite = body.invite ∧ old.bio = cfg.cutBio body.bio ∧
        (c.v2 = false ∨ 0 < old.signedAt) then (.ok, s)
    else
      (.ok, s.put h { new with
        signedAt := if c.v2 then c.ts else old.signedAt
        listed := old.listed, name := old.name, listedAt := old.listedAt })
  | none =>
    if 0 < s.goneAt h ∧ (c.v2 = false ∨ c.ts ≤ s.goneAt h) then
      (.refused 200 "an older change", s)
    else if cfg.maxHandles ≤ s.m.entries.length then (.refused 503 "the registry is full", s)
    else if !fresh then (.refused 429 "slow down", s)
    else (.ok, s.put h { new with signedAt := if c.v2 then c.ts else 0 })

/-- `/handle/claim`. -/
def claim (turn : Turn) (body : Body) (s : Store) : Answer × Store :=
  let h := cfg.normal body.handle
  if !handleOK h || reserved h then (.refused 200 "that handle is not available", s)
  else if !cfg.inviteOK body.invite then (.refused 400 "bad invite", s)
  else if !turn.allow then (.refused 429 "slow down", s)
  else
    let c := cfg.checkSig turn.now body h (cfg.claimMsgV2 h body.invite)
    if c.why ≠ "" then (.refused 200 c.why, s)
    else if !cfg.inviteIsKeys body.invite body.pubkey then (.refused 200 "the invite is not yours", s)
    else save turn.saves (s.claimTx cfg turn.fresh h body c)

/-- The change of a release.  The clock is read once more when the handle goes. -/
def releaseTx (now later : Int) (h : Text) (body : Body) (c : Checked) (s : Store) :
    Answer × Store :=
  match s.m.lookup h with
  | none => (.ok, s)
  | some e =>
    if c.why = "signature does not match" ∨ e.pubkey ≠ body.pubkey then
      (.refused 200 "not yours to release", s)
    else if c.why ≠ "" then (.refused 200 c.why, s)
    else if 0 < e.signedAt ∧ c.v2 = false then (.refused 200 "update the app", s)
    else if c.v2 = true ∧ c.ts < e.signedAt then (.refused 200 "an older change", s)
    else (.ok, s.del later h (if c.v2 then c.ts else now))

/-- `/handle/release`. -/
def release (turn : Turn) (body : Body) (s : Store) : Answer × Store :=
  if !turn.allow then (.refused 429 "slow down", s)
  else
    let h := cfg.normal body.handle
    save turn.saves (s.releaseTx turn.now turn.later h body
      (cfg.checkSig turn.now body h (releaseMsgV2 h)))

def listingTx (now : Int) (h : Text) (body : Body) (s : Store) : Answer × Store :=
  match s.m.lookup h with
  | none => (.refused 200 "no such handle", s)
  | some e =>
    match cfg.scan body.ts with
    | none => (.refused 200 "bad request", s)
    | some ts =>
      let listed : Bool := body.listed = ['1']
      if ts < now - listingSkew ∨ now + listingSkew < ts then
        (.refused 200 "check the phone's clock", s)
      else if ts ≤ e.listedAt then (.refused 200 "an older change", s)
      else if body.listed ≠ ['1'] ∧ body.listed ≠ ['0'] then (.refused 200 "bad request", s)
      else if e.pubkey ≠ body.pubkey ∨
          cfg.verifyMsg body.pubkey body.sig (listingMsg h listed ts body.name) = false then
        (.refused 200 "not yours to change", s)
      else
        (.ok, s.put h { e with
          listed, listedAt := ts, name := if listed then cleanName body.name else [] })

/-- `listingHandler`. -/
def listing (turn : Turn) (body : Body) (s : Store) : Answer × Store :=
  if !turn.allow then (.refused 429 "slow down", s)
  else save turn.saves (s.listingTx cfg turn.now (cfg.normal body.handle) body)

/-- `loadStore`, for the file this registry wrote. -/
def restart (s : Store) : Store :=
  { m := s.file.mapValues fun e => { e with bio := cfg.readBack e.bio }
    file := s.file }

end Store

inductive Act where
  | claim (turn : Turn) (body : Body)
  | release (turn : Turn) (body : Body)
  | listing (turn : Turn) (body : Body)
  | restart (turn : Turn)

namespace Act

def turn : Act → Turn
  | claim turn _ | release turn _ | listing turn _ | restart turn => turn

end Act

namespace Store

variable (cfg : Config)

def serve (s : Store) : Act → Answer × Store
  | .claim turn body => s.claim cfg turn body
  | .release turn body => s.release cfg turn body
  | .listing turn body => s.listing cfg turn body
  | .restart _ => (.ok, s.restart cfg)

def next (s : Store) (act : Act) : Store := (s.serve cfg act).2

def Step (s : Store) (act : Act) (s' : Store) : Prop := s' = s.next cfg act

abbrev Reached (rule : Store → Act → Prop) : Store → Prop := Run (Step cfg) rule {}

def after (acts : List Act) : Store := acts.foldl (next cfg) {}

theorem reached_after {rule : Act → Prop} (acts : List Act) (allowed : ∀ act ∈ acts, rule act) :
    Reached cfg (fun _ => rule) (after cfg acts) :=
  Run.of_allowed (next cfg) _ (allowed_of_forall fun act inside _ => allowed act inside)

end Store

/-- One key, with its three words in every invite, that signed the messages of a list. -/
def Config.small (made : List Text) : Config where
  normal := id
  parse _ := some ⟨"kryfo".toList, "share".toList, fun field =>
    if field = "id".toList then "w-w-w".toList else if field = ['v'] then [] else ['x']⟩
  sha256 := id
  edVerify _ msg _ := msg ∈ made.map fun text => text.flatMap String.utf8EncodeChar
  utf8 text := text.flatMap String.utf8EncodeChar
  wordList := List.replicate 2048 ['w']
  scan := parseInt
  -- what is left of a character that was cut is read back as the replacement character
  readBack bytes := if bytes.getLast? = some 0xC3 then bytes.dropLast ++ [0xEF, 0xBF, 0xBD] else bytes
  acceptV1 := true
  maxHandles := 10

def Body.small (ts : Int) (invite : Text := []) : Body where
  handle := "abc".toList
  invite := invite
  pubkey := List.replicate 64 '0'
  sig := List.replicate 128 '0'
  v := ['2']
  ts := formatInt ts

end Kryfo.Handle
