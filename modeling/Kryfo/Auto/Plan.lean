import Kryfo.Library.Keyed

/-!
# The plan of an automatic pass

Which ways into the network a pass of the automatic mode tries and in which order,
the steps an answer of the tor project adds, and the way a check-in uses.
-/

namespace Kryfo.Auto

open Library

inductive BridgeMode where
  | legacy
  | auto
  | direct
  | snowflake
  | webtunnel
  | moat
  | own
  deriving DecidableEq

structure ModeOpts where
  skipDirect : Bool
  webtunnel : List String

structure AutoUse where
  method : String
  source : String
  day : Int
  deriving DecidableEq

/-- What worked, and where direct was found blocked, by type of network. -/
structure AutoMemory where
  last : String → Option AutoUse
  worked : String → String → Option AutoUse
  blocked : String → Option Int

structure MoatSetting where
  type : String
  source : String
  lines : List String
  deriving DecidableEq

/-- The built-in lines by transport, the cached answer of the tor project, and which lines are
good. -/
structure Bridges where
  builtinLines : String → List String
  moatSettingsCached : List MoatSetting
  sortBridgeLines : List String → List String

structure AutoStep where
  method : String
  source : String := ""
  lines : List String := []
  limit : Nat := 0
  deriving DecidableEq

def memDays : Int := 30

def fresh (day today : Int) : Bool := day ≤ today && today - memDays < day

def directLimit : Nat := 90

def lastLimit : Nat := 60

/-- In seconds, from the first dial; zero for what is no transport. -/
def methodLimit (method : String) : Nat :=
  if method = "obfs4" then 45
  else if method = "webtunnel" then 90
  else if method = "snowflake" then 150
  else 0

def stepLimit (method : String) (last : Bool) : Nat :=
  if method = "direct" then directLimit
  else if last && method ≠ "snowflake" then lastLimit
  else methodLimit method

variable (bridges : Bridges)

def linesFor (u : AutoUse) (opts : ModeOpts) : List String :=
  if u.method = "direct" then []
  else if u.source = "builtin" then bridges.builtinLines u.method
  else if u.source = "moat" then
    match bridges.moatSettingsCached.find? fun s => s.type = u.method && s.source = "bridgedb" with
    | some s => s.lines
    | none => []
  else if u.source = "cached" && u.method = "webtunnel" then
    bridges.sortBridgeLines opts.webtunnel
  else []

def AutoStep.key (s : AutoStep) : String × String := (s.method, s.source)

def directBlocked (kind : String) (mem : AutoMemory) (today : Int) : Bool :=
  match mem.blocked kind with
  | some d => fresh d today
  | none => false

def lastStep (kind : String) (mem : AutoMemory) (opts : ModeOpts) (today : Int) :
    Option AutoStep :=
  match mem.last kind with
  | none => none
  | some u =>
    if !fresh u.day today then none
    else if u.method = "direct" && !(directBlocked kind mem today || opts.skipDirect) then
      some { method := "direct", limit := directLimit }
    else if u.method ≠ "direct" && linesFor bridges u opts ≠ [] then
      some ⟨u.method, u.source, linesFor bridges u opts, stepLimit u.method true⟩
    else none

def builtinStep (t : String) : Option AutoStep :=
  if bridges.builtinLines t ≠ [] then
    some ⟨t, "builtin", bridges.builtinLines t, stepLimit t false⟩
  else none

def webtunnelStep (opts : ModeOpts) : Option AutoStep :=
  let lines := linesFor bridges ⟨"webtunnel", "cached", 0⟩ opts
  if lines ≠ [] then some ⟨"webtunnel", "cached", lines, stepLimit "webtunnel" false⟩ else none

def usualSteps (kind : String) (mem : AutoMemory) (opts : ModeOpts) (today : Int) :
    List AutoStep :=
  (if directBlocked kind mem today || opts.skipDirect then []
    else [{ method := "direct", limit := directLimit }]) ++
  [{ method := "moat" }] ++ (builtinStep bridges "obfs4").toList ++
  (builtinStep bridges "snowflake").toList ++ (webtunnelStep bridges opts).toList

def planPass (kind : String) (mem : AutoMemory) (opts : ModeOpts) (today : Int) :
    List AutoStep :=
  ((lastStep bridges kind mem opts today).toList ++ usualSteps bridges kind mem opts today).foldl
    (addNew AutoStep.key) []

def moatSteps (settings : List MoatSetting) : List AutoStep :=
  (settings.filter fun s => !(s.lines.isEmpty || methodLimit s.type = 0)).map fun s =>
    ⟨s.type, if s.source = "builtin" then "builtin" else "moat", s.lines, stepLimit s.type false⟩

def addMoat (out : List AutoStep) (e : AutoStep) : List AutoStep :=
  if out.any fun o => o.key = e.key && o.method ≠ "moat" then out else out ++ [e]

/-- Moat's steps right after it, without the later built-in steps for a type they cover. -/
def spliceMoat (steps : List AutoStep) (place : Nat) (extra : List AutoStep) : List AutoStep :=
  extra.foldl addMoat (steps.take (place + 1)) ++ (steps.drop (place + 1)).filter fun s =>
      !(s.source = "builtin" && extra.any fun e => e.method = s.method)

/-- The other way that worked here lately, in place of snowflake. -/
def insteadOfSnowflake (kind : String) (mem : AutoMemory) (opts : ModeOpts) (today : Int) :
    List String → Option AutoStep
  | [] => none
  | m :: ms =>
    match mem.worked kind m with
    | some w =>
      if fresh w.day today && linesFor bridges w opts ≠ [] then
        some { method := w.method, source := w.source, lines := linesFor bridges w opts }
      else insteadOfSnowflake kind mem opts today ms
    | none => insteadOfSnowflake kind mem opts today ms

def rememberedStep (u : AutoUse) (opts : ModeOpts) : Option AutoStep :=
  if u.method ≠ "direct" && linesFor bridges u opts = [] then none
  else some { method := u.method, source := u.source, lines := linesFor bridges u opts }

/-- The method a check-in uses: the one that worked here last. -/
def checkInStep (kind : String) (mem : AutoMemory) (opts : ModeOpts) (today : Int) :
    Option AutoStep :=
  match mem.last kind with
  | none => none
  | some u =>
    if !fresh u.day today then none
    else if u.method = "direct" && (opts.skipDirect || directBlocked kind mem today) then none
    else if u.method = "snowflake" then
      (insteadOfSnowflake bridges kind mem opts today ["webtunnel", "obfs4"]).or
        (rememberedStep bridges u opts)
    else rememberedStep bridges u opts

structure CheckIn where
  reply : String
  put : Option AutoStep

/-- `on` and `detail` are whether a network is there, by the watch and by what is
trusted of it. -/
def putCheckInStep (mode : BridgeMode) (on : Bool) (detail : Option Bool) (kind : String)
    (mem : AutoMemory) (opts : ModeOpts) (today : Int) : CheckIn :=
  if mode ≠ .auto then ⟨"ok", none⟩
  else if !on || detail = some false then ⟨"ok", none⟩
  else
    match checkInStep bridges kind mem opts today with
    | some s => ⟨"ok", some s⟩
    | none =>
      if opts.skipDirect || directBlocked kind mem today then
        if bridges.builtinLines "obfs4" = [] then
          ⟨"error: lines_bad", some { method := "" }⟩
        else
          ⟨"ok", some
            { method := "obfs4", source := "builtin", lines := bridges.builtinLines "obfs4" }⟩
      else ⟨"ok", some { method := "direct" }⟩

end Kryfo.Auto
