import Kryfo.Bridges.NormalForm

/-!
# Hosts reached outside tor

A snowflake line names hosts that are reached before tor runs, so each has to be on the list of
reviewed hosts.  `engine/builtin.go` and `engine/moat.go` check lines that come bundled, from a
refresh, from moat and from what was stored.
-/

namespace Kryfo.Bridges

open Library List

def ptNames : List Text :=
  [Transport.obfs4.name, Transport.webtunnel.name, Transport.snowflake.name]

structure Release where
  reviewedHosts : Text → Bool
  builtinBundled : Text → List Text
  builtinBase : Text
  /-- What stands for the letters outside ASCII that differ in case only. -/
  orbit : Char → {c : Char // 128 ≤ c.toNat}

/-- The arguments a line may carry; the keys of the table are `ptNames`. -/
def builtinArgs : Transport → List String
  | .vanilla => []
  | .obfs4 => ["cert", "iat-mode"]
  | .webtunnel => ["url", "ver", "servername", "utls"]
  | .snowflake => ["fingerprint", "url", "fronts", "front", "ice", "utls-imitate"]

variable (net : Net)

def urlHost (s : Text) : Text :=
  match net.parseURL s with
  | none => []
  | some (_, host) => hostname host

/-- The hosts an argument names, if it can be read. -/
def argHosts (w : Word) : Option (List Text) :=
  let key := String.ofList (argKey w.val)
  let v := argValue w.val
  if key = "url" then if urlHost net v = [] then none else some [urlHost net v]
  else if key = "servername" then some [v]
  else if key = "front" ∨ key = "fronts" then some (splitList v)
  else if key = "ice" then
    (splitList v).mapM fun one =>
      let s := net.toLower one
      (splitHostPort (if startsWith "stun:" s then s.drop 5 else s)).map Prod.fst
  else some []

variable {net} in
def lineHosts (b : Line net) : Option (List Text) :=
  if ∀ w ∈ b.kv, String.ofList (argKey w.val) ∈ builtinArgs b.transport then
    (b.kv.mapM (argHosts net)).map flatten
  else none

variable (r : Release)

def hostAllowed (h : Text) : Bool :=
  r.reviewedHosts (net.toLower (if h.getLast? = some '.' then h.dropLast else h))

variable {net} in
def hostsAllowed (b : Line net) : Bool :=
  match lineHosts b with
  | none => false
  | some hosts => hosts.all (hostAllowed net r)

/-! ## Built-in lines -/

def builtinLineOK (ln : Text) : Option (Line net) :=
  match checkBridgeLine net (normaliseBridgeLine net ln).1 with
  | .error _ => none
  | .ok b => if b.fp ≠ none ∧ hostsAllowed r b then some b else none

variable {net} in
def SameBridge (o b : Line net) : Prop :=
  o.fp = b.fp ∧ bridgeAddrKey net o.addr.val = bridgeAddrKey net b.addr.val

instance (o b : Line net) : Decidable (SameBridge o b) := inferInstanceAs (Decidable (_ ∧ _))

variable {net} in
def bundledMatch (b : Line net) : Bool :=
  (r.builtinBundled b.transport.name).any fun ln =>
    match parseBridgeLine net ln with
    | .error _ => false
    | .ok o => decide (SameBridge o b)

def acceptRefreshed (fresh : Text → List Text) (t : Text) : List Text :=
  if t ∉ ptNames then []
  else
    (fresh t).filterMap fun ln =>
      match builtinLineOK net r ln with
      | none => none
      | some b =>
        if b.transport.name = t ∧ bundledMatch r b then some (normaliseBridgeLine net ln).1
        else none

def builtinUse (fresh : List Text) (b : Line net) (use : Text) : Text :=
  fresh.foldl (fun use f =>
    match parseBridgeLine net f with
    | .error _ => use
    | .ok o => if o.fp = b.fp then f else use) use

def builtinLines (fresh : Text → List Text) (t : Text) : List Text :=
  (r.builtinBundled t).filterMap fun ln =>
    (builtinLineOK net r ln).map fun b =>
      builtinUse net (fresh t) b (normaliseBridgeLine net ln).1

/-! ## Lines from moat -/

def foldChar (c : Char) : Char :=
  if c.toNat < 128 then c.toLower
  else if c.toNat = 0x17F then 's'
  else if c.toNat = 0x212A then 'k'
  else (r.orbit c).val

def equalFold (s t : Text) : Bool := s.map (foldChar r) = t.map (foldChar r)

def moatLineOK (ln : Text) : Bool :=
  match checkBridgeLine net ln with
  | .error _ => false
  | .ok b => b.transport ≠ .snowflake || hostsAllowed r b

def moatLines (raw : List Text) (transport : Text) : List Text :=
  raw.filterMap fun b =>
    match fields b with
    | [] => none
    | w :: f =>
      let known := ptNames.any (equalFold r w.val)
      if transport = [] ∨ known ∧ !equalFold r w.val transport then none
      else
        let full := if known then unwords (w :: f) else transport ++ ' ' :: unwords (w :: f)
        let ln := (normaliseBridgeLine net full).1
        if moatLineOK net r ln then some ln else none

structure MoatSetting where
  type : Text
  source : Text
  lines : List Text

def parseMoatSettings (fresh : Text → List Text) (list : List MoatSetting) : List MoatSetting :=
  list.filterMap fun s =>
    let t := net.toLower s.type
    if t ∉ ptNames then none
    else
      let lines :=
        if s.source = "builtin".toList then builtinLines net r fresh t
        else if s.source = "bridgedb".toList then moatLines net r s.lines t
        else []
      if lines = [] then none else some ⟨t, s.source, lines⟩

/-! ## What is kept -/

structure Cache where
  v : Int
  builtin : Option (Text × Int × (Text → List Text))
  moat : Option (Int × List Text)

structure Engine where
  builtinFresh : Text → List Text := fun _ => []
  moatSettings : List MoatSetting := []

/-- The stored lines by their first word, in the order the words first came. -/
def storedSettings (lines : List Text) : List MoatSetting :=
  let kind (ln : Text) : Option Text := (fields ln).head?.map fun w => net.toLower w.val
  (lines.filterMap kind).eraseDups.filterMap fun t =>
    let good := moatLines net r (lines.filter fun ln => kind ln = some t) t
    if good = [] then none else some ⟨t, "bridgedb".toList, good⟩

def Engine.takeBuiltin (e : Engine) (today week : Int) :
    Option (Text × Int × (Text → List Text)) → Engine
  | none => e
  | some (base, day, lines) =>
    if base = r.builtinBase ∧ day ≤ today ∧ day > today - 4 * week then
      { e with builtinFresh := acceptRefreshed net r lines }
    else e

def Engine.takeMoat (e : Engine) (today week : Int) : Option (Int × List Text) → Engine
  | none => e
  | some (day, lines) =>
    if day ≤ today ∧ day > today - week ∧ storedSettings net r lines ≠ [] then
      { e with moatSettings := storedSettings net r lines }
    else e

def bridgeCacheIn (e : Engine) (today week : Int) (w : Cache) : Engine :=
  if w.v ≠ 2 then e
  else (e.takeBuiltin net r today week w.builtin).takeMoat net r today week w.moat

inductive Event
  | refreshed (reply : Text → List Text)
  | settings (reply : List MoatSetting)
  | dropped
  | stored (today week : Int) (cache : Cache)

def Engine.on (e : Engine) : Event → Engine
  | .refreshed reply => { e with builtinFresh := acceptRefreshed net r reply }
  | .settings reply => { e with moatSettings := parseMoatSettings net r e.builtinFresh reply }
  | .dropped => { e with moatSettings := [] }
  | .stored today week cache => bridgeCacheIn net r e today week cache

/-! ## Every path -/

variable {net} {r} {t type ln : Text} {b : Line net}

/-- On the review list, in any letters and with or without the dot of a full name. -/
def Release.Lists (r : Release) (net : Net) (host : Text) : Prop :=
  ∃ name, r.reviewedHosts name = true ∧ net.toLower host ∈ [name, name ++ ['.']]

def Line.Carries (b : Line net) (key : String) (v : Text) : Prop :=
  ∃ w ∈ b.kv, argKey w.val = key.toList ∧ argValue w.val = v

/-- A line's arguments are of its transport, and each host they name is on the review list. -/
structure Reviewed (r : Release) (b : Line net) : Prop where
  args : ∀ w ∈ b.kv, String.ofList (argKey w.val) ∈ builtinArgs b.transport
  url : ∀ v, b.Carries "url" v →
    ∃ scheme host, net.parseURL v = some (scheme, host) ∧ r.Lists net (hostname host)
  servername : ∀ v, b.Carries "servername" v → r.Lists net v
  front : ∀ key ∈ ["front", "fronts"], ∀ v, b.Carries key v → ∀ host ∈ splitList v, r.Lists net host
  ice : ∀ v, b.Carries "ice" v → ∀ one ∈ splitList v, ∃ server host port,
    net.toLower one =
      (if startsWith "stun:" (net.toLower one) then "stun:".toList else []) ++ server ∧
    splitHostPort server = some (host, port) ∧ r.Lists net host

/-- A line that may be given out under a type: a snowflake line has reviewed hosts only, and, so far
as `own` says, it is of the type. -/
def Given (net : Net) (r : Release) (own : Prop) (type ln : Text) : Prop :=
  ∃ b, checkBridgeLine net ln = .ok b ∧ (b.transport = .snowflake → Reviewed r b) ∧
    (own → ∀ t : Transport, t.name = type → b.transport = t)

/-- Each bundled line stands under its own transport. -/
def Release.Own (r : Release) (net : Net) : Prop :=
  ∀ t, ∀ ln ∈ r.builtinBundled t, ∀ b, parseBridgeLine net ln = .ok b → b.transport.name = t

/-- A line that may stand for a bundled one: reviewed, with a bundled line's fingerprint and
address, and with its transport where the bundle is in order. -/
def Stands (net : Net) (r : Release) (t ln : Text) (fp : Option Word) : Prop :=
  ∃ b, checkBridgeLine net ln = .ok b ∧ b.fp = fp ∧ Reviewed r b ∧
    ∃ bundled ∈ r.builtinBundled t, ∃ o, parseBridgeLine net bundled = .ok o ∧ SameBridge o b ∧
      (r.Own net → b.transport.name = t ∧ o.transport = b.transport)

theorem lists_of_hostAllowed {h : Text} (allowed : hostAllowed net r h = true) : r.Lists net h := by
  refine ⟨_, allowed, ?_⟩
  split
  next dot =>
    obtain ⟨before, rfl⟩ := getLast?_eq_some_iff.mp dot
    rw [dropLast_concat, Net.toLower, Net.toLower, map_append]
    exact mem_cons_of_mem _ mem_cons_self
  · exact mem_cons_self

theorem exists_of_mapM {α β : Type} {f : α → Option β} {l : List α} {ys : List β}
    (read : l.mapM f = some ys) {x : α} (member : x ∈ l) : ∃ y ∈ ys, f x = some y := by
  induction l generalizing ys with
  | nil => cases member
  | cons first l ih =>
    simp only [mapM_cons, Option.bind_eq_bind, Option.bind_eq_some_iff, Option.pure_def,
      Option.some.injEq] at read
    obtain ⟨here, found, later, rest, rfl⟩ := read
    rcases mem_cons.mp member with rfl | inside
    · exact ⟨here, mem_cons_self, found⟩
    · obtain ⟨y, listed, same⟩ := ih rest inside
      exact ⟨y, mem_cons_of_mem _ listed, same⟩

theorem argHosts_of_hostsAllowed (allowed : hostsAllowed r b = true) {w : Word}
    (member : w ∈ b.kv) : String.ofList (argKey w.val) ∈ builtinArgs b.transport ∧
      ∃ hosts, argHosts net w = some hosts ∧ ∀ h ∈ hosts, r.Lists net h := by
  unfold hostsAllowed lineHosts at allowed
  split at allowed
  · cases allowed
  next hosts read =>
    split at read
    next keys =>
      obtain ⟨each, taken, rfl⟩ := Option.map_eq_some_iff.mp read
      obtain ⟨here, listed, found⟩ := exists_of_mapM taken member
      exact ⟨keys w member, here, found, fun h inside => lists_of_hostAllowed
        (all_eq_true.mp allowed h (mem_flatten.mpr ⟨here, listed, inside⟩))⟩
    · cases read

theorem reviewed_of_hostsAllowed (allowed : hostsAllowed r b = true) : Reviewed r b := by
  have each {key : String} {v : Text} (carries : b.Carries key v) : ∃ w hosts,
      String.ofList (argKey w.val) = key ∧ argValue w.val = v ∧ argHosts net w = some hosts ∧
        ∀ h ∈ hosts, r.Lists net h := by
    obtain ⟨w, member, named, value⟩ := carries
    obtain ⟨-, hosts, read, listed⟩ := argHosts_of_hostsAllowed allowed member
    exact ⟨w, hosts, by rw [named, String.ofList_toList], value, read, listed⟩
  refine ⟨fun w member => (argHosts_of_hostsAllowed allowed member).1, fun v carries => ?_,
    fun v carries => ?_, fun key isFront v carries => ?_, fun v carries one member => ?_⟩
  · obtain ⟨w, hosts, named, rfl, read, listed⟩ := each carries
    simp only [argHosts, named, if_true, Option.ite_none_left_eq_some, Option.some.injEq] at read
    obtain ⟨some_, rfl⟩ := read
    unfold urlHost at some_ listed
    split at some_
    · exact absurd rfl some_
    next scheme host parsed =>
      rw [parsed] at listed
      exact ⟨scheme, host, parsed, listed _ mem_cons_self⟩
  · obtain ⟨w, hosts, named, rfl, read, listed⟩ := each carries
    simp only [argHosts, named, String.reduceEq, if_false, if_true, Option.some.injEq] at read
    exact listed _ (read ▸ mem_cons_self)
  · obtain ⟨w, hosts, named, rfl, read, listed⟩ := each carries
    have isFront' : key = "front" ∨ key = "fronts" := by simpa using isFront
    have other : key ≠ "url" ∧ key ≠ "servername" := by
      rcases isFront' with rfl | rfl <;> decide
    simp only [argHosts, named, other.1, other.2, isFront', if_false, if_true,
      Option.some.injEq] at read
    exact fun host member => listed host (read ▸ member)
  · obtain ⟨w, hosts, named, rfl, read, listed⟩ := each carries
    simp only [argHosts, named, String.reduceEq, or_self, if_false, if_true] at read
    obtain ⟨host, inside, found⟩ := exists_of_mapM read member
    obtain ⟨⟨host, port⟩, split, rfl⟩ := Option.map_eq_some_iff.mp found
    refine ⟨_, host, port, ?_, split, listed host inside⟩
    split_ifs with stun
    · obtain ⟨server, eq⟩ := isPrefixOf_iff_prefix.mp stun
      rw [← eq]
      rfl
    · rfl

theorem builtinLineOK_eq_some (fine : builtinLineOK net r ln = some b) :
    checkBridgeLine net (normaliseBridgeLine net ln).1 = .ok b ∧ Reviewed r b := by
  unfold builtinLineOK at fine
  split at fine
  · cases fine
  next b' checked =>
    split at fine
    next allowed =>
      cases fine
      exact ⟨checked, reviewed_of_hostsAllowed allowed.2⟩
    · cases fine

theorem parseBridgeLine_checked (checked : checkBridgeLine net ln = .ok b) :
    parseBridgeLine net ln = .ok b := by
  unfold checkBridgeLine at checked
  split at checked
  · cases checked
  · split at checked
    · cases checked
    next b' parsed _ _ => rw [parsed, checked]

/-! ## The transport of a line -/

theorem name_injective {t t' : Transport} (same : t.name = t'.name) : t = t' := by
  simpa [ofName_name] using congrArg Transport.ofName same

theorem transport_of_parseBridgeLine {w : Word} {f : List Word} (plain : ':' ∉ w.val)
    (parsed : parseBridgeLine net (unwords (w :: f)) = .ok b) :
    b.transport.name = net.toLower w.val := by
  rw [parseBridgeLine, trimSpace_unwords (cons_ne_nil w f), fields_unwords, withTransport,
    splitHostPort_eq_none plain] at parsed
  cases f with
  | nil => cases parsed
  | cons addr rest =>
    simp only [Option.isSome_none, Bool.false_eq_true, if_false, parseNamed] at parsed
    split at parsed
    · cases parsed
    next transport named =>
      have is := find?_some named
      repeat' split at parsed
      all_goals cases parsed
      simpa using is

theorem lowerChar_of_foldChar {c x : Char} (same : foldChar r c = x) (ascii : x.toNat < 128)
    (s : x ≠ 's') (k : x ≠ 'k') : net.lowerChar c = x := by
  unfold foldChar at same
  unfold Net.lowerChar
  split at same
  next small => rw [if_pos small, same]
  · split at same
    · exact absurd same.symm s
    · split at same
      · exact absurd same.symm k
      · have := (r.orbit c).2
        rw [same] at this
        omega

/-- Folding can take another letter for an `s` or a `k`, but no other second letter of a name. -/
theorem eq_of_equalFold {w : Text} {t t' : Transport} (fold : equalFold r w t.name = true)
    (lower : t'.name = net.toLower w) : t' = t := by
  rw [equalFold, decide_eq_true_eq] at fold
  have second {x : Char} (here : t.name[1]? = some x) (plain : foldChar r x = x)
      (ascii : x.toNat < 128 ∧ x ≠ 's' ∧ x ≠ 'k') : t'.name[1]? = some x := by
    have same : w[1]?.map (foldChar r) = some x := by
      rw [← getElem?_map, fold, getElem?_map, here, Option.map_some, plain]
    obtain ⟨c, found, same⟩ := Option.map_eq_some_iff.mp same
    rw [lower, Net.toLower, getElem?_map, found, Option.map_some,
      lowerChar_of_foldChar same ascii.1 ascii.2.1 ascii.2.2]
  cases t <;> cases t' <;> first
    | rfl
    | exact absurd (second rfl rfl (by decide)) (by decide)

/-! ## Lines from moat and built-in lines -/

variable {own : Prop}

theorem given_of_moatLineOK (fine : moatLineOK net r (normaliseBridgeLine net ln).1 = true)
    (named : ∀ b t, parseBridgeLine net ln = .ok b → t.name = type → b.transport = t) :
    Given net r own type (normaliseBridgeLine net ln).1 := by
  unfold moatLineOK at fine
  split at fine
  · cases fine
  next b checked =>
    obtain ⟨o, parsed, rfl, -, -⟩ := normal_of_checkBridgeLine checked
    refine ⟨o.normal, checked, fun snowflake => ?_, fun _ t => named o t parsed⟩
    exact reviewed_of_hostsAllowed (by simpa [snowflake] using fine)

theorem given_of_mem_moatLines {raw : List Text} (member : ln ∈ moatLines net r raw type) :
    Given net r own type ln := by
  obtain ⟨b', -, taken⟩ := mem_filterMap.mp member
  split at taken
  · cases taken
  next w f _ =>
    simp only [Option.ite_none_left_eq_some, Option.ite_none_right_eq_some,
      Option.some.injEq] at taken
    obtain ⟨kept, fine, rfl⟩ := taken
    refine given_of_moatLineOK fine ?_
    rintro b t parsed rfl
    have plain : ':' ∉ t.name := by cases t <;> decide
    split at parsed
    next known =>
      have fold : equalFold r w.val t.name = true := by
        by_contra other
        exact kept (.inr ⟨known, by simpa using other⟩)
      refine eq_of_equalFold fold (transport_of_parseBridgeLine (fun colon => plain ?_) parsed)
      have kept : t.name.map (foldChar r) = t.name := by cases t <;> rfl
      rw [equalFold, kept, decide_eq_true_eq] at fold
      exact fold ▸ mem_map_of_mem (f := foldChar r) colon
    · have named := transport_of_parseBridgeLine (w := t.word) (f := w :: f) plain parsed
      rw [Transport.word, toLower_name] at named
      exact name_injective named

theorem stands_of_mem_acceptRefreshed {reply : Text → List Text}
    (member : ln ∈ acceptRefreshed net r reply t) : ∃ fp, Stands net r t ln fp := by
  unfold acceptRefreshed at member
  split at member
  · cases member
  obtain ⟨raw, -, taken⟩ := mem_filterMap.mp member
  split at taken
  · cases taken
  next b fine =>
    split at taken
    next same =>
      cases taken
      obtain ⟨rfl, found⟩ := same
      obtain ⟨checked, reviewed⟩ := builtinLineOK_eq_some fine
      obtain ⟨bundled, inside, found⟩ := any_eq_true.mp found
      split at found
      · cases found
      next o parsed =>
        exact ⟨b.fp, b, checked, rfl, reviewed, bundled, inside, o, parsed,
          of_decide_eq_true found, fun own => ⟨rfl, name_injective (own _ _ inside o parsed)⟩⟩
    · cases taken

theorem stands_builtinUse {fresh : List Text} {use : Text}
    (each : ∀ f ∈ fresh, ∃ fp, Stands net r t f fp) (stands : Stands net r t use b.fp) :
    Stands net r t (builtinUse net fresh b use) b.fp := by
  induction fresh generalizing use with
  | nil => exact stands
  | cons f fresh ih =>
    refine ih (fun f later => each f (mem_cons_of_mem _ later)) ?_
    obtain ⟨_, o, checked, rfl, rest⟩ := each f mem_cons_self
    dsimp only
    rw [parseBridgeLine_checked checked]
    dsimp only
    split
    next same => exact ⟨o, checked, same, rest⟩
    · exact stands

theorem forall₂_filterMap {α β γ : Type} {ok : α → Option β} {use : α → β → γ} {R : α → γ → Prop}
    {l : List α} (each : ∀ a ∈ l, ∀ b, ok a = some b → R a (use a b)) :
    Forall₂ R (l.filter fun a => (ok a).isSome) (l.filterMap fun a => (ok a).map (use a)) := by
  induction l with
  | nil => exact .nil
  | cons a l ih =>
    have rest := ih fun a later => each a (mem_cons_of_mem _ later)
    cases here : ok a with
    | none => simpa [here] using rest
    | some b => simpa [here] using ⟨each a mem_cons_self b here, rest⟩

theorem stands_builtinLine {fresh : List Text}
    (each : ∀ f ∈ fresh, ∃ fp, Stands net r t f fp) (member : ln ∈ r.builtinBundled t)
    (fine : builtinLineOK net r ln = some b) :
    Stands net r t (builtinUse net fresh b (normaliseBridgeLine net ln).1) b.fp := by
  obtain ⟨checked, reviewed⟩ := builtinLineOK_eq_some fine
  obtain ⟨o, parsed, rfl, -, -⟩ := normal_of_checkBridgeLine checked
  exact stands_builtinUse each ⟨o.normal, checked, rfl, reviewed, ln, member, o, parsed, ⟨rfl, rfl⟩,
    fun own => ⟨own t ln member o parsed, rfl⟩⟩

theorem given_of_stands {fp : Option Word} (stands : Stands net r t ln fp) :
    Given net r (r.Own net) t ln := by
  obtain ⟨b, checked, _, reviewed, _, _, _, _, _, named⟩ := stands
  exact ⟨b, checked, fun _ => reviewed, fun own t same =>
    name_injective ((named own).1.trans same.symm)⟩

/-! ## Runs -/

variable (net r) in
structure Engine.Sound (e : Engine) : Prop where
  fresh : ∀ t, ∀ f ∈ e.builtinFresh t, ∃ fp, Stands net r t f fp
  settings : ∀ s ∈ e.moatSettings, ∀ ln ∈ s.lines, Given net r (r.Own net) s.type ln

theorem given_of_mem_parseMoatSettings {e : Engine} (sound : e.Sound net r)
    {list : List MoatSetting} {s : MoatSetting}
    (member : s ∈ parseMoatSettings net r e.builtinFresh list) :
    ∀ ln ∈ s.lines, Given net r (r.Own net) s.type ln := by
  obtain ⟨wire, -, taken⟩ := mem_filterMap.mp member
  simp only [Option.ite_none_left_eq_some, Option.some.injEq] at taken
  obtain ⟨-, -, rfl⟩ := taken
  intro ln inside
  split at inside
  · obtain ⟨bundled, member, made⟩ := mem_filterMap.mp inside
    obtain ⟨b, fine, rfl⟩ := Option.map_eq_some_iff.mp made
    exact given_of_stands (stands_builtinLine (sound.fresh _) member fine)
  · split at inside
    · exact given_of_mem_moatLines inside
    · cases inside

theorem given_of_mem_storedSettings {lines : List Text} {s : MoatSetting}
    (member : s ∈ storedSettings net r lines) :
    ∀ ln ∈ s.lines, Given net r own s.type ln := by
  obtain ⟨t, -, taken⟩ := mem_filterMap.mp member
  simp only [Option.ite_none_left_eq_some, Option.some.injEq] at taken
  obtain ⟨-, rfl⟩ := taken
  exact fun ln => given_of_mem_moatLines

namespace Engine.Sound

variable {e : Engine}

theorem takeBuiltin (sound : e.Sound net r) (today week : Int)
    (stored : Option (Text × Int × (Text → List Text))) :
    (e.takeBuiltin net r today week stored).Sound net r := by
  fun_cases Engine.takeBuiltin
  · exact sound
  · exact ⟨fun t f => stands_of_mem_acceptRefreshed, sound.settings⟩
  · exact sound

theorem takeMoat (sound : e.Sound net r) (today week : Int) (stored : Option (Int × List Text)) :
    (e.takeMoat net r today week stored).Sound net r := by
  fun_cases Engine.takeMoat
  · exact sound
  · exact ⟨sound.fresh, fun s => given_of_mem_storedSettings⟩
  · exact sound

theorem on (sound : e.Sound net r) (event : Event) :
    (e.on net r event).Sound net r := by
  cases event with
  | refreshed reply => exact ⟨fun t f => stands_of_mem_acceptRefreshed, sound.settings⟩
  | settings reply => exact ⟨sound.fresh, fun s => given_of_mem_parseMoatSettings sound⟩
  | dropped => exact ⟨sound.fresh, nofun⟩
  | stored today week cache =>
    unfold Engine.on bridgeCacheIn
    dsimp only
    split
    · exact sound
    · exact (sound.takeBuiltin today week _).takeMoat today week _

theorem foldl (sound : e.Sound net r) (events : List Event) :
    (events.foldl (Engine.on net r) e).Sound net r := by
  induction events generalizing e with
  | nil => exact sound
  | cons event events ih => exact ih (sound.on event)

end Engine.Sound

/-- Whatever is bundled, refreshed, asked for, dropped and read back: a snowflake line of the
settings, of the captcha and of the cache has reviewed hosts only, and each usable bundled line
gives one reviewed built-in line that is some bundled line's bridge.  The captcha's lines are of the
transport they stand under, and so are the others where each bundled line is. -/
theorem reviewed_run (events : List Event) :
    let e := events.foldl (Engine.on net r) {}
    (∀ reply, ∀ s ∈ e.moatSettings ++ parseMoatSettings net r e.builtinFresh reply,
      ∀ ln ∈ s.lines, Given net r (r.Own net) s.type ln) ∧
    (∀ raw t, ∀ ln ∈ moatLines net r raw t, Given net r True t ln) ∧
    ∀ t, Forall₂ (fun ln given => ∃ b, builtinLineOK net r ln = some b ∧ Stands net r t given b.fp)
      ((r.builtinBundled t).filter fun ln => (builtinLineOK net r ln).isSome)
      (builtinLines net r e.builtinFresh t) := by
  have sound : (events.foldl (Engine.on net r) {}).Sound net r :=
    Engine.Sound.foldl ⟨by simp, by simp⟩ events
  refine ⟨fun reply s member => ?_, fun raw t ln => given_of_mem_moatLines, fun t => ?_⟩
  · rcases mem_append.mp member with cached | asked
    · exact sound.settings s cached
    · exact given_of_mem_parseMoatSettings sound asked
  · exact forall₂_filterMap fun ln member b fine =>
      ⟨b, fine, stands_builtinLine (sound.fresh t) member fine⟩

def someFp : Text := replicate 40 'A'

def snowflake : Text :=
  "snowflake 192.0.2.3:80 ".toList ++ someFp ++ " fingerprint=".toList ++ someFp ++
    " url=u front=f ice=stun:s:3478".toList

def brokerNet : Net := { anyNet with parseURL := fun u => some ("https".toList, u) }

/-- A release with one snowflake line, under the name given. -/
def oneLine (type : Text) : Release where
  reviewedHosts h := h ∈ ["u".toList, "f".toList, "s".toList]
  builtinBundled t := if t = type then [snowflake] else []
  builtinBase := []
  orbit _ := ⟨'é', by decide⟩

/-- Refreshed lines, then settings of both sources, with a line of another host among them. -/
def someEvents : List Event :=
  [.refreshed fun _ => [snowflake], .settings [⟨"Snowflake".toList, "builtin".toList, []⟩,
    ⟨"snowflake".toList, "bridgedb".toList, [snowflake ++ ",stun:x:1".toList, snowflake]⟩]]

theorem reviewed_run_someEvents :
    let r := oneLine Transport.snowflake.name
    let e := someEvents.foldl (Engine.on brokerNet r) {}
    e.moatSettings.map MoatSetting.lines = [[snowflake], [snowflake]] ∧
      ∀ s ∈ e.moatSettings, ∀ ln ∈ s.lines, Given brokerNet r (r.Own brokerNet) s.type ln :=
  ⟨by decide +kernel, fun s inside => (reviewed_run someEvents).1 [] s (mem_append_left _ inside)⟩

/-- Bundled under another name, the line is given out under that name. -/
theorem not_given_oneLine :
    ¬∀ ln ∈ builtinLines brokerNet (oneLine Transport.obfs4.name) (fun _ => [])
      Transport.obfs4.name,
        Given brokerNet (oneLine Transport.obfs4.name) True Transport.obfs4.name ln := by
  intro all
  obtain ⟨b, checked, -, named⟩ := all snowflake (by decide +kernel)
  have other : (checkBridgeLine brokerNet snowflake).toOption.map (·.transport) =
      some .snowflake := by decide +kernel
  rw [checked] at other
  cases (named trivial .obfs4 rfl).symm.trans (Option.some.inj other)

end Kryfo.Bridges
