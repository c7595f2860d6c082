import Mathlib.Data.Char
import Mathlib.Data.List.Lex
import Mathlib.Data.List.Sort
import Kryfo.Bridges.Reviewed
import Kryfo.Library.Keyed

/-!
# Bridges kept between two starts

`bridgeCacheOut` writes the refreshed lines and moat's lines in use with the day they came, and
`bridgeCacheIn` checks them again, which leaves a line it took before as it stands.
-/

namespace Kryfo.Bridges

open Library List

/-- Days since 1970 of a time in seconds. -/
def dayOf (t : Int) : Int := t.tdiv 86400

def moatSettingsCached (e : Engine) (now week : Int) : Option Int → List MoatSetting
  | none => []
  | some settingsAt => if now - settingsAt ≥ week * 86400 then [] else e.moatSettings

def linesInUse (settings : List MoatSetting) (inUse : List Text) : List Text :=
  (settings.filter (·.source = "bridgedb".toList)).flatMap (·.lines.filter (· ∈ inUse))

/-- `bridgeCacheOut`.  Strings are sorted by their bytes, which keeps the order of the code points. -/
def bridgeCacheOut (r : Release) (e : Engine) (builtinFreshAt moatSettingsAt : Option Int)
    (inUse : List Text) (now week : Int) : Cache where
  v := 2
  builtin := builtinFreshAt.map fun t => (r.builtinBase, dayOf t, e.builtinFresh)
  moat := moatSettingsAt.bind fun t =>
    let lines := linesInUse (moatSettingsCached e now week moatSettingsAt) inUse
    if lines = [] then none else some (dayOf t, lines.insertionSort (· ≤ ·))

/-- The states of an engine that reads back what it wrote, on one release. -/
inductive Lived (net : Net) (r : Release) : Engine → Prop
  | first : Lived net r {}
  | on {e : Engine} (lived : Lived net r e) {event : Event}
      (live : ∀ today week cache, event ≠ .stored today week cache) : Lived net r (e.on net r event)
  | readBack {e here : Engine} (wrote : Lived net r e) (lived : Lived net r here)
      (builtinFreshAt moatSettingsAt : Option Int) (inUse : List Text) (now today week : Int) :
      Lived net r (bridgeCacheIn net r here today week
        (bridgeCacheOut r e builtinFreshAt moatSettingsAt inUse now week))

variable {net : Net} {r : Release} {t ln : Text} {b : Line net}

/-! ## Refreshed lines -/

theorem builtinLineOK_text (fine : builtinLineOK net r ln = some b) :
    (normaliseBridgeLine net ln).1 = b.text ∧ normaliseBridgeLine net b.text = (b.text, false) ∧
      builtinLineOK net r b.text = some b := by
  obtain ⟨text, isFine⟩ := fine_of_checkBridgeLine (builtinLineOK_eq_some fine).1
  refine ⟨text, normaliseBridgeLine_text isFine, ?_⟩
  rw [builtinLineOK, text] at fine
  rw [builtinLineOK, normaliseBridgeLine_text isFine]
  exact fine

theorem acceptRefreshed_acceptRefreshed (reply : Text → List Text) :
    acceptRefreshed net r (acceptRefreshed net r reply) = acceptRefreshed net r reply := by
  funext t
  unfold acceptRefreshed
  split
  · rfl
  rw [filterMap_filterMap]
  refine filterMap_congr fun ln _ => ?_
  cases fine : builtinLineOK net r ln with
  | none => rfl
  | some b =>
    obtain ⟨text, same, again⟩ := builtinLineOK_text fine
    dsimp only
    split
    next own => simp [text, same, again, own]
    · rfl

/-! ## Lines of moat -/

/-- A line of a transport in the form it is kept in, as moat's lines are checked. -/
def Kept (net : Net) (r : Release) (t ln : Text) : Prop :=
  t ∈ ptNames ∧ moatLineOK net r ln = true ∧
    ∃ b : Line net, b.Fine ∧ b.text = ln ∧ b.transport.name = t

theorem kept_of_mem_moatLines {raw : List Text} (known : t ∈ ptNames)
    (member : ln ∈ moatLines net r raw t) : Kept net r t ln := by
  obtain ⟨b, checked, -, named⟩ : Given net r True t ln := given_of_mem_moatLines member
  obtain ⟨transport, rfl⟩ : ∃ transport : Transport, transport.name = t := by
    simp only [ptNames, mem_cons, not_mem_nil, or_false] at known
    rcases known with rfl | rfl | rfl <;> exact ⟨_, rfl⟩
  obtain ⟨raw, -, taken⟩ := mem_filterMap.mp member
  split at taken
  · cases taken
  simp only [Option.ite_none_left_eq_some, Option.ite_none_right_eq_some,
    Option.some.injEq] at taken
  obtain ⟨-, fine, rfl⟩ := taken
  obtain ⟨text, isFine⟩ := fine_of_checkBridgeLine checked
  exact ⟨known, fine, b, isFine, text.symm, congrArg Transport.name (named trivial transport rfl)⟩

theorem Kept.fields (kept : Kept net r t ln) :
    ∃ w f, fields ln = w :: f ∧ w.val = t ∧ unwords (w :: f) = ln := by
  obtain ⟨known, -, b, -, rfl, rfl⟩ := kept
  have words : b.words = b.transport.word :: b.addr :: (b.fp.toList ++ b.kv) := by
    unfold Line.words
    rw [if_neg]
    · rfl
    · intro vanilla
      rw [vanilla] at known
      revert known
      decide
  refine ⟨_, _, (fields_unwords _).trans words, rfl, ?_⟩
  rw [← words]
  rfl

theorem moatLines_eq_self {lines : List Text} (kept : ∀ ln ∈ lines, Kept net r t ln) :
    moatLines net r lines t = lines := by
  refine (filterMap_congr fun ln member => ?_).trans filterMap_some
  obtain ⟨w, f, cut, rfl, text⟩ := (kept ln member).fields
  obtain ⟨known, taken, b, fine, rfl, -⟩ := kept ln member
  have same : equalFold r w.val w.val = true := decide_eq_true rfl
  have known' : ptNames.any (equalFold r w.val) = true := any_eq_true.mpr ⟨_, known, same⟩
  rw [cut]
  simp [known', same, text, normaliseBridgeLine_text fine, taken, w.2.1]

def kind (net : Net) (ln : Text) : Option Text :=
  (fields ln).head?.map fun w => net.toLower w.val

theorem Kept.kind (kept : Kept net r t ln) : kind net ln = some t := by
  obtain ⟨w, f, cut, named, -⟩ := kept.fields
  obtain ⟨-, -, b, -, -, rfl⟩ := kept
  rw [Bridges.kind, cut, head?_cons, Option.map_some, named, toLower_name]

section Stored

variable {lines : List Text} (kept : ∀ ln ∈ lines, ∃ t, Kept net r t ln)
include kept

theorem kept_of_kind (member : ln ∈ lines) (isKind : kind net ln = some t) : Kept net r t ln := by
  obtain ⟨t', kept⟩ := kept ln member
  rwa [← Option.some.inj (kept.kind.symm.trans isKind)]

theorem kept_of_mem_storedSettings {s : MoatSetting} (member : s ∈ storedSettings net r lines)
    (inside : ln ∈ s.lines) : Kept net r s.type ln := by
  obtain ⟨t, named, taken⟩ := mem_filterMap.mp member
  simp only [Option.ite_none_left_eq_some, Option.some.injEq] at taken
  obtain ⟨-, rfl⟩ := taken
  obtain ⟨first, there, isKind⟩ := mem_filterMap.mp (mem_eraseDups.mp named)
  exact kept_of_mem_moatLines (kept_of_kind kept there isKind).1 inside

theorem storedSettings_perm : ((storedSettings net r lines).flatMap (·.lines)).Perm lines := by
  have named : ∀ ln ∈ lines, (kind net ln).isSome = true := fun ln member => by
    obtain ⟨t, kept⟩ := kept ln member
    rw [kept.kind, Option.isSome_some]
  refine .trans (.of_eq ?_) (flatMap_filter_perm lines named)
  rw [storedSettings, filterMap_eq_flatMap_toList, flatMap_assoc]
  unfold kind
  refine flatMap_congr fun t _ => ?_
  have good := moatLines_eq_self fun ln inside =>
    kept_of_kind (t := t) kept (mem_of_mem_filter inside) (of_decide_eq_true (mem_filter.mp inside).2)
  unfold kind at good
  dsimp only
  rw [good]
  split
  next none => exact none.symm
  · exact append_nil _

end Stored

/-! ## Reading back -/

variable (net r) in
structure Engine.Settled (e : Engine) : Prop where
  fresh : acceptRefreshed net r e.builtinFresh = e.builtinFresh
  settings : ∀ s ∈ e.moatSettings, s.source = "bridgedb".toList →
    ∀ ln ∈ s.lines, Kept net r s.type ln

theorem mem_linesInUse {settings : List MoatSetting} {inUse : List Text} :
    ln ∈ linesInUse settings inUse ↔
      ln ∈ inUse ∧ ∃ s ∈ settings, s.source = "bridgedb".toList ∧ ln ∈ s.lines := by
  simp only [linesInUse, mem_flatMap, mem_filter, decide_eq_true_eq]
  grind

namespace Engine.Settled

variable {e here : Engine} {builtinFreshAt moatSettingsAt : Option Int} {inUse : List Text}
  {now today week : Int}

theorem kept (settled : e.Settled net r)
    (member : ln ∈ linesInUse (moatSettingsCached e now week moatSettingsAt) inUse) :
    ∃ t, Kept net r t ln := by
  obtain ⟨-, s, cached, source, inside⟩ := mem_linesInUse.mp member
  refine ⟨s.type, settled.settings s ?_ source ln inside⟩
  unfold moatSettingsCached at cached
  split at cached
  · cases cached
  · split at cached
    · cases cached
    · exact cached

theorem on (settled : e.Settled net r) {event : Event}
    (live : ∀ today week cache, event ≠ .stored today week cache) :
    (e.on net r event).Settled net r := by
  cases event with
  | refreshed reply => exact ⟨acceptRefreshed_acceptRefreshed reply, settled.settings⟩
  | settings reply =>
    refine ⟨settled.fresh, fun s member source ln inside => ?_⟩
    obtain ⟨wire, -, taken⟩ := mem_filterMap.mp member
    simp only [Option.ite_none_left_eq_some, Option.some.injEq, not_not] at taken
    obtain ⟨known, -, rfl⟩ := taken
    dsimp only at source inside ⊢
    rw [if_neg (by rw [source]; decide), if_pos source] at inside
    exact kept_of_mem_moatLines known inside
  | dropped => exact ⟨settled.fresh, nofun⟩
  | stored today week cache => exact absurd rfl (live today week cache)

theorem takeBuiltin (settled : here.Settled net r)
    (stored : Option (Text × Int × (Text → List Text))) :
    (here.takeBuiltin net r today week stored).Settled net r := by
  fun_cases Engine.takeBuiltin
  · exact settled
  · exact ⟨acceptRefreshed_acceptRefreshed _, settled.settings⟩
  · exact settled

theorem takeMoat (settled : here.Settled net r) {stored : Option (Int × List Text)}
    (kept : ∀ day lines, stored = some (day, lines) → ∀ ln ∈ lines, ∃ t, Kept net r t ln) :
    (here.takeMoat net r today week stored).Settled net r := by
  fun_cases Engine.takeMoat
  · exact settled
  next day lines _ =>
    exact ⟨settled.fresh, fun s member _ ln => kept_of_mem_storedSettings (kept day lines rfl) member⟩
  · exact settled

theorem kept_moat (settled : e.Settled net r) {day : Int} {lines : List Text}
    (wrote : (bridgeCacheOut r e builtinFreshAt moatSettingsAt inUse now week).moat =
      some (day, lines)) : ∀ ln ∈ lines, ∃ t, Kept net r t ln := by
  obtain ⟨t, -, wrote⟩ := Option.bind_eq_some_iff.mp wrote
  dsimp only at wrote
  split at wrote
  · cases wrote
  · cases wrote
    exact fun ln member => settled.kept ((perm_insertionSort _ _).mem_iff.mp member)

theorem readBack (wrote : e.Settled net r) (settled : here.Settled net r) :
    (bridgeCacheIn net r here today week
      (bridgeCacheOut r e builtinFreshAt moatSettingsAt inUse now week)).Settled net r :=
  (settled.takeBuiltin _).takeMoat fun _ _ => wrote.kept_moat

theorem of_lived (lived : Lived net r e) : e.Settled net r := by
  induction lived with
  | first => exact ⟨funext fun t => by simp [acceptRefreshed], nofun⟩
  | on _ live settled => exact settled.on live
  | readBack _ _ _ _ _ _ _ _ wrote settled => exact wrote.readBack settled

end Engine.Settled

theorem builtinFresh_takeMoat (e : Engine) (today week : Int) (stored : Option (Int × List Text)) :
    (e.takeMoat net r today week stored).builtinFresh = e.builtinFresh := by
  fun_cases Engine.takeMoat <;> rfl

section Lived

variable {e here : Engine} {cameAt now today week : Int}

/-- Within four weeks the refreshed lines come back as they were. -/
theorem builtinFresh_readBack (lived : Lived net r e) (past : dayOf cameAt ≤ today)
    (recent : today - 4 * week < dayOf cameAt) (moatSettingsAt : Option Int) (inUse : List Text) :
    (bridgeCacheIn net r here today week
      (bridgeCacheOut r e (some cameAt) moatSettingsAt inUse now week)).builtinFresh =
        e.builtinFresh := by
  refine (builtinFresh_takeMoat _ _ _ _).trans ?_
  unfold bridgeCacheOut Engine.takeBuiltin
  rw [Option.map_some]
  dsimp only
  rw [if_pos ⟨rfl, past, recent⟩]
  exact (Engine.Settled.of_lived lived).fresh

theorem builtinFresh_readBack_oneLine :
    let r := oneLine Transport.snowflake.name
    let e := Engine.on brokerNet r {} (.refreshed fun _ => [snowflake])
    e.builtinFresh Transport.snowflake.name = [snowflake] ∧
      (bridgeCacheIn brokerNet r {} 20 7 (bridgeCacheOut r e (some 0) none [] 0 7)).builtinFresh =
        e.builtinFresh :=
  ⟨by decide +kernel, builtinFresh_readBack (.on .first (by simp)) (by decide) (by decide) none []⟩

theorem moatSettings_takeBuiltin (e : Engine) (today week : Int)
    (stored : Option (Text × Int × (Text → List Text))) :
    (e.takeBuiltin net r today week stored).moatSettings = e.moatSettings := by
  fun_cases Engine.takeBuiltin <;> rfl

/-- Moat's lines in use are written sorted, with the day they came.  Within a week they come back at
the next start as they were, each under the transport it names. -/
theorem moatSettings_readBack (lived : Lived net r e) (fresh : now - cameAt < week * 86400)
    (past : dayOf cameAt ≤ today) (recent : today - week < dayOf cameAt)
    (builtinFreshAt : Option Int) (inUse : List Text) :
    let written := bridgeCacheOut r e builtinFreshAt (some cameAt) inUse now week
    let back := (bridgeCacheIn net r {} today week written).moatSettings
    (∀ day lines, written.moat = some (day, lines) → day = dayOf cameAt ∧
      lines.Pairwise (· ≤ ·) ∧ lines.Perm (linesInUse e.moatSettings inUse)) ∧
    (back.flatMap (·.lines)).Perm (linesInUse e.moatSettings inUse) ∧
      ∀ s ∈ back, ∀ ln ∈ s.lines, Kept net r s.type ln := by
  intro written back
  let sorted := (linesInUse e.moatSettings inUse).insertionSort (· ≤ ·)
  have perm : sorted.Perm (linesInUse e.moatSettings inUse) := perm_insertionSort _ _
  have cached : moatSettingsCached e now week (some cameAt) = e.moatSettings := if_neg (by omega)
  have moat : written.moat = if linesInUse e.moatSettings inUse = [] then none
      else some (dayOf cameAt, sorted) := by
    change (if linesInUse (moatSettingsCached e now week (some cameAt)) inUse = [] then none
      else some (dayOf cameAt, insertionSort _ _)) = _
    rw [cached]
  have kept : ∀ ln ∈ sorted, ∃ t, Kept net r t ln := fun ln member =>
    (Engine.Settled.of_lived lived).kept (by rw [cached]; exact perm.mem_iff.mp member)
  have all := storedSettings_perm kept
  have isBack : back = ((({} : Engine).takeBuiltin net r today week written.builtin).takeMoat
      net r today week written.moat).moatSettings := rfl
  by_cases none : linesInUse e.moatSettings inUse = []
  · rw [if_pos none] at moat
    rw [isBack, moat, none, Engine.takeMoat, moatSettings_takeBuiltin]
    exact ⟨nofun, .nil, nofun⟩
  · have some_ : storedSettings net r sorted ≠ [] := fun empty => none <| by
      rw [empty] at all
      exact (all.trans perm).nil_eq.symm
    rw [if_neg none] at moat
    rw [isBack, moat, Engine.takeMoat, if_pos ⟨past, recent, some_⟩]
    refine ⟨fun day lines wrote => ?_, all.trans perm, fun s member ln =>
      kept_of_mem_storedSettings kept member⟩
    cases wrote
    exact ⟨rfl, pairwise_insertionSort _ _, perm⟩

theorem moatSettings_readBack_oneLine :
    let r := oneLine Transport.snowflake.name
    let e := Engine.on brokerNet r {}
      (.settings [⟨Transport.snowflake.name, "bridgedb".toList, [snowflake]⟩])
    linesInUse e.moatSettings [snowflake] = [snowflake] ∧
      ((bridgeCacheIn brokerNet r {} 5 7
        (bridgeCacheOut r e none (some 0) [snowflake] 0 7)).moatSettings.flatMap (·.lines)).Perm
          (linesInUse e.moatSettings [snowflake]) :=
  ⟨by decide +kernel,
    (moatSettings_readBack (.on .first (by simp)) (by decide) (by decide) (by decide) none _).2.1⟩

end Lived

end Kryfo.Bridges
