import Kryfo.Auto.Plan

/-!
# Automatic never goes direct where direct was blocked

Where direct is to be skipped, neither the plan of a pass nor a check-in has a direct step.  A
plan tries no method of one source twice.
-/

namespace Kryfo.Auto

open Library List

variable {bridges : Bridges} {kind : String} {mem : AutoMemory} {opts : ModeOpts} {today : Int}

/-- Skipping direct was asked for, or direct was blocked in the last thirty days. -/
def Skipped (kind : String) (mem : AutoMemory) (opts : ModeOpts) (today : Int) : Prop :=
  opts.skipDirect = true ∨ ∃ d, mem.blocked kind = some d ∧ d ≤ today ∧ today - 30 < d

theorem fresh_iff {day today : Int} : fresh day today = true ↔ day ≤ today ∧ today - 30 < day := by
  unfold fresh
  rw [Bool.and_eq_true, decide_eq_true_iff, decide_eq_true_iff]
  rfl

theorem directBlocked_iff :
    directBlocked kind mem today = true ↔
      ∃ d, mem.blocked kind = some d ∧ d ≤ today ∧ today - 30 < d := by
  unfold directBlocked
  cases mem.blocked kind with
  | none => simp
  | some d => simp only [fresh_iff, Option.some.injEq, exists_eq_left']

theorem Skipped.skip (skipped : Skipped kind mem opts today) :
    (directBlocked kind mem today || opts.skipDirect) = true := by
  rw [Bool.or_eq_true, directBlocked_iff]
  exact skipped.symm

theorem Skipped.skip' (skipped : Skipped kind mem opts today) :
    (opts.skipDirect || directBlocked kind mem today) = true := by
  rw [Bool.or_comm]
  exact skipped.skip

theorem linesFor_direct {u : AutoUse} (direct : u.method = "direct") :
    linesFor bridges u opts = [] := if_pos direct

variable {s : AutoStep}

theorem Skipped.lastStep_ne (skipped : Skipped kind mem opts today)
    (step : lastStep bridges kind mem opts today = some s) : s.method ≠ "direct" := by
  unfold lastStep at step
  rw [skipped.skip] at step
  split at step
  · exact absurd step (by simp)
  · split_ifs at step with stale direct bridged
    · simp at direct
    · obtain rfl := Option.some.inj step
      rw [Bool.and_eq_true, decide_eq_true_iff] at bridged
      exact bridged.1

theorem builtinStep_spec {t : String} (step : builtinStep bridges t = some s) :
    s.method = t ∧ s.source = "builtin" := by
  unfold builtinStep at step
  split_ifs at step
  obtain rfl := Option.some.inj step
  exact ⟨rfl, rfl⟩

theorem webtunnelStep_spec (step : webtunnelStep bridges opts = some s) :
    s.method = "webtunnel" ∧ s.source = "cached" := by
  dsimp only [webtunnelStep] at step
  split_ifs at step
  obtain rfl := Option.some.inj step
  exact ⟨rfl, rfl⟩

/-- What a plan holds besides the step that was remembered. -/
theorem mem_usualSteps (inside : s ∈ usualSteps bridges kind mem opts today) :
    ((directBlocked kind mem today || opts.skipDirect) = false ∧ s.key = ("direct", "")) ∨
      s.key = ("moat", "") ∨ s.key = ("obfs4", "builtin") ∨ s.key = ("snowflake", "builtin") ∨
      s.key = ("webtunnel", "cached") := by
  simp only [usualSteps, mem_append, Option.mem_toList, mem_singleton] at inside
  rcases inside with (((direct | rfl) | obfs4) | snowflake) | webtunnel
  · split_ifs at direct with skip
    · exact absurd direct not_mem_nil
    · obtain rfl := mem_singleton.mp direct
      exact .inl ⟨eq_false_of_ne_true skip, rfl⟩
  · exact .inr (.inl rfl)
  · exact .inr (.inr (.inl (Prod.ext_iff.mpr (builtinStep_spec obfs4))))
  · exact .inr (.inr (.inr (.inl (Prod.ext_iff.mpr (builtinStep_spec snowflake)))))
  · exact .inr (.inr (.inr (.inr (Prod.ext_iff.mpr (webtunnelStep_spec webtunnel)))))

theorem Skipped.usualSteps_ne (skipped : Skipped kind mem opts today)
    (inside : s ∈ usualSteps bridges kind mem opts today) : s.method ≠ "direct" := by
  have method : s.method = s.key.1 := rfl
  rw [method]
  rcases mem_usualSteps inside with ⟨notSkip, _⟩ | key | key | key | key
  · exact absurd (skipped.skip.symm.trans notSkip) (by decide)
  all_goals
    rw [key]
    simp

theorem source_usualSteps (inside : s ∈ usualSteps bridges kind mem opts today) :
    s.source ≠ "moat" := by
  have source : s.source = s.key.2 := rfl
  rw [source]
  rcases mem_usualSteps inside with ⟨_, key⟩ | key | key | key | key
  all_goals
    rw [key]
    simp

theorem distinct_planPass (bridges : Bridges) (kind : String) (mem : AutoMemory)
    (opts : ModeOpts) (today : Int) :
    Distinct AutoStep.key (planPass bridges kind mem opts today) :=
  distinct_foldl_addNew distinct_nil _

theorem Skipped.planPass_ne (skipped : Skipped kind mem opts today)
    (inside : s ∈ planPass bridges kind mem opts today) : s.method ≠ "direct" := by
  obtain ⟨added, plan, offered⟩ := exists_foldl_addNew AutoStep.key []
    ((lastStep bridges kind mem opts today).toList ++ usualSteps bridges kind mem opts today)
  rw [planPass, plan] at inside
  rcases mem_append.mp (offered s inside) with remembered | usual
  · exact skipped.lastStep_ne (Option.mem_toList.mp remembered)
  · exact skipped.usualSteps_ne usual

theorem source_of_mem_drop_planPass {place : Nat}
    (inside : s ∈ (planPass bridges kind mem opts today).drop (place + 1)) : s.source ≠ "moat" := by
  have later (first : List AutoStep) (short : first.length ≤ 1)
      (inside : s ∈ ((usualSteps bridges kind mem opts today).foldl (addNew AutoStep.key)
        first).drop (place + 1)) : s.source ≠ "moat" := by
    obtain ⟨added, plan, offered⟩ := exists_foldl_addNew AutoStep.key first
      (usualSteps bridges kind mem opts today)
    rw [plan, drop_append, drop_eq_nil_of_le (by omega)] at inside
    exact source_usualSteps (offered s (mem_of_mem_drop inside))
  unfold planPass at inside
  cases remembered : lastStep bridges kind mem opts today with
  | none =>
    rw [remembered] at inside
    exact later [] (Nat.zero_le 1) inside
  | some u =>
    rw [remembered] at inside
    exact later [u] (Nat.le_refl 1) inside

variable {settings : List MoatSetting}

theorem mem_moatSteps (inside : s ∈ moatSteps settings) :
    methodLimit s.method ≠ 0 ∧ (s.source = "moat" ∨ s.source = "builtin") := by
  obtain ⟨m, kept, rfl⟩ := mem_map.mp inside
  have usable := (mem_filter.mp kept).2
  rw [Bool.not_eq_true', Bool.or_eq_false_iff] at usable
  refine ⟨of_decide_eq_false usable.2, ?_⟩
  split_ifs
  · exact .inr rfl
  · exact .inl rfl

theorem methodLimit_direct : methodLimit "direct" = 0 := by decide

theorem methodLimit_moat : methodLimit "moat" = 0 := by decide

theorem moatSteps_ne (inside : s ∈ moatSteps settings) :
    s.method ≠ "direct" ∧ s.method ≠ "moat" := by
  have limit := (mem_moatSteps inside).1
  constructor
  · intro direct
    rw [direct] at limit
    exact limit methodLimit_direct
  · intro moat
    rw [moat] at limit
    exact limit methodLimit_moat

theorem addMoat_eq {out : List AutoStep} {e : AutoStep} (transport : e.method ≠ "moat") :
    addMoat out e = addNew AutoStep.key out e := by
  have same (o : AutoStep) : (o.key = e.key && o.method ≠ "moat" : Bool) =
      decide (o.key = e.key) := by
    by_cases key : o.key = e.key
    · have method : o.method = e.method := congrArg Prod.fst key
      simp [method, transport]
    · simp [key]
  unfold addMoat addNew
  simp only [same]

theorem foldl_addMoat_eq {extra : List AutoStep} (transports : ∀ e ∈ extra, e.method ≠ "moat")
    (out : List AutoStep) :
    extra.foldl addMoat out = extra.foldl (addNew AutoStep.key) out := by
  induction extra generalizing out with
  | nil => rfl
  | cons e extra ih =>
    rw [foldl_cons, addMoat_eq (transports e mem_cons_self)]
    exact ih (fun e' inside => transports e' (mem_cons_of_mem e inside)) _

theorem exists_spliceMoat (steps : List AutoStep) (place : Nat) (settings : List MoatSetting) :
    ∃ added, (moatSteps settings).foldl addMoat (steps.take (place + 1)) =
        steps.take (place + 1) ++ added ∧ ∀ e ∈ added, e ∈ moatSteps settings := by
  rw [foldl_addMoat_eq fun _ inside => (moatSteps_ne inside).2]
  exact exists_foldl_addNew AutoStep.key _ _

theorem Skipped.spliceMoat_ne (skipped : Skipped kind mem opts today) {place : Nat}
    (inside : s ∈ spliceMoat (planPass bridges kind mem opts today) place (moatSteps settings)) :
    s.method ≠ "direct" := by
  obtain ⟨added, spliced, answered⟩ :=
    exists_spliceMoat (planPass bridges kind mem opts today) place settings
  rw [spliceMoat, spliced, mem_append, mem_append] at inside
  rcases inside with (before | answer) | after
  · exact skipped.planPass_ne (mem_of_mem_take before)
  · exact (moatSteps_ne (answered s answer)).1
  · exact skipped.planPass_ne (mem_of_mem_drop (mem_of_mem_filter after))

theorem distinct_spliceMoat (bridges : Bridges) (kind : String) (mem : AutoMemory)
    (opts : ModeOpts) (today : Int) (place : Nat) (settings : List MoatSetting) :
    Distinct AutoStep.key
      (spliceMoat (planPass bridges kind mem opts today) place (moatSteps settings)) := by
  have whole := distinct_planPass bridges kind mem opts today
  rw [← take_append_drop (place + 1) (planPass bridges kind mem opts today),
    distinct_append] at whole
  obtain ⟨before, after, apart⟩ := whole
  obtain ⟨added, spliced, answered⟩ :=
    exists_spliceMoat (planPass bridges kind mem opts today) place settings
  have front : Distinct AutoStep.key ((moatSteps settings).foldl addMoat
      ((planPass bridges kind mem opts today).take (place + 1))) := by
    rw [foldl_addMoat_eq fun _ inside => (moatSteps_ne inside).2]
    exact distinct_foldl_addNew before _
  refine distinct_append.mpr ⟨front, after.sublist filter_sublist, ?_⟩
  rw [spliced]
  intro e inside s kept same
  obtain ⟨later, uncovered⟩ := mem_filter.mp kept
  rcases mem_append.mp inside with inside | inside
  · exact apart e inside s later same
  · have method : e.method = s.method := congrArg Prod.fst same
    have source : e.source = s.source := congrArg Prod.snd same
    rcases (mem_moatSteps (answered e inside)).2 with moat | builtin
    · exact source_of_mem_drop_planPass later (source.symm.trans moat)
    · have covered : ((moatSteps settings).any fun e => e.method = s.method) = true :=
        any_eq_true.mpr ⟨e, answered e inside, decide_eq_true method⟩
      rw [covered, source.symm.trans builtin] at uncovered
      simp at uncovered

theorem insteadOfSnowflake_ne {ms : List String}
    (step : insteadOfSnowflake bridges kind mem opts today ms = some s) : s.method ≠ "direct" := by
  induction ms with
  | nil => exact absurd step (by simp [insteadOfSnowflake])
  | cons m ms ih =>
    unfold insteadOfSnowflake at step
    split at step
    · split_ifs at step with lines
      · obtain rfl := Option.some.inj step
        intro direct
        rw [linesFor_direct direct] at lines
        simp at lines
      · exact ih step
    · exact ih step

theorem method_rememberedStep {u : AutoUse} (step : rememberedStep bridges u opts = some s) :
    s.method = u.method := by
  unfold rememberedStep at step
  split_ifs at step
  obtain rfl := Option.some.inj step
  rfl

theorem Skipped.checkInStep_ne (skipped : Skipped kind mem opts today)
    (step : checkInStep bridges kind mem opts today = some s) : s.method ≠ "direct" := by
  unfold checkInStep at step
  rw [skipped.skip'] at step
  cases last : mem.last kind with
  | none =>
    rw [last] at step
    exact absurd step (by simp)
  | some u =>
    rw [last] at step
    dsimp only at step
    split_ifs at step with stale direct snowflake
    · rcases Option.or_eq_some_iff.mp step with other | ⟨_, same⟩
      · exact insteadOfSnowflake_ne other
      · rw [method_rememberedStep same, snowflake]
        decide
    · rw [method_rememberedStep step]
      simpa using direct

theorem Skipped.putCheckInStep_ne (skipped : Skipped kind mem opts today) {mode : BridgeMode}
    {on : Bool} {detail : Option Bool}
    (put : (putCheckInStep bridges mode on detail kind mem opts today).put = some s) :
    s.method ≠ "direct" := by
  unfold putCheckInStep at put
  rw [skipped.skip'] at put
  cases found : checkInStep bridges kind mem opts today with
  | some step =>
    rw [found] at put
    dsimp only at put
    split_ifs at put
    obtain rfl := Option.some.inj put
    exact skipped.checkInStep_ne found
  | none =>
    simp only [found] at put
    split_ifs at put
    · obtain rfl := Option.some.inj put
      decide
    · obtain rfl := Option.some.inj put
      change "obfs4" ≠ "direct"
      decide

theorem plan_never_direct_and_distinct (bridges : Bridges) (kind : String) (mem : AutoMemory)
    (opts : ModeOpts) (today : Int) (settings : List MoatSetting) (place : Nat)
    (mode : BridgeMode) (on : Bool) (detail : Option Bool) :
    (Skipped kind mem opts today →
      (∀ s ∈ planPass bridges kind mem opts today, s.method ≠ "direct") ∧
      (∀ s ∈ spliceMoat (planPass bridges kind mem opts today) place (moatSteps settings),
        s.method ≠ "direct") ∧
      (∀ s, (putCheckInStep bridges mode on detail kind mem opts today).put = some s →
        s.method ≠ "direct")) ∧
    Distinct AutoStep.key (planPass bridges kind mem opts today) ∧
    Distinct AutoStep.key
      (spliceMoat (planPass bridges kind mem opts today) place (moatSteps settings)) := by
  refine ⟨?_, distinct_planPass bridges kind mem opts today,
    distinct_spliceMoat bridges kind mem opts today place settings⟩
  intro skipped
  exact ⟨fun s inside => skipped.planPass_ne inside, fun s inside => skipped.spliceMoat_ne inside,
    fun s put => skipped.putCheckInStep_ne put⟩

def someBridges : Bridges where
  builtinLines t := if t = "obfs4" ∨ t = "snowflake" then [t] else []
  moatSettingsCached := []
  sortBridgeLines lines := lines

/-- Direct worked last on this network, and was found blocked the day after. -/
def blockedSince : AutoMemory where
  last _ := some ⟨"direct", "", 100⟩
  worked _ _ := none
  blocked _ := some 101

theorem plan_never_direct_and_distinct_blocked :
    Skipped "wifi" blockedSince ⟨false, ["line"]⟩ 110 ∧
      (∀ s ∈ spliceMoat (planPass someBridges "wifi" blockedSince ⟨false, ["line"]⟩ 110) 0
        (moatSteps [⟨"obfs4", "builtin", ["line"]⟩]), s.method ≠ "direct") := by
  have skipped : Skipped "wifi" blockedSince ⟨false, ["line"]⟩ 110 :=
    .inr ⟨101, rfl, by decide, by decide⟩
  exact ⟨skipped, ((plan_never_direct_and_distinct someBridges "wifi" blockedSince
    ⟨false, ["line"]⟩ 110 [⟨"obfs4", "builtin", ["line"]⟩] 0 .auto true none).1 skipped).2.1⟩

end Kryfo.Auto
