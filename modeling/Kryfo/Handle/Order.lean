import Kryfo.Handle.Requests

/-!
# Nothing signed earlier undoes what was signed later

The registry keeps the time of the last claim or release of a handle in the entry, or in its memory
of releases; where an ok leaves both as they are, an earlier request still has its way.
-/

namespace Kryfo.Handle

open Library

/-- The time on a request of the second version for a handle, if its signature is right. -/
def Body.signedAt (cfg : Config) (h : Text) (msgV2 : Int → Text) (body : Body) : Option Int :=
  if cfg.normal body.handle = h ∧ body.v = ['2'] then
    (cfg.scan body.ts).filter fun ts => cfg.verifyMsg body.pubkey body.sig (msgV2 ts)
  else none

namespace Act

def signedAt (cfg : Config) (h : Text) : Act → Option Int
  | claim _ body => body.signedAt cfg h (cfg.claimMsgV2 h body.invite)
  | release _ body => body.signedAt cfg h (releaseMsgV2 h)
  | _ => none

def About (cfg : Config) (h : Text) : Act → Prop
  | claim _ body | release _ body => cfg.normal body.handle = h
  | _ => False

instance (cfg : Config) (h : Text) : ∀ act : Act, Decidable (act.About cfg h)
  | claim _ body | release _ body => inferInstanceAs (Decidable (cfg.normal body.handle = h))
  | listing _ _ | restart _ => .isFalse id

end Act

/-- A registry, the latest its clock was read as, and the times on the handle's claims and releases
that were answered ok. -/
structure Watch where
  store : Store
  clock : Int
  answered : List Int

namespace Watch

def next (cfg : Config) (h : Text) (w : Watch) (act : Act) : Watch where
  store := w.store.next cfg act
  clock := act.turn.later
  answered :=
    if (w.store.serve cfg act).1 = .ok then (act.signedAt cfg h).toList ++ w.answered
    else w.answered

def Step (cfg : Config) (h : Text) (w : Watch) (act : Act) (w' : Watch) : Prop :=
  w' = w.next cfg h act

/-- The handle's claims and releases are of the second version and signed, the file is written, and
the clock goes on. -/
structure Sent (cfg : Config) (h : Text) (w : Watch) (act : Act) : Prop where
  signed : act.About cfg h → (act.signedAt cfg h).isSome = true
  saves : act.turn.saves = true
  forward : w.clock ≤ act.turn.now
  later : act.turn.now ≤ act.turn.later

instance (cfg : Config) (h : Text) (w : Watch) (act : Act) : Decidable (Sent cfg h w act) :=
  decidable_of_iff ((act.About cfg h → (act.signedAt cfg h).isSome = true) ∧
      act.turn.saves = true ∧ w.clock ≤ act.turn.now ∧ act.turn.now ≤ act.turn.later)
    ⟨fun ⟨signed, saves, forward, later⟩ => ⟨signed, saves, forward, later⟩,
      fun ⟨signed, saves, forward, later⟩ => ⟨signed, saves, forward, later⟩⟩

/-- The time on a request answered ok is kept, and a release is not forgotten while a claim before
it would be taken. -/
def Kept (cfg : Config) (h : Text) (w : Watch) (act : Act) : Prop :=
  match act with
  | .claim _ body => ∀ t old, (w.store.serve cfg act).1 = .ok → act.signedAt cfg h = some t →
      w.store.m.lookup h = some old → old.invite = body.invite → old.bio = cfg.cutBio body.bio →
      t ≤ old.signedAt
  | .release turn _ => ∀ t, act.signedAt cfg h = some t → signSkew < turn.now ∧
      ((w.store.serve cfg act).1 = .ok → w.store.m.lookup h = none →
        t ≤ w.store.goneAt h ∨ t + signSkew < turn.now)
  | .listing _ _ => True
  | .restart turn => w.store.m.lookup h = none → w.store.goneAt h + signSkew < turn.now

/-- A request signed before one that was answered ok changes the handle. -/
def Undone (cfg : Config) (h : Text) (w : Watch) (act : Act) : Prop :=
  ∃ t ∈ w.answered, ∃ earlier, act.signedAt cfg h = some earlier ∧ earlier < t ∧
    (w.store.next cfg act).m.lookup h ≠ w.store.m.lookup h

/-- The registry remembers a time, or the clock is past it. -/
def Remembers (s : Store) (h : Text) (clock t : Int) : Prop :=
  match s.m.lookup h with
  | some e => t ≤ e.signedAt
  | none => 0 < s.goneAt h ∧ t ≤ s.goneAt h ∨ t + signSkew < clock

theorem Remembers.mono {s s' : Store} {h : Text} {clock clock' t : Int}
    (remembers : Remembers s h clock t)
    (entry : (s'.m.lookup h).map Entry.signedAt = (s.m.lookup h).map Entry.signedAt)
    (gone : s.m.lookup h = none → s'.goneAt h = s.goneAt h ∨ t + signSkew < clock')
    (forward : clock ≤ clock') : Remembers s' h clock' t := by
  unfold Remembers at remembers ⊢
  cases before : s.m.lookup h with
  | some e =>
    rw [before] at remembers entry
    obtain ⟨e', after, same⟩ := Option.map_eq_some_iff.mp entry
    rw [after]
    exact le_of_le_of_eq remembers same.symm
  | none =>
    rw [before] at remembers entry
    rw [Option.map_eq_none_iff.mp entry]
    obtain same | past := gone before
    · obtain kept | past := remembers
      · exact .inl (same ▸ kept)
      · exact .inr (lt_of_lt_of_le past forward)
    · exact .inr past

end Watch

theorem signedAt_of_right {cfg : Config} {h : Text} {now t : Int} {body : Body}
    {msgV2 : Int → Text} (signed : body.signedAt cfg h msgV2 = some t)
    (right : (cfg.checkSig now body h msgV2).why = "") :
    (cfg.checkSig now body h msgV2).v2 = true ∧ (cfg.checkSig now body h msgV2).ts = t ∧
      now - signSkew ≤ t := by
  unfold Body.signedAt at signed
  split_ifs at signed with about
  obtain ⟨v2, _, scanned, window, _⟩ | ⟨_, isV1, _⟩ := of_checkSig right
  · obtain ⟨scannedToo, _⟩ := Option.filter_eq_some_iff.mp signed
    have time : (cfg.checkSig now body h msgV2).ts = t :=
      Option.some.inj (scanned.symm.trans scannedToo)
    exact ⟨v2, time, time ▸ window⟩
  · exact absurd about.2 isV1

theorem handle_of_signedAt {cfg : Config} {h : Text} {t : Int} {body : Body} {msgV2 : Int → Text}
    (signed : body.signedAt cfg h msgV2 = some t) : cfg.normal body.handle = h := by
  unfold Body.signedAt at signed
  split_ifs at signed with about
  exact about.1

namespace Watch

variable {cfg : Config} {h : Text} {w : Watch} {act : Act} {t : Int}

theorem le_of_written {s : Store} {clock now : Int} {body : Body} {c : Checked} {e : Entry}
    (remembers : Remembers s (cfg.normal body.handle) clock t) (written : Written cfg s body c e)
    (v2 : c.v2 = true) (window : now - signSkew ≤ c.ts) (forward : clock ≤ now) : t ≤ c.ts := by
  unfold Remembers at remembers
  obtain ⟨absent, gone, _⟩ | ⟨old, there, _, _, newer, _⟩ := written.origin
  · rw [absent] at remembers
    obtain ⟨positive, kept⟩ | past := remembers
    · exact kept.trans (gone positive).2.le
    · omega
  · rw [there] at remembers
    exact remembers.trans (newer v2)

theorem mem_answered (inside : t ∈ (w.next cfg h act).answered) :
    t ∈ w.answered ∨ (w.store.serve cfg act).1 = .ok ∧ act.signedAt cfg h = some t := by
  unfold next at inside
  split_ifs at inside with ok
  · obtain new | old := List.mem_append.mp inside
    · exact .inr ⟨ok, Option.mem_toList.mp new⟩
    · exact .inl old
  · exact .inl inside

theorem remembers_of_same {s' : Store} (sent : Sent cfg h w act)
    (entry : s'.m.lookup h = w.store.m.lookup h) (gone : s'.goneAt h = w.store.goneAt h)
    (remembers : Remembers w.store h w.clock t) : Remembers s' h act.turn.later t :=
  remembers.mono (by rw [entry]) (fun _ => .inl gone) (sent.forward.trans sent.later)

section Requests

variable {turn : Turn} {body : Body}

theorem goneAt_claim : (w.store.claim cfg turn body).2.goneAt h = w.store.goneAt h := by
  rw [Store.goneAt, Store.gone_claim, Store.goneAt]

theorem remembers_claim (sent : Sent cfg h w (.claim turn body))
    (kept : Kept cfg h w (.claim turn body))
    (all : ∀ t ∈ w.answered, Remembers w.store h w.clock t)
    (inside : t ∈ (w.next cfg h (.claim turn body)).answered) :
    Remembers (w.store.claim cfg turn body).2 h turn.later t := by
  obtain ⟨notOk, same⟩ | ⟨c, found, right, _, ⟨⟨old, unchanged⟩, same⟩ | ⟨e, written, put⟩⟩ :=
    @Store.claim_cases cfg w.store turn body
  · obtain old | ⟨ok, _⟩ := mem_answered inside
    · exact remembers_of_same sent (by rw [same]) goneAt_claim (all t old)
    · exact absurd ok notOk
  · obtain old | ⟨ok, signed⟩ := mem_answered inside
    · exact remembers_of_same sent (by rw [same]) goneAt_claim (all t old)
    · have there : w.store.m.lookup h = some old := handle_of_signedAt signed ▸ unchanged.there
      rw [Remembers, same, there]
      exact kept t old ok signed there unchanged.invite unchanged.bio
  · by_cases about : cfg.normal body.handle = h
    · subst about found
      obtain ⟨time, signed⟩ := Option.isSome_iff_exists.mp (sent.signed rfl)
      obtain ⟨v2, ts, window⟩ := signedAt_of_right signed right
      rw [Remembers, put, Dict.lookup_set, if_pos rfl]
      show t ≤ e.signedAt
      rw [written.signedAt v2]
      obtain old | ⟨_, signedToo⟩ := mem_answered inside
      · exact le_of_written (all t old) written v2 (ts.symm ▸ window) sent.forward
      · rw [ts]
        exact (Option.some.inj (signedToo.symm.trans signed)).le
    · obtain old | ⟨_, signed⟩ := mem_answered inside
      · refine remembers_of_same sent ?_ goneAt_claim (all t old)
        rw [put, Dict.lookup_set, if_neg (Ne.symm about)]
      · exact absurd (handle_of_signedAt signed) about

theorem goneAt_keep {s s' : Store} {other : Text} {time later : Int}
    (gone : s'.gone = (s.gone.keep fun _ v => later - 2 * signSkew ≤ v).set other time)
    (differs : h ≠ other) :
    s'.goneAt h = s.goneAt h ∨ s'.goneAt h = 0 ∧ s.goneAt h < later - 2 * signSkew := by
  rw [Store.goneAt, Store.goneAt, gone, Dict.lookup_set, if_neg differs, Dict.lookup_keep]
  cases s.gone.lookup h with
  | none => exact .inl rfl
  | some v =>
    by_cases recent : later - 2 * signSkew ≤ v
    · left
      simp only [Option.filter, decide_eq_true recent, if_true]
    · right
      simp only [Option.filter, decide_eq_false recent]
      exact ⟨rfl, Int.not_le.mp recent⟩

theorem remembers_release (sent : Sent cfg h w (.release turn body))
    (kept : Kept cfg h w (.release turn body))
    (all : ∀ t ∈ w.answered, Remembers w.store h w.clock t)
    (inside : t ∈ (w.next cfg h (.release turn body)).answered) :
    Remembers (w.store.release cfg turn body).2 h turn.later t := by
  obtain ⟨same, sameGone, absentIfOk⟩ |
      ⟨c, found, right, e, there, _, _, newer, removed, gone⟩ :=
    @Store.release_cases cfg w.store turn body
  · have goneAt : (w.store.release cfg turn body).2.goneAt h = w.store.goneAt h := by
      rw [Store.goneAt, sameGone, Store.goneAt]
    obtain old | ⟨ok, signed⟩ := mem_answered inside
    · exact remembers_of_same sent (by rw [same]) goneAt (all t old)
    · have absent : w.store.m.lookup h = none := handle_of_signedAt signed ▸ absentIfOk ok
      obtain ⟨late, remembered⟩ := kept t signed
      have onward : turn.now ≤ turn.later := sent.later
      rw [Remembers, same, absent, goneAt]
      obtain bound | past := remembered ok absent
      · obtain positive | none := Int.lt_or_le 0 (w.store.goneAt h)
        · exact .inl ⟨positive, bound⟩
        · exact .inr (by omega)
      · exact .inr (lt_of_lt_of_le past onward)
  · by_cases about : cfg.normal body.handle = h
    · subst about found
      obtain ⟨time, signed⟩ := Option.isSome_iff_exists.mp (sent.signed rfl)
      obtain ⟨v2, ts, window⟩ := signedAt_of_right signed right
      have goneAt : (w.store.release cfg turn body).2.goneAt (cfg.normal body.handle) = time := by
        rw [Store.goneAt, gone, Dict.lookup_set, if_pos rfl, if_pos v2, ts]
        rfl
      have late : signSkew < turn.now := (kept time signed).1
      rw [Remembers, removed, Dict.lookup_remove, if_pos rfl, goneAt]
      refine .inl ⟨lt_of_lt_of_le (Int.sub_pos_of_lt late) window, ?_⟩
      obtain old | ⟨_, signedToo⟩ := mem_answered inside
      · have remembers := all t old
        rw [Remembers, there] at remembers
        exact ts ▸ remembers.trans (newer v2)
      · exact (Option.some.inj (signedToo.symm.trans signed)).le
    · obtain old | ⟨_, signed⟩ := mem_answered inside
      · refine (all t old).mono ?_ ?_ (sent.forward.trans sent.later)
        · rw [removed, Dict.lookup_remove, if_neg (Ne.symm about)]
        · intro absent
          have remembers := all t old
          rw [Remembers, absent] at remembers
          obtain same | ⟨_, pruned⟩ := goneAt_keep gone (Ne.symm about)
          · exact .inl same
          · have skew : signSkew = 600 := rfl
            have onward : w.clock ≤ turn.later := sent.forward.trans sent.later
            obtain ⟨_, bound⟩ | past := remembers
            · exact .inr (by omega)
            · exact .inr (lt_of_lt_of_le past onward)
      · exact absurd (handle_of_signedAt signed) about

end Requests

theorem remembers_next (sent : Sent cfg h w act) (kept : Kept cfg h w act)
    (filed : w.store.Filed cfg) (all : ∀ t ∈ w.answered, Remembers w.store h w.clock t)
    (inside : t ∈ (w.next cfg h act).answered) :
    Remembers (w.store.next cfg act) h act.turn.later t := by
  cases act with
  | claim turn body => exact remembers_claim sent kept all inside
  | release turn body => exact remembers_release sent kept all inside
  | listing turn body =>
    obtain old | ⟨_, signed⟩ := mem_answered inside
    · refine (all t old).mono ?_ (fun _ => .inl ?_) (sent.forward.trans sent.later)
      · obtain same | ⟨e, ts, there, _, _, _, put⟩ := @Store.listing_cases cfg w.store turn body
        · rw [Store.next, Store.serve, same]
        · rw [Store.next, Store.serve, put, Dict.lookup_set]
          by_cases about : h = cfg.normal body.handle
          · rw [if_pos about, about, there]
            rfl
          · rw [if_neg about]
      · rw [Store.next, Store.serve, Store.goneAt, Store.gone_listing, Store.goneAt]
    · cases signed
  | restart turn =>
    obtain old | ⟨_, signed⟩ := mem_answered inside
    · have remembers := all t old
      have onward : turn.now ≤ turn.later := sent.later
      refine remembers.mono ?_ (fun absent => .inr ?_) (sent.forward.trans sent.later)
      · obtain same | back := Store.lookup_restart filed h
        · rw [Store.next, Store.serve, same]
        · rw [Store.next, Store.serve, back, Option.map_map]
          rfl
      · rw [Remembers, absent] at remembers
        have forward : w.clock ≤ turn.now := sent.forward
        have past : w.store.goneAt h + signSkew < turn.now := kept absent
        show t + signSkew < turn.later
        obtain ⟨_, bound⟩ | isOver := remembers <;> omega
    · cases signed

/-- Over what is remembered, a request signed before it changes nothing. -/
theorem not_undone (sent : Sent cfg h w act)
    (all : ∀ t ∈ w.answered, Remembers w.store h w.clock t) : ¬ Undone cfg h w act := by
  rintro ⟨t, answered, earlier, signed, before, changed⟩
  refine changed ?_
  cases act with
  | claim turn body =>
    obtain ⟨_, same⟩ | ⟨c, found, right, _, ⟨_, same⟩ | ⟨e, written, put⟩⟩ :=
      @Store.claim_cases cfg w.store turn body
    · rw [Store.next, Store.serve, same]
    · rw [Store.next, Store.serve, same]
    · have about : cfg.normal body.handle = h := handle_of_signedAt signed
      subst about found
      obtain ⟨v2, ts, window⟩ := signedAt_of_right signed right
      have bound := le_of_written (all t answered) written v2 (ts.symm ▸ window) sent.forward
      exact absurd before (Int.not_lt.mpr (ts ▸ bound))
  | release turn body =>
    obtain ⟨same, _⟩ | ⟨c, found, right, e, there, _, _, newer, _⟩ :=
      @Store.release_cases cfg w.store turn body
    · rw [Store.next, Store.serve, same]
    · have about : cfg.normal body.handle = h := handle_of_signedAt signed
      subst about found
      obtain ⟨v2, ts, _⟩ := signedAt_of_right signed right
      have remembers := all t answered
      rw [Remembers, there] at remembers
      exact absurd before (Int.not_lt.mpr (ts ▸ remembers.trans (newer v2)))
  | listing turn body | restart turn => cases signed

def start (clock : Int) : Watch := ⟨{}, clock, []⟩

/-- Once a claim or a release was answered ok, nothing signed before it changes the handle, in
every run whose requests are all kept. -/
theorem not_undone_of_run {clock : Int}
    (run : Run (Step cfg h) (fun w act => Sent cfg h w act ∧ Kept cfg h w act) (start clock) w)
    (sent : Sent cfg h w act) : ¬ Undone cfg h w act := by
  have both : w.store.Filed cfg ∧ ∀ t ∈ w.answered, Remembers w.store h w.clock t := by
    refine run.invariant
      (fun w => w.store.Filed cfg ∧ ∀ t ∈ w.answered, Remembers w.store h w.clock t) ?_ ?_
    · exact ⟨.inl rfl, fun t inside => nomatch inside⟩
    · rintro w _ act ⟨filed, all⟩ ⟨sent, kept⟩ rfl
      exact ⟨filed.next sent.saves, fun t inside => remembers_next sent kept filed all inside⟩
  exact not_undone sent both.2

def smallHandle : Text := "abc".toList

def smallConfig : Config :=
  .small [(Config.small []).claimMsgV2 smallHandle ['a'] 1010,
    (Config.small []).claimMsgV2 smallHandle ['b'] 1020,
    (Config.small []).claimMsgV2 smallHandle ['a'] 1030, releaseMsgV2 smallHandle 1040]

def claimAt (ts : Int) (invite : Text) : Act := .claim { now := 1050 } (Body.small ts invite)

def releaseAt (ts : Int) : Act := .release { now := 1050 } (Body.small ts)

def restartAt : Act := .restart { now := 1050 }

theorem run_small (acts : List Act) (sent : Allowed (Watch.next smallConfig smallHandle)
      (Sent smallConfig smallHandle) (start 0) acts) :
    Run (Step smallConfig smallHandle) (Sent smallConfig smallHandle) (start 0)
      (acts.foldl (Watch.next smallConfig smallHandle) (start 0)) := .of_allowed _ _ sent

theorem not_undone_of_run_small :
    let w := (start 0).next smallConfig smallHandle (claimAt 1030 ['a'])
    w.answered = [1030] ∧ ¬ Undone smallConfig smallHandle w (claimAt 1020 ['b']) := by
  have kept : Kept smallConfig smallHandle (start 0) (claimAt 1030 ['a']) :=
    fun t old _ _ there => nomatch there
  have run : Run (Step smallConfig smallHandle)
      (fun w act => Sent smallConfig smallHandle w act ∧ Kept smallConfig smallHandle w act)
      (start 0) ((start 0).next smallConfig smallHandle (claimAt 1030 ['a'])) :=
    .snoc .refl rfl ⟨by decide +kernel, kept⟩
  exact ⟨by decide +kernel, not_undone_of_run run (by decide +kernel)⟩

/-- A claim that finds its invite already there, a release that finds no handle, and a release
before a restart are answered ok, and a claim signed before them still changes the handle. -/
theorem undone_of_not_kept :
    (∃ w, Run (Step smallConfig smallHandle) (Sent smallConfig smallHandle) (start 0) w ∧
      Sent smallConfig smallHandle w (claimAt 1020 ['b']) ∧
      1030 ∈ w.answered ∧ Undone smallConfig smallHandle w (claimAt 1020 ['b'])) ∧
    (∃ w, Run (Step smallConfig smallHandle) (Sent smallConfig smallHandle) (start 0) w ∧
      Sent smallConfig smallHandle w (claimAt 1010 ['a']) ∧
      w.answered = [1040] ∧ Undone smallConfig smallHandle w (claimAt 1010 ['a'])) ∧
    ∃ w, Run (Step smallConfig smallHandle) (Sent smallConfig smallHandle) (start 0) w ∧
      Sent smallConfig smallHandle w (claimAt 1010 ['a']) ∧
      w.answered = [1040, 1010] ∧ Undone smallConfig smallHandle w (claimAt 1010 ['a']) := by
  refine ⟨⟨_, run_small [claimAt 1010 ['a'], claimAt 1030 ['a']] ?_, ?_, ?_, 1030, ?_, 1020, ?_⟩,
    ⟨_, run_small [releaseAt 1040] ?_, ?_, ?_, 1040, ?_, 1010, ?_⟩,
    ⟨_, run_small [claimAt 1010 ['a'], releaseAt 1040, restartAt] ?_, ?_, ?_, 1040, ?_, 1010, ?_⟩⟩
  all_goals decide +kernel

end Watch

end Kryfo.Handle
