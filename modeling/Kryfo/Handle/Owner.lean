import Kryfo.Handle.Requests

/-!
# A handle is its key's alone

Where the parts of an entry come from, in every registry reached: its key, its invite, its
times and its listing are what the key signed for the handle.
-/

namespace Kryfo.Handle

open Library

def Signed (cfg : Config) (key msg : Text) : Prop := ∃ sig, cfg.verifyMsg key sig msg = true

structure Owned (cfg : Config) (h : Text) (e : Entry) : Prop where
  id : cfg.inviteId e.invite = some (cfg.wordsOf e.pubkey)
  invite : 0 < e.signedAt → Signed cfg e.pubkey (cfg.claimMsgV2 h e.invite e.signedAt)
  listing : e.listedAt = 0 ∧ e.listed = false ∧ e.name = [] ∨
    ∃ name, Signed cfg e.pubkey (listingMsg h e.listed e.listedAt name) ∧
      e.name = if e.listed then cleanName name else []

namespace Act

def SignedFor (cfg : Config) (key h : Text) : Act → Prop
  | claim _ body =>
    cfg.normal body.handle = h ∧ body.pubkey = key ∧
      (cfg.verifyMsg key body.sig (claimMsgV1 h) = true ∨
        ∃ ts, cfg.verifyMsg key body.sig (cfg.claimMsgV2 h body.invite ts) = true)
  | release _ body =>
    cfg.normal body.handle = h ∧ body.pubkey = key ∧
      (cfg.verifyMsg key body.sig (claimMsgV1 h) = true ∨
        ∃ ts, cfg.verifyMsg key body.sig (releaseMsgV2 h ts) = true)
  | listing _ body =>
    cfg.normal body.handle = h ∧ body.pubkey = key ∧
      ∃ ts, cfg.verifyMsg key body.sig (listingMsg h (body.listed = ['1']) ts body.name) = true
  | restart _ => False

def IsV1 : Act → Prop
  | claim _ body | release _ body => body.v ≠ ['2']
  | _ => False

def ClaimsV2 (cfg : Config) (h : Text) : Act → Prop
  | claim _ body => cfg.normal body.handle = h ∧ body.v = ['2']
  | _ => False

/-- The file is written, and the clock is past the first ten minutes it can show. -/
def Timely (act : Act) : Prop := act.turn.saves = true ∧ signSkew < act.turn.now

instance (act : Act) : Decidable act.Timely := inferInstanceAs (Decidable (_ ∧ _))

end Act

/-- What a step does to a handle that is claimed: `after` is its entry then. -/
structure Guarded (cfg : Config) (act : Act) (h : Text) (e : Entry) (after : Option Entry) :
    Prop where
  signed : after ≠ some e → act.SignedFor cfg e.pubkey h ∨
    (∃ turn, act = .restart turn) ∧ after = some { e with bio := cfg.readBack e.bio }
  key : ∀ e', after = some e' → e'.pubkey = e.pubkey
  signedAt : ∀ e', after = some e' → e.signedAt ≤ e'.signedAt
  listedAt : ∀ e', after = some e' → e.listedAt ≤ e'.listedAt
  v1 : 0 < e.signedAt → act.IsV1 → after = some e

variable {h : Text} {act : Act}

theorem guarded_same {cfg : Config} {e : Entry} :
    Guarded cfg act h e (some e) where
  signed changed := absurd rfl changed
  key e' same := by rw [Option.some.inj same]
  signedAt e' same := by rw [Option.some.inj same]
  listedAt e' same := by rw [Option.some.inj same]
  v1 _ _ := rfl

theorem inviteId_of_inviteIsKeys {cfg : Config} {invite key : Text}
    (isKeys : cfg.inviteIsKeys invite key = true) :
    cfg.inviteId invite = some (cfg.wordsOf key) := by
  simp only [Config.inviteIsKeys, Bool.and_eq_true, decide_eq_true_eq] at isKeys
  exact isKeys.2

section Entries

variable {cfg : Config} {s : Store} {body : Body} {e : Entry} {now : Int}

theorem Owned.written {c : Checked} (owned : ∀ old, s.m.lookup (cfg.normal body.handle) = some old →
      Owned cfg (cfg.normal body.handle) old)
    (found : c = cfg.checkSig now body (cfg.normal body.handle)
      (cfg.claimMsgV2 (cfg.normal body.handle) body.invite)) (right : c.why = "")
    (isKeys : cfg.inviteIsKeys body.invite body.pubkey = true)
    (written : Written cfg s body c e) : Owned cfg (cfg.normal body.handle) e where
  id := by
    rw [written.invite, written.pubkey]
    exact inviteId_of_inviteIsKeys isKeys
  invite := by
    intro positive
    rw [written.invite, written.pubkey]
    subst found
    obtain ⟨v2, _, _, _, signed⟩ | ⟨v1, _, _⟩ := of_checkSig right
    · rw [written.signedAt v2]
      exact ⟨body.sig, signed⟩
    · obtain ⟨_, _, time, _⟩ | ⟨old, _, _, needs, _, time, _⟩ := written.origin
      · rw [time, v1] at positive
        exact absurd positive (by simp)
      · rw [time, v1] at positive
        exact absurd (needs positive) (by simp [v1])
  listing := by
    obtain ⟨_, _, _, listed, name, listedAt⟩ | ⟨old, there, key, _, _, _, listed, name, listedAt⟩ :=
      written.origin
    · exact .inl ⟨listedAt, listed, name⟩
    · rw [listed, name, listedAt, written.pubkey, ← key]
      exact (owned old there).listing

theorem Owned.listed {listed : Bool} {ts : Int} {name : Text} (owned : Owned cfg h e)
    (signed : Signed cfg e.pubkey (listingMsg h listed ts name)) :
    Owned cfg h { e with
      listed, listedAt := ts, name := if listed then cleanName name else [] } where
  id := owned.id
  invite := owned.invite
  listing := .inr ⟨name, signed, rfl⟩

theorem Owned.readBack (owned : Owned cfg h e) :
    Owned cfg h { e with bio := cfg.readBack e.bio } where
  id := owned.id
  invite := owned.invite
  listing := owned.listing

end Entries

def AllOwned (cfg : Config) (s : Store) : Prop := ∀ h e, s.m.lookup h = some e → Owned cfg h e

theorem AllOwned.set {cfg : Config} {s s' : Store} {e : Entry} (all : AllOwned cfg s)
    (put : s'.m = s.m.set h e) (owned : Owned cfg h e) : AllOwned cfg s' := by
  intro h' e' there
  rw [put, Dict.lookup_set] at there
  split_ifs at there with same
  · cases there
    exact same ▸ owned
  · exact all h' e' there

theorem AllOwned.next {cfg : Config} {s : Store} (all : AllOwned cfg s) (filed : s.Filed cfg) :
    AllOwned cfg (s.next cfg act) := by
  cases act with
  | claim turn body =>
    obtain ⟨_, same⟩ | ⟨c, found, right, isKeys, ⟨_, same⟩ | ⟨e, written, put⟩⟩ :=
      @Store.claim_cases cfg s turn body
    · intro h e there
      exact all h e (same ▸ there)
    · intro h e there
      exact all h e (same ▸ there)
    · exact all.set put (Owned.written (all _) found right isKeys written)
  | release turn body =>
    obtain ⟨same, _⟩ | ⟨c, _, _, e, _, _, _, _, removed, _⟩ :=
      @Store.release_cases cfg s turn body
    · intro h e there
      exact all h e (same ▸ there)
    · intro h e there
      have there : (s.m.remove (cfg.normal body.handle)).lookup h = some e := removed ▸ there
      rw [Dict.lookup_remove] at there
      split_ifs at there
      exact all h e there
  | listing turn body =>
    obtain same | ⟨e, ts, there, key, _, signed, put⟩ :=
      @Store.listing_cases cfg s turn body
    · intro h e there
      exact all h e (same ▸ there)
    · exact all.set put ((all _ e there).listed ⟨body.sig, key ▸ signed⟩)
  | restart turn =>
    intro h e there
    obtain same | back := Store.lookup_restart filed h
    · exact all h e (same ▸ there)
    · have there : (s.m.lookup h).map _ = some e := back ▸ there
      obtain ⟨old, found, rfl⟩ := Option.map_eq_some_iff.mp there
      exact (all h old found).readBack

section Steps

variable {cfg : Config} {s : Store} {turn : Turn} {body : Body} {e e' : Entry}

theorem guarded_written {c : Checked} (there : s.m.lookup (cfg.normal body.handle) = some e)
    (found : c = cfg.checkSig turn.now body (cfg.normal body.handle)
      (cfg.claimMsgV2 (cfg.normal body.handle) body.invite)) (right : c.why = "")
    (written : Written cfg s body c e') :
    Guarded cfg (.claim turn body) (cfg.normal body.handle) e (some e') := by
  obtain ⟨absent, _⟩ | ⟨old, present, key, needs, newer, time, _, _, listedAt⟩ := written.origin
  · rw [there] at absent
    exact nomatch absent
  rw [there] at present
  cases present
  subst found
  have signature := of_checkSig right
  refine ⟨fun _ => .inl ⟨rfl, key.symm, ?_⟩, ?_, ?_, ?_, ?_⟩
  · rw [key]
    obtain ⟨_, _, _, _, signed⟩ | ⟨_, _, signed⟩ := signature
    · exact .inr ⟨_, signed⟩
    · exact .inl signed
  · intro _ same
    rw [← Option.some.inj same, written.pubkey, key]
  · intro _ same
    rw [← Option.some.inj same, time]
    split_ifs with v2
    · exact newer v2
    · exact le_rfl
  · intro _ same
    rw [← Option.some.inj same, listedAt]
  · intro positive isV1
    obtain ⟨_, isV2, _⟩ | ⟨v1, _⟩ := signature
    · exact absurd isV2 isV1
    · rw [needs positive] at v1
      exact nomatch v1

theorem guarded_removed {c : Checked} (key : e.pubkey = body.pubkey)
    (found : c = cfg.checkSig turn.now body (cfg.normal body.handle)
      (releaseMsgV2 (cfg.normal body.handle))) (right : c.why = "")
    (needs : 0 < e.signedAt → c.v2 = true) :
    Guarded cfg (.release turn body) (cfg.normal body.handle) e none := by
  subst found
  have signature := of_checkSig right
  refine ⟨fun _ => .inl ⟨rfl, key.symm, ?_⟩, by simp, by simp, by simp, ?_⟩
  · rw [key]
    obtain ⟨_, _, _, _, signed⟩ | ⟨_, _, signed⟩ := signature
    · exact .inr ⟨_, signed⟩
    · exact .inl signed
  · intro positive isV1
    obtain ⟨_, isV2, _⟩ | ⟨v1, _⟩ := signature
    · exact absurd isV2 isV1
    · rw [needs positive] at v1
      exact nomatch v1

theorem guarded_next (filed : s.Filed cfg) (there : s.m.lookup h = some e) :
    Guarded cfg act h e ((s.next cfg act).m.lookup h) := by
  have frame (s' : Store) (same : s'.m = s.m) : Guarded cfg act h e (s'.m.lookup h) := by
    rw [same, there]
    exact guarded_same
  cases act with
  | claim turn body =>
    obtain ⟨_, same⟩ | ⟨c, found, right, _, ⟨_, same⟩ | ⟨e', written, put⟩⟩ :=
      @Store.claim_cases cfg s turn body
    · exact frame _ same
    · exact frame _ same
    · simp only [Store.next, Store.serve, put, Dict.lookup_set]
      split_ifs with same
      · subst same
        exact guarded_written there found right written
      · rw [there]
        exact guarded_same
  | release turn body =>
    obtain ⟨same, _⟩ | ⟨c, found, right, old, present, key, needs, _, removed, _⟩ :=
      @Store.release_cases cfg s turn body
    · exact frame _ same
    · simp only [Store.next, Store.serve, removed, Dict.lookup_remove]
      split_ifs with same
      · subst same
        rw [there] at present
        cases present
        exact guarded_removed key found right needs
      · rw [there]
        exact guarded_same
  | listing turn body =>
    obtain same | ⟨old, ts, present, key, newer, signed, put⟩ :=
      @Store.listing_cases cfg s turn body
    · exact frame _ same
    · simp only [Store.next, Store.serve, put, Dict.lookup_set]
      by_cases same : h = cfg.normal body.handle
      · rw [if_pos same]
        subst same
        rw [there] at present
        cases present
        refine ⟨fun _ => .inl ⟨rfl, key.symm, ts, key ▸ signed⟩, ?_, ?_, ?_, ?_⟩
        · rintro _ ⟨⟩
          rfl
        · rintro _ ⟨⟩
          rfl
        · rintro _ ⟨⟩
          exact newer.le
        · exact fun _ isV1 => by cases isV1
      · rw [if_neg same, there]
        exact guarded_same
  | restart turn =>
    obtain same | back := Store.lookup_restart filed h
    · simp only [Store.next, Store.serve, same, there]
      exact guarded_same
    · simp only [Store.next, Store.serve, back, there]
      refine ⟨fun _ => .inr ⟨⟨turn, rfl⟩, rfl⟩, ?_, ?_, ?_, ?_⟩
      · rintro _ ⟨⟩
        rfl
      · rintro _ ⟨⟩
        rfl
      · rintro _ ⟨⟩
        rfl
      · exact fun _ isV1 => by cases isV1

/-- A claim in the second version that is answered ok leaves a signed time. -/
theorem signedAt_of_claimsV2 (timely : act.Timely) (claims : act.ClaimsV2 cfg h)
    (ok : (s.serve cfg act).1 = .ok) :
    ∃ e, (s.next cfg act).m.lookup h = some e ∧ 0 < e.signedAt := by
  cases act with
  | claim turn body =>
    obtain ⟨rfl, isV2⟩ := claims
    obtain ⟨notOk, _⟩ | ⟨c, found, right, _, outcome⟩ := @Store.claim_cases cfg s turn body
    · exact absurd ok notOk
    subst found
    obtain ⟨v2, _, _, window, _⟩ | ⟨_, isV1, _⟩ := of_checkSig right
    · obtain ⟨⟨old, unchanged⟩, same⟩ | ⟨e, written, put⟩ := outcome
      · refine ⟨old, ?_, (unchanged.v2 v2).1⟩
        simp only [Store.next, Store.serve, same]
        exact unchanged.there
      · refine ⟨e, by simp [Store.next, Store.serve, put], ?_⟩
        have late : signSkew < turn.now := timely.2
        rw [written.signedAt v2]
        exact lt_of_lt_of_le (Int.sub_pos_of_lt late) window
    · exact absurd isV2 isV1
  | release turn body | listing turn body | restart turn => cases claims

end Steps

/-- In every registry each entry is its key's, with the invite and the listing signed.  Each
further step leaves an entry as it is unless the key signed the request for its handle (a restart
at most reads the bio back), keeps the key, and lowers neither time; a claim in the second
version gives a signed time, and an entry that has one takes no request in the first. -/
theorem owned_of_reached {cfg : Config} {s : Store}
    (reached : Store.Reached cfg (fun _ act => act.Timely) s) :
    AllOwned cfg s ∧ ∀ act : Act, act.Timely →
      (∀ h e, s.m.lookup h = some e → Guarded cfg act h e ((s.next cfg act).m.lookup h)) ∧
      ∀ h, act.ClaimsV2 cfg h → (s.serve cfg act).1 = .ok →
        ∃ e, (s.next cfg act).m.lookup h = some e ∧ 0 < e.signedAt := by
  have both : AllOwned cfg s ∧ s.Filed cfg := by
    refine reached.invariant (fun s => AllOwned cfg s ∧ s.Filed cfg) ⟨?_, .inl rfl⟩ ?_
    · exact fun h e there => nomatch there
    · rintro s _ act ⟨all, filed⟩ timely rfl
      exact ⟨all.next filed, filed.next timely.1⟩
  refine ⟨both.1, fun act timely => ⟨fun h e there => guarded_next both.2 there, ?_⟩⟩
  exact fun h claims ok => signedAt_of_claimsV2 timely claims ok

def listedActs : List Act :=
  [.claim { now := 1000 } (Body.small 1000 ['a']),
    .listing { now := 1000 } { Body.small 1000 with listed := ['1'], name := " a".toList }]

def listedMade : List Text :=
  [(Config.small []).claimMsgV2 "abc".toList ['a'] 1000,
    listingMsg "abc".toList true 1000 " a".toList]

theorem owned_of_reached_listed :
    AllOwned (Config.small listedMade) (Store.after (Config.small listedMade) listedActs) ∧
      ((Store.after (Config.small listedMade) listedActs).m.lookup "abc".toList).map Entry.name =
        some ['a'] := by
  exact ⟨(owned_of_reached (Store.reached_after _ listedActs (by decide))).1, by decide +kernel⟩

theorem mem_made_of_signed {made : List Text} {key msg : Text}
    (signed : Signed (Config.small made) key msg) :
    msg.flatMap String.utf8EncodeChar ∈ made.map fun text => text.flatMap String.utf8EncodeChar := by
  obtain ⟨sig, right⟩ := signed
  unfold Config.verifyMsg at right
  split at right
  · simp only [Bool.and_eq_true] at right
    exact of_decide_eq_true right.2
  · exact nomatch right

/-- A claim in the second version in the first ten minutes, and one in the first version after
it. -/
def earlyActs : List Act :=
  [.claim { now := 0 } (Body.small 0 ['a']),
    .claim { now := 0 } { Body.small 0 ['b'] with v := [] }]

def earlyMade : List Text :=
  [(Config.small []).claimMsgV2 "abc".toList ['a'] 0, claimMsgV1 "abc".toList]

/-- A claim with a bio that is cut inside its last character. -/
def cutAct (saves : Bool) : Act :=
  .claim { now := 1000, saves } { Body.small 1000 ['a'] with
    bio := List.replicate 199 'a' ++ [Char.ofNat 0xE9] }

/-- A stored name need not be the signed one.  A restart changes a bio that was cut inside a
character, and takes back a claim that was not written.  A claim in the second version that is
taken in the first ten minutes of the clock leaves the handle to the first version. -/
theorem not_owned_exactly :
    (∃ s e, Store.Reached (Config.small listedMade) (fun _ act => act.Timely) s ∧
      s.m.lookup "abc".toList = some e ∧ e.listed = true ∧
      ¬ Signed (Config.small listedMade) e.pubkey (listingMsg "abc".toList true e.listedAt e.name)) ∧
    (∃ s e, Store.Reached (Config.small listedMade) (fun _ act => act.Timely) s ∧
      s.m.lookup "abc".toList = some e ∧
      (s.next (Config.small listedMade) (.restart { now := 1000 })).m.lookup "abc".toList ≠ some e) ∧
    (∃ s e, Store.Reached (Config.small listedMade) (fun _ act => signSkew < act.turn.now) s ∧
      s.m.lookup "abc".toList = some e ∧
      (s.next (Config.small listedMade) (.restart { now := 1000 })).m.lookup "abc".toList = none) ∧
    (Store.serve (Config.small earlyMade) {} (earlyActs.getD 0 (.restart { now := 0 }))).1 = .ok ∧
      ((Store.after (Config.small earlyMade) earlyActs).m.lookup "abc".toList).map Entry.invite =
        some ['b'] := by
  refine ⟨?_, ?_, ?_, by decide +kernel, by decide +kernel⟩
  · have there : (Store.after (Config.small listedMade) listedActs).m.lookup "abc".toList = some
        { invite := ['a'], bio := [], pubkey := List.replicate 64 '0', signedAt := 1000
          listed := true, name := ['a'], listedAt := 1000 } := by decide +kernel
    exact ⟨_, _, Store.reached_after _ listedActs (by decide), there, rfl,
      fun signed => absurd (mem_made_of_signed signed) (by decide +kernel)⟩
  · obtain ⟨e, there⟩ := Option.isSome_iff_exists.mp (show ((Store.after (Config.small listedMade)
      [cutAct true]).m.lookup "abc".toList).isSome = true by decide +kernel)
    refine ⟨_, e, Store.reached_after _ [cutAct true] (by decide), there, ?_⟩
    rw [← there]
    decide +kernel
  · obtain ⟨e, there⟩ := Option.isSome_iff_exists.mp (show ((Store.after (Config.small listedMade)
      [cutAct false]).m.lookup "abc".toList).isSome = true by decide +kernel)
    exact ⟨_, e, Store.reached_after _ [cutAct false] (by decide), there, by decide +kernel⟩

end Kryfo.Handle
