import Kryfo.Handle.Registry

/-!
# What each request does

A request to the registry is refused, changes nothing, or changes the entry of its handle
after its signature was found right.  One lemma says it for each.
-/

namespace Kryfo.Handle

open Library

theorem of_checkSig {cfg : Config} {now : Int} {body : Body} {h : Text} {msgV2 : Int → Text}
    (right : (cfg.checkSig now body h msgV2).why = "") :
    (cfg.checkSig now body h msgV2).v2 = true ∧ body.v = ['2'] ∧
        cfg.scan body.ts = some (cfg.checkSig now body h msgV2).ts ∧
        now - signSkew ≤ (cfg.checkSig now body h msgV2).ts ∧
        cfg.verifyMsg body.pubkey body.sig (msgV2 (cfg.checkSig now body h msgV2).ts) = true ∨
      (cfg.checkSig now body h msgV2).v2 = false ∧ body.v ≠ ['2'] ∧
        cfg.verifyMsg body.pubkey body.sig (claimMsgV1 h) = true := by
  unfold Config.checkSig at right ⊢
  split_ifs at right ⊢ with isV2 isV1 old signed
  · left
    cases scanned : cfg.scan body.ts with
    | none => simp [scanned] at right
    | some ts =>
      simp only [scanned] at right ⊢
      split_ifs at right ⊢ with off signed
      · simp at right
      · exact ⟨rfl, isV2, rfl, Int.not_lt.mp fun early => off (.inl early), signed⟩
      · simp at right
  · simp at right
  · exact .inr ⟨rfl, isV2, signed⟩
  · simp at right
  · simp at right

namespace Store

variable {cfg : Config} {s : Store}

@[simp] theorem m_save (saves : Bool) (change : Answer × Store) :
    (save saves change).2.m = change.2.m := by
  unfold save
  split
  · split_ifs <;> rfl
  · rfl

@[simp] theorem gone_save (saves : Bool) (change : Answer × Store) :
    (save saves change).2.gone = change.2.gone := by
  unfold save
  split
  · split_ifs <;> rfl
  · rfl

theorem save_ne_ok {saves : Bool} {change : Answer × Store} (notOk : change.1 ≠ .ok) :
    (save saves change).1 ≠ .ok := by
  obtain ⟨answer, s⟩ := change
  cases answer with
  | ok => exact absurd rfl notOk
  | refused code error => exact Answer.noConfusion

end Store

/-- The entry a claim with a right signature writes, over the registry before it. -/
structure Written (cfg : Config) (s : Store) (body : Body) (c : Checked) (e : Entry) : Prop where
  invite : e.invite = body.invite
  pubkey : e.pubkey = body.pubkey
  origin :
    s.m.lookup (cfg.normal body.handle) = none ∧ (0 < s.goneAt (cfg.normal body.handle) →
          c.v2 = true ∧ s.goneAt (cfg.normal body.handle) < c.ts) ∧
        e.signedAt = (if c.v2 then c.ts else 0) ∧ e.listed = false ∧ e.name = [] ∧
        e.listedAt = 0 ∨
      ∃ old, s.m.lookup (cfg.normal body.handle) = some old ∧ old.pubkey = body.pubkey ∧
        (0 < old.signedAt → c.v2 = true) ∧ (c.v2 = true → old.signedAt ≤ c.ts) ∧
        e.signedAt = (if c.v2 then c.ts else old.signedAt) ∧ e.listed = old.listed ∧
        e.name = old.name ∧ e.listedAt = old.listedAt

theorem Written.signedAt {cfg : Config} {s : Store} {body : Body} {c : Checked} {e : Entry}
    (written : Written cfg s body c e) (v2 : c.v2 = true) : e.signedAt = c.ts := by
  obtain ⟨_, _, time, _⟩ | ⟨old, _, _, _, _, time, _⟩ := written.origin
  · exact time.trans (if_pos v2)
  · exact time.trans (if_pos v2)

/-- The entry that a claim with a right signature finds as it wants it. -/
structure Unchanged (cfg : Config) (s : Store) (body : Body) (c : Checked) (old : Entry) : Prop where
  there : s.m.lookup (cfg.normal body.handle) = some old
  invite : old.invite = body.invite
  bio : old.bio = cfg.cutBio body.bio
  v2 : c.v2 = true → 0 < old.signedAt ∧ old.signedAt ≤ c.ts

namespace Store

variable {cfg : Config} {s : Store}

theorem claimTx_cases (fresh : Bool) (body : Body) (c : Checked) :
    (s.claimTx cfg fresh (cfg.normal body.handle) body c).1 ≠ .ok ∧
        (s.claimTx cfg fresh (cfg.normal body.handle) body c).2 = s ∨
      (∃ old, Unchanged cfg s body c old) ∧
        (s.claimTx cfg fresh (cfg.normal body.handle) body c).2 = s ∨
      ∃ e, Written cfg s body c e ∧ (s.claimTx cfg fresh (cfg.normal body.handle) body c).2 =
          s.put (cfg.normal body.handle) e := by
  unfold claimTx
  cases there : s.m.lookup (cfg.normal body.handle) with
  | some old =>
    dsimp only
    by_cases taken : old.pubkey ≠ body.pubkey
    · rw [if_pos taken]
      exact .inl ⟨Answer.noConfusion, rfl⟩
    rw [if_neg taken]
    by_cases v1 : 0 < old.signedAt ∧ c.v2 = false
    · rw [if_pos v1]
      exact .inl ⟨Answer.noConfusion, rfl⟩
    rw [if_neg v1]
    by_cases older : c.v2 = true ∧ c.ts < old.signedAt
    · rw [if_pos older]
      exact .inl ⟨Answer.noConfusion, rfl⟩
    rw [if_neg older]
    by_cases same : old.invite = body.invite ∧ old.bio = cfg.cutBio body.bio ∧
        (c.v2 = false ∨ 0 < old.signedAt)
    · rw [if_pos same]
      refine .inr (.inl ⟨⟨old, there, same.1, same.2.1, fun v2 => ?_⟩, rfl⟩)
      exact ⟨by simpa [v2] using same.2.2, by simpa [v2] using older⟩
    · rw [if_neg same]
      refine .inr (.inr ⟨_, ⟨rfl, rfl, .inr ⟨old, there, ?_, ?_, ?_, ?_⟩⟩, rfl⟩)
      · simpa using taken
      · intro signed
        simpa [signed] using v1
      · intro v2
        simpa [v2] using older
      · exact ⟨rfl, rfl, rfl, rfl⟩
  | none =>
    dsimp only
    by_cases older : 0 < s.goneAt (cfg.normal body.handle) ∧
        (c.v2 = false ∨ c.ts ≤ s.goneAt (cfg.normal body.handle))
    · rw [if_pos older]
      exact .inl ⟨Answer.noConfusion, rfl⟩
    rw [if_neg older]
    split
    · exact .inl ⟨Answer.noConfusion, rfl⟩
    split
    · exact .inl ⟨Answer.noConfusion, rfl⟩
    refine .inr (.inr ⟨_, ⟨rfl, rfl, .inl ⟨there, ?_, rfl, rfl, rfl, rfl⟩⟩, rfl⟩)
    simpa [gone] using older

theorem claim_cases (turn : Turn) (body : Body) :
    (s.claim cfg turn body).1 ≠ .ok ∧ (s.claim cfg turn body).2.m = s.m ∨
      ∃ c : Checked, c = cfg.checkSig turn.now body (cfg.normal body.handle)
          (cfg.claimMsgV2 (cfg.normal body.handle) body.invite) ∧ c.why = "" ∧
        cfg.inviteIsKeys body.invite body.pubkey = true ∧
        ((∃ old, Unchanged cfg s body c old) ∧ (s.claim cfg turn body).2.m = s.m ∨
          ∃ e, Written cfg s body c e ∧
            (s.claim cfg turn body).2.m = s.m.set (cfg.normal body.handle) e) := by
  unfold claim
  dsimp only
  split
  · exact .inl ⟨Answer.noConfusion, rfl⟩
  split
  · exact .inl ⟨Answer.noConfusion, rfl⟩
  split
  · exact .inl ⟨Answer.noConfusion, rfl⟩
  generalize found : cfg.checkSig turn.now body (cfg.normal body.handle)
    (cfg.claimMsgV2 (cfg.normal body.handle) body.invite) = c
  by_cases wrong : c.why ≠ ""
  · rw [if_pos wrong]
    exact .inl ⟨Answer.noConfusion, rfl⟩
  rw [if_neg wrong]
  by_cases keys : (!cfg.inviteIsKeys body.invite body.pubkey) = true
  · rw [if_pos keys]
    exact .inl ⟨Answer.noConfusion, rfl⟩
  rw [if_neg keys, m_save]
  have right : c.why = "" := not_not.mp wrong
  have isKeys : cfg.inviteIsKeys body.invite body.pubkey = true := by simpa using keys
  obtain ⟨notOk, same⟩ | ⟨old, same⟩ | ⟨e, written, put⟩ :=
    @claimTx_cases cfg s turn.fresh body c
  · exact .inl ⟨save_ne_ok notOk, congrArg m same⟩
  · exact .inr ⟨c, rfl, right, isKeys, .inl ⟨old, congrArg m same⟩⟩
  · exact .inr ⟨c, rfl, right, isKeys, .inr ⟨e, written, congrArg m put⟩⟩

theorem gone_claim (turn : Turn) (body : Body) : (s.claim cfg turn body).2.gone = s.gone := by
  unfold claim
  dsimp only
  split
  · rfl
  split
  · rfl
  split
  · rfl
  split
  · rfl
  split
  · rfl
  rw [gone_save]
  obtain ⟨_, same⟩ | ⟨_, same⟩ | ⟨e, _, put⟩ := @claimTx_cases cfg s turn.fresh body
    (cfg.checkSig turn.now body (cfg.normal body.handle)
      (cfg.claimMsgV2 (cfg.normal body.handle) body.invite))
  · exact congrArg gone same
  · exact congrArg gone same
  · rw [put]
    rfl

theorem release_cases (turn : Turn) (body : Body) :
    (s.release cfg turn body).2.m = s.m ∧ (s.release cfg turn body).2.gone = s.gone ∧
        ((s.release cfg turn body).1 = .ok → s.m.lookup (cfg.normal body.handle) = none) ∨
      ∃ c : Checked, c = cfg.checkSig turn.now body (cfg.normal body.handle)
          (releaseMsgV2 (cfg.normal body.handle)) ∧ c.why = "" ∧
        ∃ e, s.m.lookup (cfg.normal body.handle) = some e ∧ e.pubkey = body.pubkey ∧
          (0 < e.signedAt → c.v2 = true) ∧ (c.v2 = true → e.signedAt ≤ c.ts) ∧
          (s.release cfg turn body).2.m = s.m.remove (cfg.normal body.handle) ∧
          (s.release cfg turn body).2.gone =
            (s.gone.keep fun _ v => turn.later - 2 * signSkew ≤ v).set (cfg.normal body.handle)
              (if c.v2 then c.ts else turn.now) := by
  unfold release
  split
  · exact .inl ⟨rfl, rfl, fun ok => by cases ok⟩
  dsimp only
  rw [m_save, gone_save]
  generalize cfg.checkSig turn.now body (cfg.normal body.handle)
    (releaseMsgV2 (cfg.normal body.handle)) = c
  unfold releaseTx
  cases there : s.m.lookup (cfg.normal body.handle) with
  | none => exact .inl ⟨rfl, rfl, fun _ => rfl⟩
  | some e =>
    dsimp only
    by_cases notYours : c.why = "signature does not match" ∨ e.pubkey ≠ body.pubkey
    · rw [if_pos notYours]
      exact .inl ⟨rfl, rfl, fun ok => by cases ok⟩
    rw [if_neg notYours]
    by_cases wrong : c.why ≠ ""
    · rw [if_pos wrong]
      exact .inl ⟨rfl, rfl, fun ok => by cases ok⟩
    rw [if_neg wrong]
    by_cases v1 : 0 < e.signedAt ∧ c.v2 = false
    · rw [if_pos v1]
      exact .inl ⟨rfl, rfl, fun ok => by cases ok⟩
    rw [if_neg v1]
    by_cases older : c.v2 = true ∧ c.ts < e.signedAt
    · rw [if_pos older]
      exact .inl ⟨rfl, rfl, fun ok => by cases ok⟩
    rw [if_neg older]
    refine .inr ⟨c, rfl, not_not.mp wrong, e, rfl, ?_, ?_, ?_, rfl, rfl⟩
    · exact not_not.mp fun other => notYours (.inr other)
    · intro signed
      simpa [signed] using v1
    · intro v2
      simpa [v2] using older

/-- A listing changes nothing, or its signature is right and newer, and it is written. -/
theorem listing_cases (turn : Turn) (body : Body) :
    (s.listing cfg turn body).2.m = s.m ∨
      ∃ e ts, s.m.lookup (cfg.normal body.handle) = some e ∧ e.pubkey = body.pubkey ∧
        e.listedAt < ts ∧
        cfg.verifyMsg body.pubkey body.sig (listingMsg (cfg.normal body.handle)
          (body.listed = ['1']) ts body.name) = true ∧
        (s.listing cfg turn body).2.m = s.m.set (cfg.normal body.handle) { e with
          listed := body.listed = ['1'], listedAt := ts
          name := if (body.listed = ['1'] : Bool) then cleanName body.name else [] } := by
  unfold listing
  by_cases pace : (!turn.allow) = true
  · rw [if_pos pace]
    exact .inl rfl
  rw [if_neg pace, m_save]
  unfold listingTx
  cases there : s.m.lookup (cfg.normal body.handle) with
  | none => exact .inl rfl
  | some e =>
    cases cfg.scan body.ts with
    | none => exact .inl rfl
    | some ts =>
      dsimp only
      by_cases off : ts < turn.now - listingSkew ∨ turn.now + listingSkew < ts
      · rw [if_pos off]
        exact .inl rfl
      rw [if_neg off]
      by_cases older : ts ≤ e.listedAt
      · rw [if_pos older]
        exact .inl rfl
      rw [if_neg older]
      by_cases shape : body.listed ≠ ['1'] ∧ body.listed ≠ ['0']
      · rw [if_pos shape]
        exact .inl rfl
      rw [if_neg shape]
      by_cases wrong : e.pubkey ≠ body.pubkey ∨ cfg.verifyMsg body.pubkey body.sig
          (listingMsg (cfg.normal body.handle) (decide (body.listed = ['1'])) ts body.name) = false
      · rw [if_pos wrong]
        exact .inl rfl
      rw [if_neg wrong]
      simp only [not_or, not_not, Bool.not_eq_false] at wrong
      exact .inr ⟨e, ts, rfl, wrong.1, Int.not_le.mp older, wrong.2, rfl⟩

theorem gone_listing (turn : Turn) (body : Body) : (s.listing cfg turn body).2.gone = s.gone := by
  unfold listing listingTx
  split
  · rfl
  rw [gone_save]
  split
  · rfl
  split
  · rfl
  dsimp only
  split
  · rfl
  split
  · rfl
  split
  · rfl
  split <;> rfl

/-- An ok that changed something, or nothing changed. -/
def Whole (s : Store) (change : Answer × Store) : Prop :=
  change.1 = .ok ∧ change.2.saved = false ∨ change.2 = s

theorem whole_claimTx (fresh : Bool) (h : Text) (body : Body) (c : Checked) :
    Whole s (s.claimTx cfg fresh h body c) := by
  unfold claimTx
  cases s.m.lookup h with
  | some old | none =>
    dsimp only
    split_ifs <;> simp [Whole, put]

theorem whole_releaseTx (now later : Int) (h : Text) (body : Body) (c : Checked) :
    Whole s (s.releaseTx now later h body c) := by
  unfold releaseTx
  cases s.m.lookup h with
  | some e =>
    dsimp only
    split_ifs <;> simp [Whole, del]
  | none => exact .inr rfl

theorem whole_listingTx (now : Int) (h : Text) (body : Body) :
    Whole s (s.listingTx cfg now h body) := by
  unfold listingTx
  cases s.m.lookup h with
  | none => exact .inr rfl
  | some e =>
    cases cfg.scan body.ts with
    | none => exact .inr rfl
    | some ts =>
      dsimp only
      split_ifs <;> simp [Whole, put]

/-- The file holds the registry, or the registry is what the file was read back as. -/
def Filed (cfg : Config) (s : Store) : Prop :=
  s.m = s.file ∨ s.m = s.file.mapValues fun e => { e with bio := cfg.readBack e.bio }

theorem Filed.save {saves : Bool} {change : Answer × Store} (filed : Filed cfg s)
    (written : saves = true) (whole : Whole s change) : Filed cfg (Store.save saves change).2 := by
  unfold Store.save
  split
  · next s' =>
    rw [if_pos written]
    split_ifs with isSaved
    · obtain ⟨-, changed⟩ | same := whole
      · exact absurd isSaved (Bool.eq_false_iff.mp changed)
      · exact same ▸ filed
    · exact .inl rfl
  · obtain ⟨wrong, -⟩ | same := whole
    · exact nomatch wrong
    · exact same ▸ filed

theorem Filed.next {act : Act} (filed : Filed cfg s) (written : act.turn.saves = true) :
    Filed cfg (s.next cfg act) := by
  cases act with
  | claim turn body =>
    simp only [Store.next, serve, claim]
    split
    · exact filed
    split
    · exact filed
    split
    · exact filed
    split
    · exact filed
    split
    · exact filed
    exact filed.save written (whole_claimTx ..)
  | release turn body =>
    simp only [Store.next, serve, release]
    split
    · exact filed
    · exact filed.save written (whole_releaseTx ..)
  | listing turn body =>
    simp only [Store.next, serve, listing]
    split
    · exact filed
    · exact filed.save written (whole_listingTx ..)
  | restart turn => exact .inr rfl

/-- What a restart makes of an entry: nothing, or its bio as it is read back. -/
theorem lookup_restart (filed : Filed cfg s) (h : Text) :
    (s.restart cfg).m.lookup h = s.m.lookup h ∨ (s.restart cfg).m.lookup h =
        (s.m.lookup h).map fun e => { e with bio := cfg.readBack e.bio } := by
  obtain same | back := filed
  · simp [restart, same]
  · simp [restart, back]

end Store

end Kryfo.Handle
