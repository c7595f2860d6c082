import Kryfo.Burn.Sweep
import Kryfo.Library.Run
import Mathlib.Tactic

/-!
# What a burned message leaves

A row that became due after a sweep read goes unnoted and its files stay, and the sweep on the
timer leaves the reactions of what it deletes.  Otherwise a burned message leaves nothing.
-/

namespace Kryfo.Burn

open Library List

/-- One that came in with a uid, in a chat they are kept for and lately enough, is noted as gone, at
the earliest as it came. -/
def Db.Noted (s : Db) (r : Row) : Prop :=
  r.info.incoming = true → ∀ uid ∈ r.info.uid, goneKept r.info.group = true →
    s.clock - r.info.sentAt < kGoneFor →
      ∃ noted, s.gone (uid, goneKey r.info.peer r.info.group) = some noted ∧ r.info.sentAt ≤ noted

def Db.Unreacted (s : Db) (r : Row) : Prop :=
  ∀ uid ∈ r.info.uid, ∀ reaction ∈ s.reactions, reaction.1 ≠ uid

def Db.Shredded (s : Db) (r : Row) : Prop :=
  ∀ path ∈ r.info.mediaPath.toList ++ r.info.filePath.toList, path ≠ [] → path ∈ s.shredded

def Db.goneFrom (s : Db) (peer uid : Text) : Prop :=
  ∃ noted, s.gone (uid, peer) = some noted ∧ s.clock - noted < kGoneFor

structure Db.Traceless (s : Db) (r : Row) : Prop where
  files : s.Shredded r
  reactions : s.Unreacted r
  gone : r.info.incoming = true → ∀ uid ∈ r.info.uid, goneKept r.info.group = true →
    s.clock - r.info.sentAt < kGoneFor → s.goneFrom (goneKey r.info.peer r.info.group) uid

instance (s : Db) : DecidablePred s.Unreacted := fun r =>
  inferInstanceAs (Decidable (∀ uid ∈ r.info.uid, ∀ reaction ∈ s.reactions, reaction.1 ≠ uid))

/-- What a sweep deletes next it has read, and if it leaves the reactions there are none. -/
def Sweep.Orderly (s : Db) : Sweep → Prop
  | ⟨kind, .delete f⟩ =>
    ∀ r ∈ s.rows, Db.due f.cut r = true →
      r.id ∈ f.going.map Row.id ∧ (kind = .timer → s.Unreacted r)
  | ⟨kind, .drop _ todo⟩ =>
    ∀ r ∈ s.rows, r.id ∈ (todo.take dropMost).map Row.id → kind = .timer → s.Unreacted r
  | _ => True

instance (s : Db) : DecidablePred (Sweep.Orderly s)
  | ⟨kind, .delete f⟩ => inferInstanceAs (Decidable (∀ r ∈ s.rows, Db.due f.cut r = true →
      r.id ∈ f.going.map Row.id ∧ (kind = .timer → s.Unreacted r)))
  | ⟨kind, .drop _ todo⟩ => inferInstanceAs (Decidable (∀ r ∈ s.rows,
      r.id ∈ (todo.take dropMost).map Row.id → kind = .timer → s.Unreacted r))
  | ⟨_, .start⟩ | ⟨_, .stranded _ _⟩ | ⟨_, .query⟩ | ⟨_, .queryIdle _ _⟩ | ⟨_, .note _⟩
  | ⟨_, .forget _⟩ | ⟨_, .reactions _ _⟩ | ⟨_, .scrub _ _⟩ | ⟨_, .blocked _⟩
  | ⟨_, .lightWaited _ _⟩ | ⟨_, .ended⟩ => .isTrue trivial

def App.Orderly (p : App) : Act → Prop
  | .turn i _ => ∀ t ∈ p.tasks[i]?, t.Orderly p.shared
  | _ => True

def App.Lawful (p : App) : Act → Prop
  | .file info _ => info.sentAt ≤ p.shared.clock
  | _ => True

/-! ## What every statement keeps -/

section Keeping

variable {s s' : Db} {r x : Row} {l : List Row}

structure Db.Onward (s s' : Db) : Prop where
  nextId : s.nextId ≤ s'.nextId := by exact le_rfl
  clock : s.clock ≤ s'.clock := by exact le_rfl
  rows : ∀ r' ∈ s'.rows, (∃ r ∈ s.rows, r.id = r'.id ∧ r.info = r'.info) ∨ s.nextId ≤ r'.id := by
    exact fun r' here => .inl ⟨r', here, rfl, rfl⟩
  reactions : s'.reactions ⊆ s.reactions := by exact .refl _
  noted : ∀ r, r.info.sentAt ≤ s.clock → s.Noted r → s'.Noted r := by
    exact fun _ _ noted => noted
  shredded : s.shredded ⊆ s'.shredded := by exact .refl _

/-- Every row has an id of its own and came before now; one removed is noted as gone and has no
reaction. -/
structure Db.Sound (s : Db) : Prop where
  ids : ∀ r ∈ s.rows, r.id < s.nextId
  same : ∀ r ∈ s.rows, ∀ r' ∈ s.rows, r.id = r'.id → r.info = r'.info
  came : ∀ r ∈ s.rows, r.info.sentAt ≤ s.clock
  removed : ∀ r ∈ s.removed, r.info.sentAt ≤ s.clock ∧ s.Noted r ∧ s.Unreacted r

/-- Rows that were read: one that is still here is the same. -/
def Db.Listed (s : Db) (l : List Row) : Prop :=
  ∀ x ∈ l, x.id < s.nextId ∧ x.info.sentAt ≤ s.clock ∧ ∀ r ∈ s.rows, r.id = x.id → r.info = x.info

theorem Db.Sound.listed (sound : s.Sound) (p : Row → Bool) : s.Listed (s.rows.filter p) := by
  intro x inside
  have here := mem_of_mem_filter inside
  exact ⟨sound.ids x here, sound.came x here, fun r isRow => sound.same r isRow x here⟩

theorem Db.Listed.append {l' : List Row} (first : s.Listed l) (next : s.Listed l') :
    s.Listed (l ++ l') := by
  intro x inside
  obtain inside | inside := mem_append.mp inside
  · exact first x inside
  · exact next x inside

theorem Db.Unreacted.onward (none : s.Unreacted r) (on : s.Onward s') : s'.Unreacted r :=
  fun uid isUid reaction inside => none uid isUid reaction (on.reactions inside)

theorem Db.Shredded.onward (files : s.Shredded r) (on : s.Onward s') : s'.Shredded r :=
  fun path inside some => on.shredded (files path inside some)

theorem Db.Listed.onward (listed : s.Listed l) (on : s.Onward s') : s'.Listed l := by
  intro x inside
  obtain ⟨id, came, same⟩ := listed x inside
  refine ⟨id.trans_le on.nextId, came.trans on.clock, fun r' here sameId => ?_⟩
  obtain ⟨r, here, idEq, infoEq⟩ | new := on.rows r' here
  · rw [← infoEq]
    exact same r here (idEq.trans sameId)
  · omega

theorem Db.Sound.onward (sound : s.Sound) (on : s.Onward s')
    (rows : ∀ r' ∈ s'.rows, ∃ r ∈ s.rows, r.id = r'.id ∧ r.info = r'.info)
    (removed : ∀ r ∈ s'.removed, r ∈ s.removed ∨
      r.info.sentAt ≤ s'.clock ∧ s'.Noted r ∧ s'.Unreacted r) : s'.Sound := by
  refine ⟨?_, ?_, ?_, ?_⟩
  · intro r' here
    obtain ⟨r, here, id, -⟩ := rows r' here
    have := sound.ids r here
    have := on.nextId
    omega
  · intro r here r' here' sameId
    obtain ⟨x, isRow, id, info⟩ := rows r here
    obtain ⟨x', isRow', id', info'⟩ := rows r' here'
    rw [← info, ← info']
    exact sound.same x isRow x' isRow' (by omega)
  · intro r' here
    obtain ⟨r, here, -, info⟩ := rows r' here
    rw [← info]
    exact (sound.came r here).trans on.clock
  · intro r inside
    obtain old | new := removed r inside
    · obtain ⟨came, noted, none⟩ := sound.removed r old
      exact ⟨came.trans on.clock, on.noted r came noted, none.onward on⟩
    · exact new

theorem Db.Sound.still (sound : s.Sound) (on : s.Onward s') (rows : s'.rows = s.rows)
    (removed : s'.removed = s.removed) : s'.Sound :=
  sound.onward on (fun r' here => ⟨r', rows ▸ here, rfl, rfl⟩) fun _ old => .inl (removed ▸ old)

/-! ### Each statement -/

variable {rows : List Row}

theorem mem_of_sameRows {rows' : List Row} (same : SameRows rows rows') :
    ∀ r' ∈ rows', ∃ r ∈ rows, r.id = r'.id ∧ r.info = r'.info := by
  intro r' here
  have both : (r'.id, r'.info) ∈ rows.map fun r => (r.id, r.info) :=
    same ▸ mem_map.mpr ⟨r', here, rfl⟩
  obtain ⟨r, isRow, eq⟩ := mem_map.mp both
  exact ⟨r, isRow, congrArg Prod.fst eq, congrArg Prod.snd eq⟩

theorem Db.onward_light (same : SameRows s.rows rows) : s.Onward (s.light rows) where
  rows r' here := .inl (mem_of_sameRows same r' here)

theorem Db.Sound.light (sound : s.Sound) (same : SameRows s.rows rows) : (s.light rows).Sound :=
  sound.onward (onward_light same) (mem_of_sameRows same) fun _ old => .inl old

theorem Db.onward_saveMessage (s : Db) (info : Info) (burnAt : Option Int) :
    s.Onward (s.saveMessage info burnAt) := by
  refine { nextId := Nat.le_succ _, rows := fun r' here => ?_ }
  obtain old | new := mem_append.mp here
  · exact .inl ⟨r', old, rfl, rfl⟩
  · rw [mem_singleton.mp new]
    exact .inr le_rfl

theorem Db.Sound.saveMessage (sound : s.Sound) {info : Info} (burnAt : Option Int)
    (came : info.sentAt ≤ s.clock) : (s.saveMessage info burnAt).Sound := by
  have cases : ∀ r ∈ (s.saveMessage info burnAt).rows,
      r ∈ s.rows ∨ r.id = s.nextId ∧ r.info = info := by
    intro r here
    obtain old | new := mem_append.mp here
    · exact .inl old
    · rw [mem_singleton.mp new]
      exact .inr ⟨rfl, rfl⟩
  refine ⟨fun r here => ?_, fun r here r' here' sameId => ?_, fun r here => ?_, sound.removed⟩
  · obtain old | ⟨id, -⟩ := cases r here
    · exact (sound.ids r old).trans (Nat.lt_succ_self _)
    · exact id ▸ Nat.lt_succ_self _
  · obtain old | ⟨id, info⟩ := cases r here
    · obtain old' | ⟨id', -⟩ := cases r' here'
      · exact sound.same r old r' old' sameId
      · have := sound.ids r old
        omega
    · obtain old' | ⟨-, info'⟩ := cases r' here'
      · have := sound.ids r' old'
        omega
      · rw [info, info']
  · obtain old | ⟨-, info⟩ := cases r here
    · exact sound.came r old
    · exact info ▸ came

theorem Db.noteRow_cases (now : Int) (gone : Text × Text → Option Int) (r : Row)
    (key : Text × Text) :
    noteRow now gone r key = gone key ∨ noteRow now gone r key = some now := by
  unfold noteRow
  cases r.info.uid with
  | none => exact .inl rfl
  | some uid =>
    split_ifs
    · exact .inl rfl
    · cases r.info.album <;> simp only [Function.update_apply] <;> split_ifs <;> simp

theorem Db.foldl_noteRow_cases (now : Int) (gone : Text × Text → Option Int) (l : List Row)
    (key : Text × Text) :
    l.foldl (noteRow now) gone key = gone key ∨ l.foldl (noteRow now) gone key = some now := by
  induction l generalizing gone with
  | nil => exact .inl rfl
  | cons r l ih =>
    obtain same | noted := ih (noteRow now gone r)
    · rw [foldl_cons, same]
      exact noteRow_cases now gone r key
    · exact .inr noted

theorem Db.onward_noteGone (s : Db) (l : List Row) : s.Onward (s.noteGone l) := by
  refine { noted := fun r came noted incoming uid isUid kept recent => ?_ }
  obtain ⟨noted, entry, after⟩ := noted incoming uid isUid kept recent
  obtain same | now := foldl_noteRow_cases s.clock s.gone l (uid, goneKey r.info.peer r.info.group)
  · exact ⟨noted, same.trans entry, after⟩
  · exact ⟨s.clock, now, came⟩

theorem Db.noteRow_self {now : Int} {gone : Text × Text → Option Int} {uid : Text}
    (incoming : r.info.incoming = true) (isUid : r.info.uid = some uid)
    (kept : goneKept r.info.group = true) (recent : now - r.info.sentAt < kGoneFor) :
    noteRow now gone r (uid, goneKey r.info.peer r.info.group) = some now := by
  have young : ¬ (r.info.incoming = false ∨ r.info.sentAt < now - kGoneFor - day ∨
      goneKept r.info.group = false) := by
    have positive : 0 < day := by decide
    rw [incoming, kept]
    simp only [Bool.true_eq_false, false_or, or_false]
    omega
  unfold noteRow
  simp only [isUid, if_neg young]
  cases r.info.album with
  | none => exact Function.update_self _ _ _
  | some album =>
    dsimp only
    rw [Function.update_apply]
    split_ifs
    · rfl
    · exact Function.update_self _ _ _

theorem Db.noted_noteGone (inside : x ∈ l) (came : x.info.sentAt ≤ s.clock) :
    (s.noteGone l).Noted x := by
  intro incoming uid isUid kept recent
  refine ⟨s.clock, ?_, came⟩
  obtain ⟨before, after, rfl⟩ := append_of_mem inside
  have hit : noteRow s.clock (before.foldl (noteRow s.clock) s.gone) x
      (uid, goneKey x.info.peer x.info.group) = some s.clock :=
    noteRow_self incoming isUid kept recent
  simp only [noteGone, foldl_append]
  obtain same | now := foldl_noteRow_cases s.clock
    (noteRow s.clock (before.foldl (noteRow s.clock) s.gone) x) after
    (uid, goneKey x.info.peer x.info.group)
  · exact same.trans hit
  · exact now

theorem Db.onward_forgetGone {now : Int} (past : now ≤ s.clock) : s.Onward (s.forgetGone now) := by
  refine { noted := fun r came noted incoming uid isUid kept recent => ?_ }
  obtain ⟨noted, entry, after⟩ := noted incoming uid isUid kept recent
  refine ⟨noted, ?_, after⟩
  have recent : s.clock - r.info.sentAt < kGoneFor := recent
  have young : ¬ noted < now - kGoneFor := by omega
  simp only [forgetGone, entry, Option.filter_some, young, not_false_eq_true, decide_true, if_true]

theorem Db.onward_dropReactions (s : Db) (r : Row) : s.Onward (s.dropReactions r) := by
  unfold dropReactions
  split
  · exact {}
  · exact { reactions := filter_subset_self _ }

theorem Db.unreacted_dropReactions (s : Db) (r : Row) : (s.dropReactions r).Unreacted r := by
  intro uid isUid reaction inside
  have isUid : r.info.uid = some uid := isUid
  simp only [dropReactions, isUid] at inside
  simpa using (mem_filter.mp inside).2

theorem Db.onward_deleteRows (s : Db) (p : Row → Bool) : s.Onward (s.deleteRows p) where
  rows r' here := .inl ⟨r', mem_of_mem_filter here, rfl, rfl⟩

theorem Db.onward_shredFiles (s : Db) (r : Row) : s.Onward (s.shredFiles r) where
  shredded := subset_append_left _ _

theorem Db.shredded_shredFiles {r' : Row} (same : r.info = r'.info) :
    (s.shredFiles r).Shredded r' := by
  intro path inside some
  refine mem_append_right _ (mem_filter.mpr ⟨?_, by simpa using some⟩)
  rw [same]
  exact inside

theorem Db.onward_tick (s : Db) (ms : Nat) : s.Onward { s with clock := s.clock + ms } := by
  refine { clock := by simp, noted := fun r came noted incoming uid isUid kept recent => ?_ }
  refine noted incoming uid isUid kept ?_
  dsimp only at recent
  omega

/-! ### What holds of a sweep -/

/-- From a sweep's second read on what is to go was read, from its note on it is noted, and from the
drop of its reactions on it has none. -/
def Sweep.Good (s : Db) (t : Sweep) : Prop :=
  match t.stage with
  | .queryIdle _ due => s.Listed due
  | .note f => s.Listed f.going ∧ f.now ≤ s.clock
  | .forget f => t.kind = .timer ∧ s.Listed f.going ∧ f.now ≤ s.clock ∧ ∀ x ∈ f.going, s.Noted x
  | .reactions f todo =>
    s.Listed f.going ∧ (∀ x ∈ f.going, s.Noted x) ∧ ∀ x ∈ f.going, x ∈ todo ∨ s.Unreacted x
  | .delete f =>
    s.Listed f.going ∧ (∀ x ∈ f.going, s.Noted x) ∧ (t.kind = .chat → ∀ x ∈ f.going, s.Unreacted x)
  | .drop f todo =>
    (s.Listed f.going ∧ (∀ x ∈ f.going, s.Noted x) ∧
      (t.kind = .chat → ∀ x ∈ f.going, s.Unreacted x)) ∧ todo ⊆ f.going
  | _ => True

/-- What a sweep that has deleted its rows is still to hand to the shredder. -/
def Sweep.pending (t : Sweep) : List Row :=
  match t.stage with
  | .drop f _ => f.going
  | .scrub _ todo => todo
  | _ => []

theorem noted_onward (listed : s.Listed l) (noted : ∀ x ∈ l, s.Noted x) (on : s.Onward s') :
    ∀ x ∈ l, s'.Noted x :=
  fun x inside => on.noted x (listed x inside).2.1 (noted x inside)

variable {t : Sweep}

theorem Sweep.Good.onward (good : t.Good s) (on : s.Onward s') : t.Good s' := by
  obtain ⟨kind, stage⟩ := t
  cases stage with
  | queryIdle cut due => exact Db.Listed.onward good on
  | note f => exact ⟨good.1.onward on, good.2.trans on.clock⟩
  | forget f =>
    obtain ⟨timer, listed, past, noted⟩ := good
    exact ⟨timer, listed.onward on, past.trans on.clock, noted_onward listed noted on⟩
  | reactions f todo =>
    obtain ⟨listed, noted, none⟩ := good
    exact ⟨listed.onward on, noted_onward listed noted on,
      fun x inside => (none x inside).imp_right fun none => none.onward on⟩
  | delete f =>
    obtain ⟨listed, noted, none⟩ := good
    exact ⟨listed.onward on, noted_onward listed noted on,
      fun chat x inside => (none chat x inside).onward on⟩
  | drop f todo =>
    obtain ⟨⟨listed, noted, none⟩, sub⟩ := good
    exact ⟨⟨listed.onward on, noted_onward listed noted on,
      fun chat x inside => (none chat x inside).onward on⟩, sub⟩
  | _ => trivial

/-- What one statement of a sweep comes to. -/
structure StepOk (s : Db) (t : Sweep) (out : Db × Sweep) : Prop where
  sound : out.1.Sound
  onward : s.Onward out.1
  good : out.2.Good out.1
  /-- What it removes it will shred. -/
  removes : ∀ r ∈ out.1.removed, r ∈ s.removed ∨ ∃ x ∈ out.2.pending, x.info = r.info
  /-- What it was to shred it has shredded, or will. -/
  shreds : ∀ x ∈ t.pending, x ∈ out.2.pending ∨ ∀ r : Row, x.info = r.info → out.1.Shredded r

theorem StepOk.of_none {t' : Sweep} (sound : s'.Sound) (on : s.Onward s') (good : t'.Good s')
    (removed : s'.removed = s.removed) (none : t.pending = []) : StepOk s t (s', t') where
  sound := sound
  onward := on
  good := good
  removes := fun _ inside => .inl (removed ▸ inside)
  shreds := by simp [none]

variable {f : Found}

theorem stepOk_deleteRows {t' : Sweep} {p : Row → Bool} (sound : s.Sound)
    (going : s.Listed f.going ∧ (∀ x ∈ f.going, s.Noted x) ∧ (t.kind = .chat → ∀ x ∈ f.going, s.Unreacted x))
    (read : ∀ r ∈ s.rows, p r = true → r.id ∈ f.going.map Row.id ∧ (t.kind = .timer → s.Unreacted r))
    (good : t'.Good (s.deleteRows p)) (pending : t'.pending = f.going) (sub : t.pending ⊆ f.going) :
    StepOk s t (s.deleteRows p, t') := by
  have on := s.onward_deleteRows p
  have known : ∀ r ∈ s.rows.filter p, ∃ x ∈ f.going, x.info = r.info := by
    intro r inside
    obtain ⟨here, picked⟩ := mem_filter.mp inside
    obtain ⟨x, isGoing, id⟩ := mem_map.mp (read r here picked).1
    exact ⟨x, isGoing, ((going.1 x isGoing).2.2 r here id.symm).symm⟩
  refine ⟨?_, on, good, fun r inside => ?_, fun x inside => .inl (pending ▸ sub inside)⟩
  · refine sound.onward on (fun r' here => ⟨r', mem_of_mem_filter here, rfl, rfl⟩) ?_
    intro r inside
    obtain old | new := mem_append.mp inside
    · exact .inl old
    · refine .inr ⟨sound.came r (mem_of_mem_filter new), ?_, ?_⟩
      · obtain ⟨x, isGoing, info⟩ := known r new
        have noted := going.2.1 x isGoing
        unfold Db.Noted at noted ⊢
        rw [info] at noted
        exact noted
      · obtain ⟨x, isGoing, info⟩ := known r new
        obtain ⟨here, picked⟩ := mem_filter.mp new
        cases kind : t.kind with
        | timer => exact (read r here picked).2 kind
        | chat =>
          have none := going.2.2 kind x isGoing
          unfold Db.Unreacted at none ⊢
          rw [info] at none
          exact none
  · obtain old | new := mem_append.mp inside
    · exact .inl old
    · exact .inr (pending ▸ known r new)

theorem sameRows_lightStranded (now : Int) (r : Row) (rows : List Row) :
    SameRows rows (lightStranded now r rows) := by
  refine sameRows_map fun x => ?_
  split_ifs <;> exact ⟨rfl, rfl⟩

theorem sameRows_lightWaited (now : Int) (blocked : List Text) (idle rows : List Row) :
    SameRows rows (lightWaited now blocked idle rows) := by
  refine sameRows_foldl (fun rows r => ?_) _ rows
  dsimp only
  split_ifs
  · exact sameRows_lightUnread r _ rows
  · exact sameRows_lightUnread r _ rows
  · exact .refl rows

theorem stepOk_drop {kind : Kind} {r : Row} {todo : List Row} (sound : s.Sound)
    (good : Sweep.Good s ⟨kind, .drop f (r :: todo)⟩)
    (orderly : Sweep.Orderly s ⟨kind, .drop f (r :: todo)⟩) (blocked : List Text) :
    StepOk s ⟨kind, .drop f (r :: todo)⟩ (sweepStep blocked s ⟨kind, .drop f (r :: todo)⟩) := by
  obtain ⟨going, sub⟩ := good
  have rest : (r :: todo).drop dropMost ⊆ f.going := fun x inside => sub (mem_of_mem_drop inside)
  refine stepOk_deleteRows sound going (fun x here picked => ?_) ?_ rfl (fun x inside => inside)
  · have picked := of_decide_eq_true picked
    refine ⟨?_, orderly x here picked⟩
    obtain ⟨y, isTodo, id⟩ := mem_map.mp picked
    exact mem_map.mpr ⟨y, sub (mem_of_mem_take isTodo), id⟩
  · have good : Sweep.Good s ⟨kind, .drop f ((r :: todo).drop dropMost)⟩ := ⟨going, rest⟩
    exact good.onward (s.onward_deleteRows _)

theorem stepOk_scrub {kind : Kind} {r : Row} {todo : List Row} (sound : s.Sound)
    (blocked : List Text) :
    StepOk s ⟨kind, .scrub f (r :: todo)⟩ (sweepStep blocked s ⟨kind, .scrub f (r :: todo)⟩) := by
  have on := s.onward_shredFiles r
  refine ⟨sound.still on rfl rfl, on, trivial, fun _ old => .inl old, fun x inside => ?_⟩
  obtain rfl | later := mem_cons.mp inside
  · exact .inr fun r' same => Db.shredded_shredFiles same
  · exact .inl later

theorem stepOk_note {kind : Kind} (sound : s.Sound) (good : Sweep.Good s ⟨kind, .note f⟩)
    (blocked : List Text) : StepOk s ⟨kind, .note f⟩ (sweepStep blocked s ⟨kind, .note f⟩) := by
  obtain ⟨listed, past⟩ := good
  have on := s.onward_noteGone f.going
  have noted : ∀ x ∈ f.going, (s.noteGone f.going).Noted x :=
    fun x inside => Db.noted_noteGone inside (listed x inside).2.1
  refine .of_none (sound.still on rfl rfl) on ?_ rfl rfl
  cases kind with
  | timer => exact ⟨rfl, listed.onward on, past, noted⟩
  | chat => exact ⟨listed.onward on, noted, fun x inside => .inl inside⟩

theorem stepOk (sound : s.Sound) (good : t.Good s) (orderly : t.Orderly s) (blocked : List Text) :
    StepOk s t (sweepStep blocked s t) := by
  have idle : ∀ {t t' : Sweep}, t'.Good s → t.pending = [] → StepOk s t (s, t') :=
    fun good none => .of_none sound {} good rfl none
  obtain ⟨kind, stage⟩ := t
  cases stage with
  | start | blocked f =>
    simp only [sweepStep]
    split_ifs <;> exact idle trivial rfl
  | stranded now todo =>
    cases todo with
    | nil => exact .of_none (sound.still {} rfl rfl) {} trivial rfl rfl
    | cons r todo =>
      have same := sameRows_lightStranded now r s.rows
      exact .of_none (sound.light same) (Db.onward_light same) trivial rfl rfl
  | query => exact idle (sound.listed _) rfl
  | queryIdle cut due =>
    refine idle ⟨Db.Listed.append good ?_, le_rfl⟩ rfl
    intro x inside
    exact sound.listed _ x (mem_of_mem_filter inside)
  | note f => exact stepOk_note sound good blocked
  | forget f =>
    obtain ⟨timer, listed, past, noted⟩ := good
    have on := Db.onward_forgetGone past
    refine .of_none (sound.still on rfl rfl) on
      ⟨listed.onward on, noted_onward listed noted on, fun chat => ?_⟩ rfl rfl
    exact absurd (timer.symm.trans chat) (by simp)
  | reactions f todo =>
    obtain ⟨listed, noted, none⟩ := good
    cases todo with
    | nil =>
      exact idle ⟨listed, noted, fun _ x inside => (none x inside).resolve_left not_mem_nil⟩
        rfl
    | cons r todo =>
      have on := s.onward_dropReactions r
      have rows : (s.dropReactions r).rows = s.rows ∧ (s.dropReactions r).removed = s.removed := by
        unfold Db.dropReactions
        split <;> exact ⟨rfl, rfl⟩
      refine .of_none (sound.still on rows.1 rows.2) on
        ⟨listed.onward on, noted_onward listed noted on, ?_⟩ rows.2 rfl
      intro x inside
      obtain isTodo | none := none x inside
      · obtain rfl | later := mem_cons.mp isTodo
        · exact .inr (s.unreacted_dropReactions x)
        · exact .inl later
      · exact .inr (none.onward on)
  | delete f =>
    have later : Sweep.Good s ⟨kind, .drop f f.waited⟩ := ⟨good, subset_append_right _ _⟩
    exact stepOk_deleteRows sound good orderly (later.onward (s.onward_deleteRows _)) rfl
      (nil_subset _)
  | drop f todo =>
    cases todo with
    | nil => exact ⟨sound, {}, trivial, fun _ old => .inl old, fun x inside => .inl inside⟩
    | cons r todo => exact stepOk_drop sound good orderly blocked
  | scrub f todo =>
    cases todo with
    | nil => exact idle trivial rfl
    | cons r todo => exact stepOk_scrub sound blocked
  | lightWaited f blocked =>
    have same := sameRows_lightWaited f.now blocked f.idle s.rows
    exact .of_none (sound.light same) (Db.onward_light same) trivial rfl rfl
  | ended => exact idle trivial rfl

end Keeping

/-! ## Whole runs -/

namespace App

variable {p : App} {act : Act}

/-- What holds of the app: what was removed is shredded, or a sweep is still to shred it. -/
structure Ok (p : App) : Prop where
  holds : p.Holds Db.Sound Sweep.Good
  shreds : ∀ r ∈ p.shared.removed, p.shared.Shredded r ∨
    ∃ t ∈ p.tasks, ∃ x ∈ t.pending, x.info = r.info

theorem Ok.turn (ok : p.Ok) {i : Nat} {blocked : List Text}
    (orderly : p.Orderly (.turn i blocked)) : App.Ok (Pool.turn (sweepStep blocked) i p) := by
  cases found : p.tasks[i]? with
  | none =>
    have same : Pool.turn (sweepStep blocked) i p = p := by rw [Pool.turn, found]
    rw [same]
    exact ok
  | some t =>
    have step : StepOk p.shared t (sweepStep blocked p.shared t) :=
      stepOk ok.holds.shared (ok.holds.tasks t (mem_of_getElem? found))
        (orderly t found) blocked
    obtain ⟨isNow, others⟩ := @Pool.mem_turn _ _ p i (sweepStep blocked) t found
    refine ⟨ok.holds.turn (fun t' found' => ?_) fun t' found' u inside => ?_, fun r inside => ?_⟩
    · obtain rfl : t = t' := Option.some.inj (found.symm.trans found')
      exact ⟨step.sound, step.good⟩
    · obtain rfl : t = t' := Option.some.inj (found.symm.trans found')
      exact (ok.holds.tasks u inside).onward step.onward
    · rw [Pool.shared_turn found] at inside ⊢
      obtain old | ⟨x, isPending, info⟩ := step.removes r inside
      · obtain files | ⟨u, isTask, x, isPending, info⟩ := ok.shreds r old
        · exact .inl (files.onward step.onward)
        · obtain rfl | still := others u isTask
          · obtain later | files := step.shreds x isPending
            · exact .inr ⟨_, isNow, x, later, info⟩
            · exact .inl (files r info)
          · exact .inr ⟨u, still, x, isPending, info⟩
      · exact .inr ⟨_, isNow, x, isPending, info⟩

theorem Ok.other (ok : p.Ok) {s : Db} (sound : s.Sound) (on : p.shared.Onward s)
    (removed : s.removed = p.shared.removed) : App.Ok { p with shared := s } where
  holds := ⟨sound, fun t inside => (ok.holds.tasks t inside).onward on⟩
  shreds := fun r inside => (ok.shreds r (removed ▸ inside)).imp_left fun files => files.onward on

theorem Ok.next (ok : p.Ok) (lawful : p.Lawful act) (orderly : p.Orderly act) :
    (p.next act).Ok := by
  have light : ∀ {rows : List Row}, SameRows p.shared.rows rows →
      App.Ok { p with shared := p.shared.light rows } := fun same =>
    ok.other (ok.holds.shared.light same) (Db.onward_light same) rfl
  cases act with
  | sweep kind =>
    refine ⟨ok.holds.spawn trivial, fun r inside => ?_⟩
    obtain files | ⟨t, isTask, pending⟩ := ok.shreds r inside
    · exact .inl files
    · exact .inr ⟨t, mem_append_left _ isTask, pending⟩
  | turn i blocked => exact ok.turn orderly
  | file info burnAt =>
    exact ok.other (ok.holds.shared.saveMessage burnAt lawful) (Db.onward_saveMessage _ _ _) rfl
  | read uids => exact light (sameRows_lightReadBurns uids _ _)
  | block peer => exact light (sameRows_lightFrom peer _ _)
  | albumClock uid burnAt => exact light (sameRows_setMsgBurnAt uid burnAt _ _)
  | tick ms =>
    have on := p.shared.onward_tick ms
    exact ok.other (ok.holds.shared.still on rfl rfl) on rfl

end App

structure Db.Fresh (s : Db) : Prop where
  ids : ∀ r ∈ s.rows, r.id < s.nextId
  same : ∀ r ∈ s.rows, ∀ r' ∈ s.rows, r.id = r'.id → r.info = r'.info
  came : ∀ r ∈ s.rows, r.info.sentAt ≤ s.clock
  removed : s.removed = []

/-- In every run in which a sweep deletes what it has read, and on its timer nothing with
reactions, nothing is left of a message that a sweep removed once the sweeps have ended. -/
theorem traceless_of_run {s : Db} (fresh : s.Fresh) {p : App}
    (run : Run App.Step (fun p act => p.Lawful act ∧ p.Orderly act) ⟨s, []⟩ p)
    (ended : ∀ t ∈ p.tasks, t.stage = .ended) : ∀ r ∈ p.shared.removed, p.shared.Traceless r := by
  have start : App.Ok ⟨s, []⟩ := by
    refine ⟨⟨⟨fresh.ids, fresh.same, fresh.came, ?_⟩, fun t none => nomatch none⟩, ?_⟩
    all_goals simp [fresh.removed]
  have ok : p.Ok := by
    refine run.invariant App.Ok start ?_
    rintro p _ act ok ⟨lawful, orderly⟩ rfl
    exact ok.next lawful orderly
  intro r inside
  obtain ⟨-, noted, none⟩ := ok.holds.shared.removed r inside
  refine ⟨?_, none, fun incoming uid isUid kept recent => ?_⟩
  · obtain files | ⟨t, isTask, x, isPending, -⟩ := ok.shreds r inside
    · exact files
    · simp [Sweep.pending, ended t isTask] at isPending
  · obtain ⟨noted, entry, after⟩ := noted incoming uid isUid kept recent
    exact ⟨noted, entry, by omega⟩

instance (p : App) : DecidablePred fun act => p.Lawful act ∧ p.Orderly act
  | .turn i _ => inferInstanceAs (Decidable (True ∧ ∀ t ∈ p.tasks[i]?, t.Orderly p.shared))
  | .file info _ => inferInstanceAs (Decidable (info.sentAt ≤ p.shared.clock ∧ True))
  | .sweep _ | .read _ | .block _ | .albumClock _ _ | .tick _ => .isTrue ⟨trivial, trivial⟩

instance (p : App) : DecidablePred p.Lawful
  | .file info _ => inferInstanceAs (Decidable (info.sentAt ≤ p.shared.clock))
  | .turn _ _ | .sweep _ | .read _ | .block _ | .albumClock _ _ | .tick _ => .isTrue trivial

def Info.photo (uid path : Text) : Info where
  peer := ['a']
  incoming := true
  sentAt := 1
  uid := some uid
  mediaPath := some path
  burnSecs := some 1

def Db.photo : Db where
  rows := [⟨0, .photo ['u'] ['p'], some 2, false⟩]
  nextId := 1
  reactions := [(['u'], ['a'])]
  gone _ := none
  clock := 5

theorem Db.fresh_photo : Db.photo.Fresh := ⟨by decide, by decide, by decide, rfl⟩

def App.after (acts : List Act) : App := acts.foldl App.next ⟨Db.photo, []⟩

def turns (i n : Nat) : List Act := List.replicate n (.turn i [])

def chatLoaded : List Act := .sweep .chat :: turns 0 12

theorem traceless_of_run_chatLoaded :
    (App.after chatLoaded).shared.removed ≠ [] ∧
      ∀ r ∈ (App.after chatLoaded).shared.removed, (App.after chatLoaded).shared.Traceless r :=
  ⟨by decide, traceless_of_run Db.fresh_photo (Run.of_allowed _ _ (by decide))
    (by decide)⟩

def timerRan : List Act := .sweep .timer :: turns 0 12

/-- A message opened from the seal, its clock past, is filed between a sweep's read and its
delete. -/
def filedBetween : List Act :=
  .sweep .chat :: turns 0 4 ++ .file (.photo ['v'] ['q']) (some 3) :: turns 0 8

/-- The reaction to a message that the sweep on the timer removed is left; and one filed while
a sweep ran is removed, not noted as gone and its photo not shredded. -/
theorem timerRan_filedBetween_left :
    (Run App.Step App.Lawful ⟨Db.photo, []⟩ (App.after timerRan) ∧
      (∀ t ∈ (App.after timerRan).tasks, t.stage = .ended) ∧
      ∃ r ∈ (App.after timerRan).shared.removed, ¬ (App.after timerRan).shared.Unreacted r) ∧
    Run App.Step App.Lawful ⟨Db.photo, []⟩ (App.after filedBetween) ∧
      (∀ t ∈ (App.after filedBetween).tasks, t.stage = .ended) ∧
      ∃ r ∈ (App.after filedBetween).shared.removed, r.info.uid = some ['v'] ∧
        (App.after filedBetween).shared.gone (['v'], ['a']) = none ∧
        (['q'] : Text) ∉ (App.after filedBetween).shared.shredded := by
  refine ⟨⟨Run.of_allowed _ _ ?_, ?_, ?_⟩, Run.of_allowed _ _ ?_, ?_, ?_⟩
  all_goals decide

end Kryfo.Burn
