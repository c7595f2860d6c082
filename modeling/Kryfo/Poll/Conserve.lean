import Kryfo.Poll.Marks
import Kryfo.Seen.Restart

/-!
# Poll and ack conserve every event

An id is queued exactly as long as it has one line somewhere, and what has no line any more was
kept, held or released.  Left out are runs in which a take claims an id that an ack has given up
but not yet marked as kept, and runs with a line that cannot go over.
-/

namespace Kryfo.Poll

open Library Seen List

variable {ι π : Type*} [DecidableEq ι] {first : ι → SeenIDs}

namespace Sys

/-! ## What holds along a run -/

/-- A take claims no id that an ack has given up but not yet marked as kept, and opens what can go
over. -/
def Calm (env : Env ι π) (s : Sys ι π) : Act ι π → Prop
  | .claim i id => (i, id) ∉ s.tookLines.map Item.key
  | .received i _ content _ _ _ _ => (entryOf (env.tag i ++ '|' :: content)).isSome = true
  | _ => True

structure Sound (first : ι → SeenIDs) (s : Sys ι π) : Prop where
  ledger : Ledger s.Queued s.owed s.waiting
  balanced : s.Balanced
  single : s.inflight.length ≤ 1
  fits : Fits s
  marked : Marked first s

theorem single_does {env : Env ι π} {s s' : Sys ι π} {act : Act ι π}
    (single : s.inflight.length ≤ 1) (does : Does env s act s') :
    s'.inflight.length ≤ 1 := by
  cases does with
  | claim i id =>
    obtain same | ⟨-, after⟩ := s.claim_cases i id
    · rwa [same]
    · rwa [after]
  | received opening | unopened opening | aside | markRunning i drop => exact single
  | poll now =>
    obtain ⟨out, back, since, token, inflight, -, few, -, after⟩ := s.poll_spec env now
    rwa [after]
  | acked _ lists found =>
    obtain ⟨again, holds, kept, t, -, -, rfl, after⟩ := acked_spec env single found lists
    rw [after]
    exact Nat.zero_le 1
  | hold done =>
    obtain ⟨x, name, holds, stale, kept, took, set, -, -, -, rfl | rfl | rfl⟩ :=
      hold_cases done
    all_goals exact single
  | keep done =>
    obtain ⟨i, stale, kept, took, -, rfl⟩ := keep_cases done
    exact single
  | finish done =>
    obtain ⟨stale, -, rfl⟩ := finish_cases done
    exact single

theorem balanced_claim {s : Sys ι π} (balanced : s.Balanced) (i : ι) (id : ID) :
    (s.claim i id).Balanced := by
  obtain same | ⟨-, after⟩ := s.claim_cases i id
  · rwa [same]
  · rw [after]
    intro k
    have := balanced k
    simp only [owed, lines, waiting, tookLines] at this ⊢
    omega

theorem Sound.does {env : Env ι π} {s s' : Sys ι π} {act : Act ι π} (sound : Sound first s)
    (calm : Calm env s act) (does : Does env s act s') : Sound first s' := by
  have fits : Fits s' := by
    refine sound.fits.does sound.single (fun i id content stamp sent reachFrom reachUntil is =>
      ?_) does
    subst is
    exact calm
  have single := single_does sound.single does
  have marked := sound.marked.does sound.fits sound.single does
  obtain ⟨i, id, rfl, rfl⟩ | ⟨out, refused, settled, settles⟩ := does.settles sound.single
  · exact ⟨ledger_claim sound.ledger calm, balanced_claim sound.balanced i id, single, fits, marked⟩
  · refine ⟨sound.ledger.settle settles.owed settles.waiting settles.part settles.queued,
      fun k => ?_, single, fits, marked⟩
    have := sound.balanced k
    have := settles.balance k
    omega

theorem sound_start (fresh : ∀ i, (first i).queued = ∅) :
    Sound first ({ sets := first } : Sys ι π) where
  ledger := ⟨fun k => Nat.zero_le 1, fun k => by simp [Queued, owed, lines, fresh]⟩
  balanced k := rfl
  single := Nat.zero_le 1
  fits := ⟨by simp [lines], by simp⟩
  marked := ⟨by simp, by simp, by simp, fun _ _ => .inl⟩

structure Conserved (env : Env ι π) (first : ι → SeenIDs) (s : Sys ι π) : Prop where
  queued_iff : ∀ k, s.Queued k ↔ k ∈ s.opening ∨ k ∈ s.lines.map Item.key
  oneLine : ∀ k, s.Queued k → k ∉ s.opening → (s.lines.map Item.key).count k = 1
  atRest : s.hands = [] → ∀ k, s.Queued k → k ∉ s.opening →
    ((s.inbox ++ s.inflight.flatMap Prod.snd).map Item.key).count k = 1
  onePlace : (s.opening ++ s.lines.map Item.key).Nodup
  single : s.inflight.length ≤ 1
  taken : s.log.taken.Perm (s.lines.map Item.key ++ s.tookLines.map Item.key ++ s.log.left)
  released : ∀ x ∈ s.log.released, x.done.tries = pollMaxTries
  kept : ∀ k ∈ s.log.kept, k ∈ s.log.confirmed ∨ k ∈ s.log.refused
  opened : ∀ i id, (s.sets i).opened.has id = true →
    (first i).opened.has id = true ∨ (i, id) ∈ s.log.kept ∨ (i, id) ∈ s.log.dropped
  unknown : ∀ token failed, (∀ b ∈ s.inflight, parseUint64 token ≠ some b.1) →
    (s.ack env token failed).2 = s

theorem ack_unknown (env : Env ι π) (s : Sys ι π) (token : List Char)
    (failed : Option AckLists) (outside : ∀ b ∈ s.inflight, parseUint64 token ≠ some b.1) :
    (s.ack env token failed).2 = s := by
  unfold ack
  split
  · rfl
  · rename_i tok read
    split
    · rfl
    · have absent : s.inflight.lookup tok = none :=
        lookup_eq_none_iff.mpr fun b inside =>
          bne_iff_ne.mpr fun same => outside b inside (read.trans (congrArg some same))
      rw [absent]

theorem Sound.conserved {s : Sys ι π} (sound : Sound first s) (env : Env ι π) :
    Conserved env first s := by
  have owed_iff : ∀ k, 0 < s.owed k ↔ k ∈ s.opening ∨ k ∈ s.lines.map Item.key := fun k => by
    rw [owed, ← count_pos_iff, ← count_pos_iff]
    omega
  have oneLine : ∀ k, s.Queued k → k ∉ s.opening → (s.lines.map Item.key).count k = 1 := by
    intro k queued notOpening
    have := sound.ledger.once k
    have := (sound.ledger.owned_iff k).mp queued
    have := count_eq_zero.mpr notOpening
    simp only [owed] at *
    omega
  refine ⟨fun k => (sound.ledger.owned_iff k).trans (owed_iff k), oneLine,
    fun rest k queued notOpening => ?_, ?_, sound.single, ?_, sound.fits.released,
    sound.marked.kept, sound.marked.opened, s.ack_unknown env⟩
  · have := oneLine k queued notOpening
    simpa [lines, rest] using this
  · refine nodup_iff_count_le_one.mpr fun k => ?_
    have := sound.ledger.once k
    simp only [owed, count_append] at this ⊢
    omega
  · refine perm_iff_count.mpr fun k => ?_
    have := sound.balanced k
    simp only [owed, waiting, count_append] at this ⊢
    omega

/-! ## One runner -/

def oneRunner : Env Unit Unit := ⟨fun _ => [], fun _ => (), fun _ => 0, Visit.ascending⟩

def lineOf (id : ID) (tries : Nat) : Item Unit := ⟨['|'], ⟨(), id, tries, 0, 0, 0, 0, 0⟩⟩

def next (s : Sys Unit Unit) (act : Act Unit Unit) : Sys Unit Unit :=
  (s.apply oneRunner act).getD s

theorem run_of_acts {rule : Sys Unit Unit → Act Unit Unit → Prop} {s : Sys Unit Unit}
    {acts : List (Act Unit Unit)}
    (allowed : Allowed next (fun s act => (s.apply oneRunner act).isSome ∧ rule s act) s acts) :
    Run (Step oneRunner) rule s (acts.foldl next s) := by
  refine .of_acts id (fun s act may => ⟨?_, may.2⟩) allowed
  obtain ⟨s', applied⟩ := Option.isSome_iff_exists.mp may.1
  simp [Step, next, applied]

def takes (content : List Char) : List (Act Unit Unit) :=
  [.claim () 0, .received () 0 content 0 0 0 0]

/-! ## Runs -/

/-- In every run whose takes are calm, poll and ack conserve every event. -/
theorem conserved_of_run [DecidableEq π] (env : Env ι π)
    (fresh : ∀ i, (first i).queued = ∅) {s : Sys ι π}
    (run : Run (Step env) (Calm env) { sets := first } s) : Conserved env first s :=
  (run.invariant (Sound first) (sound_start fresh) fun sound calm step =>
    sound.does calm (does_of_step step)).conserved env

theorem conserved_of_run_polled :
    ∃ s, Run (Step oneRunner) (Calm oneRunner) { sets := fun _ => SeenIDs.new } s ∧
      s.inflight = [(1, [lineOf 0 0])] ∧ Conserved oneRunner (fun _ => SeenIDs.new) s := by
  have run : Run (Step oneRunner) (Calm oneRunner) { sets := fun _ => SeenIDs.new }
      ((takes [] ++ [Act.poll 0]).foldl next _) :=
    run_of_acts ⟨⟨rfl, not_mem_nil⟩, ⟨rfl, rfl⟩, ⟨rfl, trivial⟩, trivial⟩
  exact ⟨_, run, rfl, conserved_of_run oneRunner (fun _ => rfl) run⟩

/-- What a set has queued is being opened, is in an ack's hands, or has a line the anchor's floor
stays below. -/
theorem owedFloor_le_of_run [DecidableEq π] (env : Env ι π) (fresh : ∀ i, (first i).queued = ∅)
    {s : Sys ι π} (run : Run (Step env) (Calm env) { sets := first } s) {k : ι × ID}
    (queued : s.Queued k) :
    k ∈ s.opening ∨ k ∈ (s.hands.flatMap Hand.lines).map Item.key ∨
      ∃ x ∈ s.inbox ++ s.inflight.flatMap Prod.snd, x.key = k ∧
        ∃ f ∈ s.owedFloor k.1, f ≤ x.done.stamp := by
  have conserved := (run.invariant (Sound first) (sound_start fresh) fun sound calm step =>
    sound.does calm (does_of_step step)).conserved env
  rcases (conserved.queued_iff k).mp queued with opening | line
  · exact .inl opening
  · obtain ⟨x, inside, rfl⟩ := mem_map.mp line
    rcases mem_append.mp inside with waits | hand
    · exact .inr (.inr ⟨x, waits, rfl, owedFloor_le s waits⟩)
    · exact .inr (.inl (mem_map_of_mem hand))

theorem owedFloor_le_of_run_taken :
    ∃ s, Run (Step oneRunner) (Calm oneRunner) { sets := fun _ => SeenIDs.new } s ∧
      ∃ f ∈ s.owedFloor (), f ≤ (lineOf 0 0).done.stamp := by
  have run : Run (Step oneRunner) (Calm oneRunner) { sets := fun _ => SeenIDs.new }
      ((takes []).foldl next _) := run_of_acts ⟨⟨rfl, not_mem_nil⟩, ⟨rfl, rfl⟩, trivial⟩
  refine ⟨_, run, ?_⟩
  rcases owedFloor_le_of_run oneRunner (fun _ => rfl) run
    (k := ((), 0)) (Finset.mem_insert_self _ _) with opening | hand | ⟨x, inside, -, floor⟩
  · cases opening
  · cases hand
  · rwa [mem_singleton.mp inside] at floor

/-! ## An id given up too early -/

def Reached (s : Sys Unit Unit) : Prop :=
  Run (Step oneRunner) (fun _ _ => True) { sets := fun _ => SeenIDs.new } s

theorem Reached.step {s s' : Sys Unit Unit} (reached : Reached s) (act : Act Unit Unit)
    (step : Step oneRunner s act s') : Reached s' := Run.snoc reached step trivial

/-- The line of an id waits in the hands of an ack, and no set has it queued. -/
def leaving (opened : Ring ID seenKeep) (token : Nat) (log : Log Unit) : Sys Unit Unit :=
  { sets := fun _ => { SeenIDs.new with opened := opened }
    token := token
    hands := [⟨[(lineOf 0 0, [])], [], [], []⟩]
    log := log }

section Leaving

variable {opened : Ring ID seenKeep} {token : Nat} {log : Log Unit} {id : ID}

theorem Reached.take (unseen : opened.has id = false)
    (reached : Reached (leaving opened token log)) :
    ∃ log', Reached { leaving opened token log' with
      sets := fun _ => { SeenIDs.new with opened := opened, queued := {id} }
      inbox := [lineOf id 0] } := by
  have claimed := reached.step (.claim () id) rfl
  have claims : SeenIDs.claim { SeenIDs.new with opened := opened } id =
      (true, { SeenIDs.new with opened := opened, queued := {id} }) := by
    simp only [SeenIDs.claim, unseen]
    rfl
  have sets (set : SeenIDs) (u : Unit) (set' : SeenIDs) :
      Function.update (fun _ : Unit => set) u set' = fun _ => set' := funext fun _ => by simp
  simp only [Sys.claim, leaving, claims, if_true, sets] at claimed
  have received := claimed.step (.received () id [] 0 0 0 0) (if_pos mem_cons_self)
  simp only [Sys.received, erase_cons_head, nil_append] at received
  exact ⟨_, received⟩

/-- Another id is taken and polled, and the app confirms it. -/
theorem Reached.confirmed (small : token + 1 < 2 ^ 64) (unseen : opened.has id = false)
    (reached : Reached (leaving opened token log)) :
    ∃ log', Reached (leaving (opened.add id) (token + 1) log') := by
  obtain ⟨log, taken⟩ := reached.take unseen
  have acks {s : Sys Unit Unit} {batch : List (Item Unit)} {tok : Nat} (small : tok < 2 ^ 64)
      (out : s.inflight = [(tok, batch)]) :
      Step oneRunner s (.ack (Nat.toDigits 10 tok) (some {}))
        (Sys.acked oneRunner { s with inflight := [] } tok {} batch) := by
    have read : parseUint64 (Nat.toDigits 10 tok) = some tok := by
      rw [parseUint64, parseNat_toDigits, Option.filter_some, if_pos (by simpa using small)]
    have gone : [(tok, batch)].filter (fun b => b.1 ≠ tok) = [] := by simp
    simp only [Step, Sys.apply, Sys.ack, read, out, lookup_cons_self, Sys.acked, gone]
    rfl
  have polled : Reached { leaving opened (token + 1) log with
      sets := fun _ => { SeenIDs.new with opened := opened, queued := {id} }
      inflight := [(token + 1, [lineOf id 0])] } := taken.step (.poll 0) rfl
  have acked := polled.step _ (acks small rfl)
  obtain ⟨log, handed⟩ : ∃ log', Reached { leaving opened (token + 1) log' with
      sets := fun _ => { SeenIDs.new with opened := opened, queued := {id} }
      hands := ⟨[], [], [lineOf id 0], []⟩ :: (leaving opened token log').hands } :=
    ⟨_, acked⟩
  obtain ⟨log, kept⟩ : ∃ log', Reached { leaving (opened.add id) (token + 1) log' with
      sets := fun _ =>
        { SeenIDs.new with opened := opened.add id, queued := Finset.erase {id} id } } :=
    ⟨_, (handed.step (.keep 0) rfl).step (.finish 0) rfl⟩
  rw [Finset.erase_singleton] at kept
  exact ⟨log, kept⟩

end Leaving

/-- An ack gives an id up, a second relay brings it, and while that line is left on the relay the
first ack marks the id as kept. -/
def givenUp : List (Act Unit Unit) :=
  takes [] ++ [.poll 0, .ack ['1'] (some { later := [0] }), .hold 0 10000000] ++ takes [] ++
    [.poll 0, .ack ['2'] (some { later := [0] }), .keep 1, .finish 0]

/-- The id is opened, and then others are. -/
theorem reached_leaving {ids : List ID} (nodup : ((0 : ID) :: ids).Nodup)
    (few : ids.length + 2 < 2 ^ 64) : ∃ log, Reached
      (leaving (ids.foldl Ring.add ((Ring.new (by decide)).add 0)) (ids.length + 2) log) := by
  induction ids using reverseRecOn with
  | nil =>
    have run : Reached (givenUp.foldl next { sets := fun _ => SeenIDs.new }) :=
      run_of_acts ⟨⟨rfl, trivial⟩, ⟨rfl, trivial⟩, ⟨rfl, trivial⟩, ⟨rfl, trivial⟩, ⟨rfl, trivial⟩,
        ⟨rfl, trivial⟩, ⟨rfl, trivial⟩, ⟨rfl, trivial⟩, ⟨rfl, trivial⟩, ⟨rfl, trivial⟩,
        ⟨rfl, trivial⟩, trivial⟩
    exact ⟨_, run⟩
  | append_singleton ids id ih =>
    rw [← cons_append] at nodup
    rw [length_append, length_singleton, Nat.add_right_comm] at few ⊢
    obtain ⟨log, reached⟩ := ih nodup.of_append_left (by omega)
    rw [foldl_append]
    refine reached.confirmed few (Bool.not_eq_true _ ▸ fun has => ?_)
    rcases @Ring.has_of_foldl_add ID _ seenKeep (Ring.new _) (0 :: ids) id has with never | before
    · simp [Ring.has, Ring.new] at never
    · exact disjoint_of_nodup_append nodup before mem_cons_self

/-- Once enough other ids have been opened the id can be taken again. -/
theorem reached_twice {ids : List ID} (nodup : ((0 : ID) :: ids).Nodup)
    (many : ids.length = seenKeep) : ∃ s, Reached s ∧ s.hands = [] ∧ s.opening = [] ∧
      s.Queued ((), 0) ∧
      ((s.inbox ++ s.inflight.flatMap Prod.snd).map Item.key).count ((), 0) = 2 := by
  have positive : 0 < seenKeep := by decide
  have evicted : (ids.foldl Ring.add ((Ring.new positive).add 0)).has 0 = false := by
    have last : pushAll seenKeep [] (0 :: ids) = ids := by
      rw [pushAll_of_nodup positive (Nat.zero_le _) nodup, nil_append, length_cons, many]
      simp
    rw [← foldl_cons, ← Bool.not_eq_true, Ring.has_iff, Ring.queue_foldl_add, Ring.queue_new, last]
    exact (nodup_cons.mp nodup).1
  obtain ⟨log, reached⟩ := reached_leaving nodup (many ▸ by decide)
  obtain ⟨log, taken⟩ := reached.take evicted
  have back := ((taken.step (.freed ()) rfl).step (.hold 0 0) rfl).step (.finish 0) rfl
  exact ⟨_, back, rfl, rfl, Finset.mem_singleton_self _, rfl⟩

def otherIDs (n : Nat) : List ID := (List.range' 1 n).map (BitVec.ofNat 256)

theorem nodup_otherIDs {n : Nat} (few : n < 2 ^ 256) : ((0 : ID) :: otherIDs n).Nodup := by
  have small {i : Nat} (inside : i ∈ List.range' 0 (n + 1)) : (BitVec.ofNat 256 i).toNat = i := by
    rw [mem_range'_1] at inside
    exact Nat.mod_eq_of_lt (by omega)
  change ((List.range' 0 (n + 1)).map (BitVec.ofNat 256)).Nodup
  refine List.Nodup.map_on (fun i inI j inJ same => ?_) nodup_range'
  rw [← small inI, same, small inJ]

/-- What cannot go over is marked as opened by the poll alone. -/
theorem reached_unsent : ∃ s, Reached s ∧ (s.sets ()).opened.has 0 = true ∧
    s.log.confirmed = [] ∧ s.log.refused = [] ∧ s.log.dropped = [] := by
  have run : Reached ((takes ['\n'] ++ [Act.poll 0, .keep 0]).foldl next _) :=
    run_of_acts ⟨⟨rfl, trivial⟩, ⟨rfl, trivial⟩, ⟨rfl, trivial⟩, ⟨rfl, trivial⟩, trivial⟩
  exact ⟨_, run, rfl, rfl, rfl, rfl⟩

/-- An id that is given up before it is marked as kept can have two lines, with no
ack at work and nothing being opened; and a line that cannot go over is marked as
opened though nobody confirmed, refused or dropped it. -/
theorem not_conserved_of_run :
    (∃ s, Reached s ∧ s.hands = [] ∧ s.opening = [] ∧ s.Queued ((), 0) ∧
      ((s.inbox ++ s.inflight.flatMap Prod.snd).map Item.key).count ((), 0) = 2) ∧
    ∃ s, Reached s ∧ (s.sets ()).opened.has 0 = true ∧
      s.log.confirmed = [] ∧ s.log.refused = [] ∧ s.log.dropped = [] := by
  refine ⟨?_, reached_unsent⟩
  have few : seenKeep < 2 ^ 256 := by unfold seenKeep; norm_num
  exact reached_twice (nodup_otherIDs few) (by simp [otherIDs])

end Sys

end Kryfo.Poll
