import Kryfo.Library.Run
import Mathlib.Data.List.Infix

/-!
# A change answered ok is on disk

Calls of `update` change the store under one lock and wait for the file under another: the call
that has it writes for all that came before.  A write may fail at each of its steps.
-/

namespace Kryfo.Handle.Saving

open Library List

/-- What `f` makes of the store: its error, and the store it leaves when it changed it. -/
structure Change (σ ε : Type) where
  err : Option ε
  changed : Option σ

/-- A call that has let go of the store: its error, the generation it read, and the store it
left. -/
structure Call (σ ε : Type) where
  err : Option ε
  gen : Nat
  left : σ

inductive Fault (ε : Type) where
  | refused (err : ε)
  | write

/-- Where `writeStore` is: what it does next. -/
inductive Stage where
  | toOpen
  | toEncode
  | toRename
  | toSync

/-- Where one goroutine is in `update` and `save`. -/
inductive Phase (σ ε : Type) where
  | idle
  | waiting (call : Call σ ε)
  | checking (call : Call σ ε)
  | copying (call : Call σ ε)
  | writing (call : Call σ ε) (snap : σ) (upTo : Nat) (stage : Stage)
  | returned (call : Call σ ε) (fault : Option (Fault ε))

def Phase.call? {σ ε : Type} : Phase σ ε → Option (Call σ ε)
  | idle => none
  | waiting call | checking call | copying call | writing call _ _ _ | returned call _ => some call

/-- The store, its file and the goroutines.  The code has neither `history`, the store at each
generation, nor `fileGen`, the one the file was copied at. -/
structure Disk (σ ε : Type) where
  m : σ
  gen : Nat
  saved : Nat
  wmu : Option Nat
  file : σ
  /-- The temp file, when it is whole. -/
  tmp : Option σ
  phase : Nat → Phase σ ε
  history : List σ
  fileGen : Nat

inductive Act (σ ε : Type) where
  | update (i : Nat) (f : σ → Change σ ε)
  | lock (i : Nat)
  | check (i : Nat)
  | copy (i : Nat)
  | write (i : Nat) (ok : Bool)

namespace Disk

variable {σ ε : Type}

def move (i : Nat) (phase : Phase σ ε) (s : Disk σ ε) : Disk σ ε :=
  { s with phase := Function.update s.phase i phase }

def finish (i : Nat) (call : Call σ ε) (failed : Bool) (s : Disk σ ε) : Disk σ ε :=
  { s with wmu := none }.move i <| .returned call <|
    match call.err with
    | some err => some (.refused err)
    | none => if failed then some .write else none

def change (i : Nat) (f : σ → Change σ ε) (s : Disk σ ε) : Disk σ ε :=
  match (f s.m).err, (f s.m).changed with
  | err, some m =>
    { s with m, gen := s.gen + 1, history := s.history ++ [m] }.move i
      (.waiting ⟨err, s.gen + 1, m⟩)
  | some err, none => s.move i (.returned ⟨some err, s.gen, s.m⟩ (some (.refused err)))
  | none, none => s.move i (.waiting ⟨none, s.gen, s.m⟩)

def writeStep (i : Nat) (call : Call σ ε) (snap : σ) (upTo : Nat) (ok : Bool) (s : Disk σ ε) :
    Stage → Disk σ ε
  | .toOpen =>
    if ok then { s with tmp := none }.move i (.writing call snap upTo .toEncode)
    else s.finish i call true
  | .toEncode =>
    if ok then { s with tmp := some snap }.move i (.writing call snap upTo .toRename)
    else s.finish i call true
  | .toRename =>
    match ok, s.tmp with
    | true, some whole =>
      { s with file := whole, tmp := none, fileGen := upTo }.move i
        (.writing call snap upTo .toSync)
    | _, _ => s.finish i call true
  | .toSync =>
    if ok then { s with saved := upTo }.finish i call false else s.finish i call true

def next (s : Disk σ ε) : Act σ ε → Option (Disk σ ε)
  | .update i f =>
    match s.phase i with
    | .idle | .returned _ _ => some (s.change i f)
    | _ => none
  | .lock i =>
    match s.phase i, s.wmu with
    | .waiting call, none => some ({ s with wmu := some i }.move i (.checking call))
    | _, _ => none
  | .check i =>
    match s.phase i with
    | .checking call =>
      if call.gen ≤ s.saved then some (s.finish i call false)
      else some (s.move i (.copying call))
    | _ => none
  | .copy i =>
    match s.phase i with
    | .copying call => some (s.move i (.writing call s.m s.gen .toOpen))
    | _ => none
  | .write i ok =>
    match s.phase i with
    | .writing call snap upTo stage => some (s.writeStep i call snap upTo ok stage)
    | _ => none

def Step (s : Disk σ ε) (act : Act σ ε) (s' : Disk σ ε) : Prop := s.next act = some s'

def start (m : σ) : Disk σ ε where
  m
  gen := 0
  saved := 0
  wmu := none
  file := m
  tmp := none
  phase _ := .idle
  history := [m]
  fileGen := 0

/-- The store at the call's generation is what the call left. -/
def Known (s : Disk σ ε) (call : Call σ ε) : Prop := s.history[call.gen]? = some call.left

def Good (s : Disk σ ε) (i : Nat) : Phase σ ε → Prop
  | .idle => True
  | .waiting call => s.Known call
  | .checking call | .copying call => s.Known call ∧ s.wmu = some i
  | .writing call snap upTo stage =>
    s.Known call ∧ s.wmu = some i ∧ s.history[upTo]? = some snap ∧ s.fileGen ≤ upTo ∧
      call.gen ≤ upTo ∧
      match stage with
      | .toRename => s.tmp = some snap
      | .toSync => s.fileGen = upTo
      | _ => True
  | .returned call fault => s.Known call ∧ (fault = none → call.gen ≤ s.fileGen)

structure Sound (s : Disk σ ε) : Prop where
  length : s.history.length = s.gen + 1
  now : s.history[s.gen]? = some s.m
  file : s.history[s.fileGen]? = some s.file
  saved : s.saved ≤ s.fileGen
  good : ∀ i, s.Good i (s.phase i)

section Frames

variable {s s' : Disk σ ε} {i j : Nat} {call : Call σ ε}

theorem getElem?_of_grows {before after : List σ} {n : Nat} {x : σ} (grows : before <+: after)
    (there : before[n]? = some x) : after[n]? = some x := by
  obtain ⟨more, rfl⟩ := grows
  obtain ⟨inside, _⟩ := List.getElem?_eq_some_iff.mp there
  rw [getElem?_append_left inside, there]

theorem Known.mono (known : s.Known call) (grows : s.history <+: s'.history) : s'.Known call :=
  getElem?_of_grows grows known

/-- A goroutine is as good as before when the history grows, the file's generation does not
fall, and nothing of the file changes while it has the file. -/
theorem Good.frame {phase : Phase σ ε} (good : s.Good j phase) (grows : s.history <+: s'.history)
    (onward : s.fileGen ≤ s'.fileGen)
    (held : s.wmu = some j → s'.wmu = some j ∧ s'.fileGen = s.fileGen ∧ s'.tmp = s.tmp) :
    s'.Good j phase := by
  cases phase with
  | idle => trivial
  | waiting call => exact Known.mono good grows
  | checking call | copying call => exact ⟨good.1.mono grows, (held good.2).1⟩
  | writing call snap upTo stage =>
    obtain ⟨known, mine, copied, behind, own, whole⟩ := good
    obtain ⟨still, sameGen, sameTmp⟩ := held mine
    refine ⟨known.mono grows, still, getElem?_of_grows grows copied, sameGen ▸ behind, own, ?_⟩
    cases stage with
    | toOpen | toEncode => trivial
    | toRename => exact sameTmp.trans whole
    | toSync => exact sameGen.trans whole
  | returned call fault => exact ⟨good.1.mono grows, fun ok => (good.2 ok).trans onward⟩

theorem good_of_move {phase : Phase σ ε} (good : ∀ j, s.Good j (s.phase j))
    (moved : s'.phase = Function.update s.phase i phase) (grows : s.history <+: s'.history)
    (onward : s.fileGen ≤ s'.fileGen)
    (held : ∀ j, j ≠ i → s.wmu = some j → s'.wmu = some j ∧ s'.fileGen = s.fileGen ∧ s'.tmp = s.tmp)
    (mine : s'.Good i phase) (j : Nat) : s'.Good j (s'.phase j) := by
  rw [moved]
  by_cases same : j = i
  · subst same
    rw [Function.update_self]
    exact mine
  · rw [Function.update_of_ne same]
    exact (good j).frame grows onward (held j same)

theorem held_of_mine {a b : Nat} {t t' : Option σ} {w : Option Nat} (mine : s.wmu = some i) (j : Nat)
    (other : j ≠ i) (theirs : s.wmu = some j) : w = some j ∧ a = b ∧ t = t' :=
  absurd (Option.some.inj (theirs.symm.trans mine)) other

theorem Sound.move {phase : Phase σ ε} {w : Option Nat} {t : Option σ} (sound : s.Sound)
    (held : ∀ j, j ≠ i → s.wmu = some j → w = some j ∧ s.fileGen = s.fileGen ∧ t = s.tmp)
    (mine : (({ s with wmu := w, tmp := t } : Disk σ ε).move i phase).Good i phase) :
    (({ s with wmu := w, tmp := t } : Disk σ ε).move i phase).Sound :=
  ⟨sound.length, sound.now, sound.file, sound.saved,
    good_of_move sound.good rfl prefix_rfl le_rfl held mine⟩

theorem Sound.finish (sound : s.Sound) (mine : s.wmu = some i) (known : s.Known call)
    {failed : Bool} (ok : failed = false → call.gen ≤ s.fileGen) :
    (s.finish i call failed).Sound := by
  refine sound.move (held_of_mine mine) ⟨known, fun returnsOk => ok ?_⟩
  cases failed with
  | false => rfl
  | true =>
    cases err : call.err with
    | none | some e => simp [err] at returnsOk

end Frames

section Steps

variable {s s' : Disk σ ε} {i : Nat}

theorem sound_start (m : σ) : (start m : Disk σ ε).Sound where
  length := rfl
  now := rfl
  file := rfl
  saved := le_rfl
  good _ := trivial

theorem Sound.change (sound : s.Sound) (f : σ → Change σ ε) : (s.change i f).Sound := by
  unfold Disk.change
  split
  next m _ =>
    have last : (s.history ++ [m])[s.gen + 1]? = some m := by
      rw [← sound.length, getElem?_concat_length]
    refine ⟨?_, last, getElem?_of_grows (prefix_append _ _) sound.file, sound.saved, ?_⟩
    · simp [Disk.move, sound.length]
    · exact good_of_move sound.good rfl (prefix_append _ _) le_rfl
        (fun j _ held => ⟨held, rfl, rfl⟩) last
  next err _ =>
    exact sound.move (fun j _ held => ⟨held, rfl, rfl⟩) ⟨sound.now, fun wrong => nomatch wrong⟩
  next =>
    exact sound.move (fun j _ held => ⟨held, rfl, rfl⟩) sound.now

theorem lt_length_of_some {l : List σ} {n : Nat} {x : σ} (there : l[n]? = some x) : n < l.length :=
  (List.getElem?_eq_some_iff.mp there).1

theorem Sound.writeStep {call : Call σ ε} {snap : σ} {upTo : Nat} {stage : Stage} (sound : s.Sound)
    (good : s.Good i (.writing call snap upTo stage)) (ok : Bool) :
    (s.writeStep i call snap upTo ok stage).Sound := by
  obtain ⟨known, mine, copied, behind, own, whole⟩ := good
  have fails : (s.finish i call true).Sound := sound.finish mine known fun wrong => nomatch wrong
  cases ok with
  | false => cases stage <;> exact fails
  | true =>
    cases stage with
    | toOpen =>
      exact sound.move (held_of_mine mine) ⟨known, mine, copied, behind, own, trivial⟩
    | toEncode =>
      exact sound.move (held_of_mine mine) ⟨known, mine, copied, behind, own, rfl⟩
    | toRename =>
      simp only [Disk.writeStep, show s.tmp = some snap from whole]
      refine ⟨sound.length, sound.now, copied, sound.saved.trans behind, ?_⟩
      exact good_of_move sound.good rfl prefix_rfl behind (held_of_mine mine)
        ⟨known, mine, copied, le_rfl, own, rfl⟩
    | toSync =>
      have atFile : s.fileGen = upTo := whole
      have kept : ({ s with saved := upTo } : Disk σ ε).Sound := by
        refine ⟨sound.length, sound.now, sound.file, atFile.ge, fun j => ?_⟩
        exact (sound.good j).frame prefix_rfl le_rfl fun held => ⟨held, rfl, rfl⟩
      exact kept.finish mine known fun _ => own.trans atFile.ge

theorem Sound.next {act : Act σ ε} (sound : s.Sound) (taken : s.next act = some s') : s'.Sound := by
  cases act with
  | update i f =>
    simp only [Disk.next] at taken
    split at taken <;> cases taken <;> exact sound.change f
  | lock i =>
    simp only [Disk.next] at taken
    split at taken
    next call waits free =>
      cases taken
      have known := sound.good i
      rw [waits] at known
      exact sound.move (fun j _ held => nomatch free.symm.trans held) ⟨known, rfl⟩
    next => exact nomatch taken
  | check i =>
    simp only [Disk.next] at taken
    split at taken
    next call checks =>
      have good := sound.good i
      rw [checks] at good
      split_ifs at taken with done
      · cases taken
        exact sound.finish good.2 good.1 fun _ => done.trans sound.saved
      · cases taken
        exact sound.move (held_of_mine good.2) good
    next => exact nomatch taken
  | copy i =>
    simp only [Disk.next] at taken
    split at taken
    next call copies =>
      cases taken
      have good := sound.good i
      rw [copies] at good
      have fileGen := lt_length_of_some sound.file
      have own := lt_length_of_some good.1
      rw [sound.length] at fileGen own
      exact sound.move (held_of_mine good.2)
        ⟨good.1, good.2, sound.now, Nat.lt_succ_iff.mp fileGen, Nat.lt_succ_iff.mp own, trivial⟩
    next => exact nomatch taken
  | write i ok =>
    simp only [Disk.next] at taken
    split at taken
    next call snap upTo stage writes =>
      cases taken
      exact sound.writeStep (writes ▸ sound.good i) ok
    next => exact nomatch taken

/-- The file's generation does not fall, and the history only grows. -/
theorem onward_next {act : Act σ ε} (sound : s.Sound) (taken : s.next act = some s') :
    s.fileGen ≤ s'.fileGen ∧ s.history <+: s'.history := by
  cases act with
  | update i f =>
    simp only [Disk.next] at taken
    have grows : s.fileGen ≤ (s.change i f).fileGen ∧ s.history <+: (s.change i f).history := by
      unfold Disk.change
      split
      · exact ⟨le_rfl, prefix_append _ _⟩
      · exact ⟨le_rfl, prefix_rfl⟩
      · exact ⟨le_rfl, prefix_rfl⟩
    split at taken <;> cases taken <;> exact grows
  | lock i | copy i =>
    simp only [Disk.next] at taken
    split at taken <;> cases taken
    exact ⟨le_rfl, prefix_rfl⟩
  | check i =>
    simp only [Disk.next] at taken
    split at taken
    · split_ifs at taken <;> cases taken <;> exact ⟨le_rfl, prefix_rfl⟩
    · exact nomatch taken
  | write i ok =>
    simp only [Disk.next] at taken
    split at taken
    next call snap upTo stage writes =>
      cases taken
      have good := sound.good i
      rw [writes] at good
      obtain ⟨_, _, _, behind, _⟩ := good
      cases stage with
      | toOpen | toEncode | toSync => cases ok <;> exact ⟨le_rfl, prefix_rfl⟩
      | toRename =>
        simp only [Disk.writeStep]
        split
        · exact ⟨behind, prefix_rfl⟩
        · exact ⟨le_rfl, prefix_rfl⟩
    next => exact nomatch taken

theorem call_of_update {f : σ → Change σ ε} (taken : s.next (.update i f) = some s') :
    ∃ call, (s'.phase i).call? = some call ∧ call.gen = s'.gen ∧ call.left = s'.m ∧
      s'.m = (f s.m).changed.getD s.m := by
  have changed : s' = s.change i f := by
    simp only [Disk.next] at taken
    split at taken <;> cases taken <;> rfl
  subst changed
  unfold Disk.change
  split
  next m made =>
    refine ⟨⟨(f s.m).err, s.gen + 1, m⟩, ?_, rfl, rfl, ?_⟩
    · simp [move, Phase.call?]
    · simp [move, made]
  next err _ unchanged =>
    refine ⟨⟨some err, s.gen, s.m⟩, ?_, rfl, rfl, ?_⟩
    · simp [move, Phase.call?]
    · simp [move, unchanged]
  next _ unchanged =>
    refine ⟨⟨none, s.gen, s.m⟩, ?_, rfl, rfl, ?_⟩
    · simp [move, Phase.call?]
    · simp [move, unchanged]

end Steps

def twoUpdates : List (Act Nat Unit) :=
  [.update 0 fun n => ⟨none, some (n + 1)⟩, .update 1 fun n => ⟨none, some (n + 2)⟩,
    .lock 1, .check 1, .copy 1, .write 1 true, .write 1 true, .write 1 true, .write 1 true,
    .lock 0, .check 0]

/-- The state after an act, or the same one where it may not be taken. -/
def after (s : Disk σ ε) (act : Act σ ε) : Disk σ ε := (s.next act).getD s

end Disk

end Kryfo.Handle.Saving
