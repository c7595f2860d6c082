import Kryfo.Library.Run
import Kryfo.Unsend.Filing
import Mathlib.Tactic

/-!
# A message taken back stays away

A take-back notes the message as gone before it removes its rows.  A copy that asked before that and
has not written yet is filed and stays.  Where there is none, nothing of the message is left once
the take-back is through.
-/

namespace Kryfo.Unsend

open Library

/-- Past its look at the ids that went, and before its last write. -/
def Task.InHand : Task → Prop
  | .whole _ stage => stage = .claimed
  | .slice _ _ stage =>
    stage ∈ [.askingRow, .putting, .replacing, .counting, .complete, .claimed]
  | .back _ | .ended => False

instance : DecidablePred Task.InHand
  | .whole _ stage => inferInstanceAs (Decidable (stage = .claimed))
  | .slice _ _ stage => inferInstanceAs (Decidable (stage ∈ [_, _, _, _, _, _]))
  | .back _ | .ended => .isFalse id

def InTime (start : Int) (now : Int) : Prop := start ≤ now ∧ now < start + kGoneFor

instance (start now : Int) : Decidable (InTime start now) :=
  inferInstanceAs (Decidable (start ≤ now ∧ now < start + kGoneFor))

def Act.Timely (start : Int) : Act → Prop
  | .copy arrivedAt | .slice arrivedAt _ => ∀ came ∈ arrivedAt, InTime start came
  | .turn _ answer => InTime start answer.now
  | _ => True

instance (start : Int) : DecidablePred (Act.Timely start)
  | .copy arrivedAt | .slice arrivedAt _ =>
    inferInstanceAs (Decidable (∀ came ∈ arrivedAt, InTime start came))
  | .turn _ answer => inferInstanceAs (Decidable (InTime start answer.now))
  | .takeBack | .fail _ | .restart | .elsewhere _ _ => .isTrue trivial

/-- No copy is in hand as a take-back removes the rows. -/
def App.Orderly (p : App) : Act → Prop
  | .turn i _ => p.tasks[i]? = some (.back .goneNoted) → ∀ t ∈ p.tasks, ¬ t.InHand
  | _ => True

instance (p : App) : DecidablePred p.Orderly
  | .turn i _ => inferInstanceAs
      (Decidable (p.tasks[i]? = some (.back .goneNoted) → ∀ t ∈ p.tasks, ¬ t.InHand))
  | .copy _ | .slice _ _ | .takeBack | .fail _ | .restart | .elsewhere _ _ => .isTrue trivial

/-! ## What the steps keep -/

section Keeping

variable {m : Message} {start : Int} {s : Held} {a : Answer}

/-- Times are in time, and where the rows were removed the message is noted as gone and has no
row. -/
structure Held.Sound (start : Int) (s : Held) : Prop where
  gone : ∀ noted ∈ s.gone, InTime start noted
  rows : ∀ row ∈ s.rows, InTime start row.sentAt
  cleared : s.cleared = true → s.gone.isSome = true ∧ s.rows = []
  handled : s.handled = true → s.cleared = true ∧ s.slices = []

def Held.Known (s : Held) : Prop := s.rows ≠ [] ∨ s.gone.isSome = true

def BackAt.Good (start : Int) (s : Held) : BackAt → Prop
  | .start | .owned | .noting | .asking | .writing => True
  | .reading => s.Known
  | .read rows => (rows ≠ [] ∧ ∀ row ∈ rows, InTime start row.sentAt) ∨ s.gone.isSome = true
  | .goneNoted => s.gone.isSome = true
  | .cleared => s.cleared = true

/-- What holds of a task: a copy in hand finds the rows not yet removed. -/
def Task.Good (start : Int) (s : Held) (t : Task) : Prop :=
  (t.InHand → s.cleared = false) ∧ match t with
    | .whole arrivedAt _ | .slice arrivedAt _ _ => ∀ came ∈ arrivedAt, InTime start came
    | .back stage => stage.Good start s
    | .ended => True

/-- What a step leaves of what other tasks rely on. -/
structure Held.Onward (s s' : Held) : Prop where
  known : s.Known → s'.Known
  gone : s.gone.isSome = true → s'.gone.isSome = true
  cleared : s.cleared = true → s'.cleared = true

theorem Held.Onward.refl (s : Held) : s.Onward s := ⟨id, id, id⟩

theorem Task.Good.onward {t : Task} {s' : Held} (good : t.Good start s) (on : s.Onward s')
    (hand : t.InHand → s'.cleared = false) : t.Good start s' := by
  refine ⟨hand, ?_⟩
  have rest := good.2
  cases t with
  | whole arrivedAt stage | slice arrivedAt x stage | ended => exact rest
  | back stage =>
    cases stage with
    | start | owned | noting | asking | writing => exact rest
    | reading => exact on.known rest
    | read rows => exact Or.imp_right on.gone rest
    | goneNoted => exact on.gone rest
    | cleared => exact on.cleared rest

namespace Held.Sound

variable (sound : s.Sound start)
include sound

theorem goneFrom (noted : s.gone.isSome = true) (timely : InTime start a.now) :
    s.goneFrom a.now = true := by
  obtain ⟨noted, isNoted⟩ := Option.isSome_iff_exists.mp noted
  have noted := sound.gone noted isNoted
  rw [Held.goneFrom, isNoted, Option.any_some, decide_eq_true_iff]
  unfold InTime at noted timely
  omega

theorem not_cleared (timely : InTime start a.now) (told : ¬ s.goneFrom a.now = true) :
    s.cleared = false := by
  by_contra cleared
  exact told (sound.goneFrom (sound.cleared (by simpa using cleared)).1 timely)

theorem not_handled (cleared : s.cleared = false) : s.handled = false := by
  by_contra handled
  have := (sound.handled (by simpa using handled)).1
  simp_all

theorem setSlices (slices : List Slice) (fits : s.cleared = false ∨ slices = []) :
    Held.Sound start { s with slices } := by
  refine ⟨sound.gone, sound.rows, sound.cleared, fun handled => ⟨(sound.handled handled).1, ?_⟩⟩
  obtain cleared | none := fits
  · have := sound.not_handled cleared
    simp_all
  · exact none

theorem addRow {sentAt : Int} (came : InTime start sentAt) (cleared : s.cleared = false) :
    Held.Sound start { s with rows := s.rows ++ [⟨sentAt⟩] } := by
  refine ⟨sound.gone, fun row inside => ?_, fun isCleared => ?_, sound.handled⟩
  · obtain old | new := List.mem_append.mp inside
    · exact sound.rows row old
    · rw [List.mem_singleton.mp new]
      exact came
  · simp_all

theorem setInflight (inflight : Bool) : Held.Sound start { s with inflight } :=
  ⟨sound.gone, sound.rows, sound.cleared, sound.handled⟩

theorem setTakenBack (takenBack : TakenBack) : Held.Sound start { s with takenBack } :=
  ⟨sound.gone, sound.rows, sound.cleared, sound.handled⟩

theorem setGone {now : Int} (timely : InTime start now) :
    Held.Sound start { s with gone := some now } := by
  refine ⟨fun noted isNoted => ?_, sound.rows, fun cleared => ⟨rfl, (sound.cleared cleared).2⟩,
    sound.handled⟩
  rw [← Option.some.inj isNoted]
  exact timely

end Held.Sound

/-- What a step of a task comes to, for it and for the others. -/
structure StepOk (start : Int) (s : Held) (out : Held × Task) : Prop where
  sound : out.1.Sound start
  good : out.2.Good start out.1
  onward : s.Onward out.1

theorem InTime.getD {arrivedAt : Option Int} {now : Int}
    (came : ∀ came ∈ arrivedAt, InTime start came) (timely : InTime start now) :
    InTime start (arrivedAt.getD now) := by
  cases arrivedAt with
  | none => exact timely
  | some at' => exact came at' rfl

theorem StepOk.ended {s' : Held} (sound : s'.Sound start) (on : s.Onward s') :
    StepOk start s (s', .ended) :=
  ⟨sound, ⟨False.elim, trivial⟩, on⟩

theorem StepOk.same (sound : s.Sound start) {t : Task} (good : t.Good start s) :
    StepOk start s (s, t) :=
  ⟨sound, good, .refl s⟩

theorem stepOk_whole (sound : s.Sound start) (timely : InTime start a.now)
    {arrivedAt : Option Int} {stage : WholeAt} (good : (Task.whole arrivedAt stage).Good start s) :
    StepOk start s (wholeStep m a arrivedAt s stage) := by
  obtain ⟨hand, came⟩ := good
  have idle : ∀ {s' : Held} {stage : WholeAt}, ¬ (Task.whole arrivedAt stage).InHand →
      (Task.whole arrivedAt stage).Good start s' :=
    fun notInHand => ⟨fun inHand => absurd inHand notInHand, came⟩
  cases stage with
  | start | untaken | askingRow =>
    simp only [wholeStep]
    split_ifs
    · exact .ended sound (.refl s)
    · exact .same sound (idle (by simp [Task.InHand]))
  | askingGone =>
    simp only [wholeStep]
    split_ifs with known
    · exact .ended sound (.refl s)
    · have told : ¬ s.goneFrom a.now = true := fun told => known (.inl told)
      exact ⟨sound.setInflight true, ⟨fun _ => sound.not_cleared timely told, came⟩, ⟨id, id, id⟩⟩
  | claimed =>
    have cleared : s.cleared = false := hand rfl
    simp only [wholeStep]
    exact ⟨sound.addRow (.getD came timely) cleared, idle (by simp [Task.InHand]),
      ⟨fun _ => .inl (by simp), id, id⟩⟩
  | filed => exact .ended (sound.setInflight false) ⟨id, id, id⟩

theorem stepOk_slice (sound : s.Sound start) (timely : InTime start a.now)
    {arrivedAt : Option Int} {x : Slice} {stage : SliceAt}
    (good : (Task.slice arrivedAt x stage).Good start s) :
    StepOk start s (sliceStep m a arrivedAt x s stage) := by
  obtain ⟨hand, came⟩ := good
  have idle : ∀ {s' : Held} {stage : SliceAt}, ¬ (Task.slice arrivedAt x stage).InHand →
      (Task.slice arrivedAt x stage).Good start s' :=
    fun notInHand => ⟨fun inHand => absurd inHand notInHand, came⟩
  cases stage with
  | start | untaken =>
    simp only [sliceStep]
    split_ifs
    · exact .ended sound (.refl s)
    · exact .same sound (idle (by simp [Task.InHand]))
  | askingGone =>
    simp only [sliceStep]
    split_ifs with told
    · exact .same sound (idle (by simp [Task.InHand]))
    · exact .same sound ⟨fun _ => sound.not_cleared timely told, came⟩
  | askingRow | counting =>
    have cleared : s.cleared = false := hand (by simp [Task.InHand])
    simp only [sliceStep]
    split_ifs
    · exact .same sound (idle (by simp [Task.InHand]))
    · exact .same sound ⟨fun _ => cleared, came⟩
  | dropping => exact .ended (sound.setSlices [] (.inr rfl)) ⟨id, id, id⟩
  | putting | replacing =>
    have cleared : s.cleared = false := hand (by simp [Task.InHand])
    exact ⟨sound.setSlices _ (.inl cleared), ⟨fun _ => cleared, came⟩, ⟨id, id, id⟩⟩
  | waiting =>
    simp only [sliceStep]
    split_ifs
    · exact .ended (sound.setSlices [] (.inr rfl)) ⟨id, id, id⟩
    · exact .ended sound (.refl s)
  | complete =>
    have cleared : s.cleared = false := hand (by simp [Task.InHand])
    simp only [sliceStep]
    split_ifs
    · exact .same sound (idle (by simp [Task.InHand]))
    · exact .ended sound (.refl s)
    · exact ⟨sound.setInflight true, ⟨fun _ => cleared, came⟩, ⟨id, id, id⟩⟩
  | claimed =>
    have cleared : s.cleared = false := hand (by simp [Task.InHand])
    simp only [sliceStep]
    split_ifs
    · exact .same sound (idle (by simp [Task.InHand]))
    · exact ⟨sound.addRow (.getD came timely) cleared, idle (by simp [Task.InHand]),
        ⟨fun _ => .inl (by simp), id, id⟩⟩
  | filed =>
    exact ⟨sound.setSlices [] (.inr rfl), idle (by simp [Task.InHand]), ⟨id, id, id⟩⟩
  | cleaned => exact .ended (sound.setInflight false) ⟨id, id, id⟩

theorem noteGone_eq {now : Int} {rows : List Row} (kept : goneKept m.group = true)
    (timely : InTime start now) (some : rows ≠ []) (came : ∀ row ∈ rows, InTime start row.sentAt) :
    s.noteGone m now rows = { s with gone := Option.some now } := by
  obtain ⟨row, inside⟩ := List.exists_mem_of_ne_nil rows some
  have young : ¬ row.sentAt < now - kGoneFor - day := by
    have inTime := came row inside
    unfold InTime at timely inTime
    unfold kGoneFor day at *
    omega
  exact if_pos ⟨kept, row, inside, young⟩

theorem noteGone_cases (s : Held) (m : Message) (now : Int) (rows : List Row) :
    s.noteGone m now rows = s ∨ s.noteGone m now rows = { s with gone := some now } := by
  unfold Held.noteGone
  split_ifs
  · exact .inr rfl
  · exact .inl rfl

theorem messageExists_iff : s.messageExists = true ↔ s.rows ≠ [] := by
  simp [Held.messageExists]

theorem stepOk_back (known : m.known = true) (kept : goneKept m.group = true)
    (sound : s.Sound start) (timely : InTime start a.now) {stage : BackAt}
    (good : (Task.back stage).Good start s) : StepOk start s (backStep m a s stage) := by
  have later : ∀ {s' : Held} {stage : BackAt}, stage.Good start s' →
      (Task.back stage).Good start s' := fun good => ⟨False.elim, good⟩
  have toGone : s.Onward { s with gone := some a.now } := ⟨fun _ => .inr rfl, fun _ => rfl, id⟩
  cases stage with
  | start =>
    simp only [backStep]
    split_ifs <;> exact .same sound (later trivial)
  | owned =>
    simp only [backStep]
    split_ifs
    · exact .same sound (later trivial)
    · exact .ended sound (.refl s)
  | noting =>
    simp only [backStep, kept]
    exact ⟨sound.setTakenBack _, later trivial, ⟨id, id, id⟩⟩
  | asking =>
    simp only [backStep]
    split_ifs with here
    · exact .same sound (later (.inl (messageExists_iff.mp here)))
    · exact .same sound (later trivial)
  | writing =>
    simp only [backStep, known]
    exact ⟨sound.setGone timely, later (.inr rfl), toGone⟩
  | reading =>
    refine .same sound (later ?_)
    obtain here | gone := good.2
    · exact .inl ⟨here, sound.rows⟩
    · exact .inr gone
  | read rows =>
    simp only [backStep]
    obtain ⟨some, came⟩ | gone := good.2
    · rw [noteGone_eq kept timely some came]
      exact ⟨sound.setGone timely, later rfl, toGone⟩
    · obtain same | noted := noteGone_cases s m a.now rows
      · rw [same]
        exact .same sound (later gone)
      · rw [noted]
        exact ⟨sound.setGone timely, later rfl, toGone⟩
  | goneNoted =>
    have gone : s.gone.isSome = true := good.2
    refine ⟨⟨sound.gone, ?_, fun _ => ⟨gone, rfl⟩,
      fun handled => ⟨rfl, (sound.handled handled).2⟩⟩, later rfl, ?_⟩
    · exact fun row inside => absurd inside List.not_mem_nil
    · exact ⟨fun _ => .inr gone, id, fun _ => rfl⟩
  | cleared =>
    have cleared : s.cleared = true := good.2
    exact .ended ⟨sound.gone, sound.rows, sound.cleared, fun _ => ⟨cleared, rfl⟩⟩ ⟨id, id, id⟩

theorem stepOk (known : m.known = true) (kept : goneKept m.group = true) (sound : s.Sound start)
    (timely : InTime start a.now) {t : Task} (good : t.Good start s) :
    StepOk start s (step m a s t) := by
  cases t with
  | whole arrivedAt stage => exact stepOk_whole sound timely good
  | slice arrivedAt x stage => exact stepOk_slice sound timely good
  | back stage => exact stepOk_back known kept sound timely good
  | ended => exact .same sound good

theorem cleared_step {t : Task} (other : t ≠ .back .goneNoted) :
    (step m a s t).1.cleared = s.cleared := by
  have noteGone : ∀ rows, (s.noteGone m a.now rows).cleared = s.cleared := by
    intro rows
    obtain same | noted := noteGone_cases s m a.now rows
    · rw [same]
    · rw [noted]
  cases t with
  | whole arrivedAt stage => cases stage <;> simp only [step, wholeStep] <;> split_ifs <;> rfl
  | slice arrivedAt x stage => cases stage <;> simp only [step, sliceStep] <;> split_ifs <;> rfl
  | ended => rfl
  | back stage =>
    cases stage with
    | goneNoted => exact absurd rfl other
    | read rows => exact noteGone rows
    | _ => simp only [step, backStep] <;> split_ifs <;> rfl

theorem fail_eq (s : Held) (t : Task) :
    fail s t = (s, .ended) ∨ fail s t = ({ s with inflight := false }, .ended) := by
  unfold fail
  split
  · exact .inr rfl
  · exact .inr rfl
  · exact .inr rfl
  · exact .inr rfl
  · exact .inr rfl
  · exact .inl rfl

end Keeping

/-! ## Whole runs -/

namespace App

variable {m : Message} {start : Int} {p : App} {act : Act}

abbrev Ok (start : Int) (p : App) : Prop := p.Holds (Held.Sound start) (Task.Good start)

theorem Ok.turn (known : m.known = true) (kept : goneKept m.group = true) (ok : p.Ok start)
    {i : Nat} {a : Answer} (timely : InTime start a.now)
    (orderly : p.Orderly (.turn i a)) : App.Ok start (Pool.turn (step m a) i p) := by
  refine Pool.Holds.turn ok (fun t found => ?_) fun t found u inside => ?_
  · have step := stepOk (a := a) known kept ok.shared timely
      (ok.tasks t (List.mem_of_getElem? found))
    exact ⟨step.sound, step.good⟩
  · have onward := (stepOk (a := a) known kept ok.shared timely
      (ok.tasks t (List.mem_of_getElem? found))).onward
    refine (ok.tasks u inside).onward onward fun inHand => ?_
    by_cases removes : t = .back .goneNoted
    · exact absurd inHand (orderly (removes ▸ found) u inside)
    · rw [cleared_step removes]
      exact (ok.tasks u inside).1 inHand

theorem Ok.fail (ok : p.Ok start) (i : Nat) : App.Ok start (Pool.turn Unsend.fail i p) := by
  have both : ∀ t : Task, (Unsend.fail p.shared t).1.Sound start ∧
      ∀ u ∈ p.tasks, u.Good start (Unsend.fail p.shared t).1 := by
    intro t
    obtain same | freed := fail_eq p.shared t
    · rw [same]
      exact ⟨ok.shared, ok.tasks⟩
    · rw [freed]
      exact ⟨ok.shared.setInflight false, fun u inside =>
        (ok.tasks u inside).onward ⟨id, id, id⟩ (ok.tasks u inside).1⟩
  refine Pool.Holds.turn ok (fun t _ => ⟨(both t).1, ?_⟩) fun t _ => (both t).2
  obtain same | freed := fail_eq p.shared t
  · rw [same]
    exact ⟨False.elim, trivial⟩
  · rw [freed]
    exact ⟨False.elim, trivial⟩

theorem Ok.next (known : m.known = true) (kept : goneKept m.group = true) (ok : p.Ok start)
    (timely : act.Timely start) (orderly : p.Orderly act) : (p.next m act).Ok start := by
  cases act with
  | copy arrivedAt | slice arrivedAt x =>
    exact ok.spawn ⟨fun inHand => absurd inHand (by simp [Task.InHand]), timely⟩
  | takeBack => exact ok.spawn ⟨False.elim, trivial⟩
  | turn i a => exact ok.turn known kept timely orderly
  | fail i => exact ok.fail i
  | restart =>
    exact ⟨(ok.shared.setTakenBack []).setInflight false, fun t none => nomatch none⟩
  | elsewhere key now =>
    exact ⟨ok.shared.setTakenBack _, fun t inside =>
      (ok.tasks t inside).onward ⟨id, id, id⟩ (ok.tasks t inside).1⟩

theorem ok_empty (start : Int) : empty.Ok start := by
  refine ⟨⟨?_, ?_, ?_, ?_⟩, fun t none => nomatch none⟩
  all_goals simp [empty]

end App

/-- In every run in which less than fifteen days pass, of a message whose going is written
down, and in which no copy is in hand as a take-back removes the rows, nothing of the message
is here once a take-back is through. -/
theorem nothing_left_of_run (m : Message) (start : Int) (known : m.known = true)
    (kept : goneKept m.group = true) {p : App}
    (run : Run (App.Step m) (fun p act => act.Timely start ∧ p.Orderly act) App.empty p)
    (handled : p.shared.handled = true) : p.shared.rows = [] ∧ p.shared.slices = [] := by
  have ok : p.Ok start := by
    refine run.invariant (App.Ok start) (App.ok_empty start) ?_
    rintro p _ act ok ⟨timely, orderly⟩ rfl
    exact ok.next known kept timely orderly
  obtain ⟨cleared, slices⟩ := ok.shared.handled handled
  exact ⟨(ok.shared.cleared cleared).2, slices⟩

def turns (i n : Nat) : List Act := List.replicate n (.turn i { now := 0 })

def App.after (acts : List Act) : App := acts.foldl (App.next { sender := ['a'], uid := ['u'] }) .empty

/-- A copy is filed, its take-back handled, and after a restart the copy comes again. -/
def comesAgain : List Act :=
  .copy none :: turns 0 6 ++ .takeBack :: turns 1 8 ++ .restart :: .copy none :: turns 0 4

theorem nothing_left_of_run_comesAgain :
    (App.after comesAgain).shared.rows = [] ∧ (App.after comesAgain).shared.slices = [] :=
  nothing_left_of_run { sender := ['a'], uid := ['u'] } 0 rfl rfl
    (Run.of_allowed _ _ (by decide)) (by decide)

/-- A copy asks whether the message went, its take-back is handled, and then the copy is filed. -/
def filedAfter : List Act :=
  .copy none :: turns 0 4 ++ .takeBack :: turns 1 8 ++ turns 0 2

/-- Both are handled, and the message is here. -/
theorem filedAfter_left :
    Run (App.Step { sender := ['a'], uid := ['u'] }) (fun _ act => act.Timely 0) App.empty
        (App.after filedAfter) ∧
      (App.after filedAfter).shared.handled = true ∧
      (App.after filedAfter).tasks = [.ended, .ended] ∧
      (App.after filedAfter).shared.rows ≠ [] := by
  refine ⟨Run.of_allowed _ _ (by decide), ?_, ?_, ?_⟩
  all_goals decide

end Kryfo.Unsend
