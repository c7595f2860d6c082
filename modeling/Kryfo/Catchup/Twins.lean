import Kryfo.Catchup.OneEntry

/-!
# Several entries into one store

A pass on one entry of our relay lets the others go.  In careful runs nothing is lost by that.
Two walks that both stepped over a stretch can release each other, and then a wrap that came after
both had walked it is owed by nobody.
-/

namespace Kryfo.Catchup

open Library

variable {κ : Type*}

/-- The phone has the wrap, or a hold some entry keeps reaches down to it. -/
def World.InOrKept (own : List κ) (w : World κ) (x : Wrap) : Prop :=
  x.toEvent ∈ w.got ∨ ∃ e ∈ own, (w.book.holds e).held = true ∧
      (w.book.holds e).floor - 43200 ≤ x.createdAt

/-- No first answer leaves a window owed on a connection that a pass has
already covered. -/
def Act.Uncovered (w : World κ) : Act κ → Prop
  | .full k => ∀ s, w.sessions k = some s → w.book.covered s.conn = false
  | .keepFirst k => ∀ s, w.sessions k = some s → w.book.covered s.conn = false
  | _ => True

variable [DecidableEq κ]

/-- In runs whose acts meet `rule`: when a pass on one entry ends, every wrap that a hold it
releases or a connection it covers owed is in or kept. -/
def ReleasesSafely (rule : World κ → Act κ → Prop) (own : List κ) : Prop :=
  ∀ (t : Int) (w w' : World κ) (act : Act κ) (k : κ), 0 < t →
    Run (Step own) rule (World.fresh t) w → rule w act → Step own w act w' →
    act = .short k ∨ act = .done k →
    (∀ e, e ≠ k → (w.book.holds e).held = true → (w'.book.holds e).held = false →
      ∀ x ∈ w'.store, (w.book.holds e).floor - 43200 ≤ x.createdAt → w'.InOrKept own x) ∧
    ∀ e s, e ≠ k → w'.sessions e = some s → w.book.covered s.conn = false →
      w'.book.covered s.conn = true →
      ∀ x ∈ w'.store, s.conn.owed.floor - 43200 ≤ x.createdAt → w'.InOrKept own x

/-- In runs whose acts meet `rule`: once a first answer has left the window from `base` owed, every
wrap of it is in the next time no entry holds anything. -/
def WalkedIsIn (rule : World κ → Act κ → Prop) (own : List κ) : Prop :=
  ∀ (t base : Int) (w w₁ w₂ : World κ) (act : Act κ) (k : κ), 0 < t →
    Run (Step own) rule (World.fresh t) w → rule w act → Step own w act w₁ →
    act.Owes w k base →
    Run (Step own) (fun w act => rule w act ∧ w.holding own) w₁ w₂ → ¬ w₂.holding own →
    ∀ x ∈ w₂.store, base - 43200 ≤ x.createdAt → x.toEvent ∈ w₂.got

variable {own : List κ} {w w' : World κ} {act : Act κ} {k : κ}

omit [DecidableEq κ] in
theorem World.Safe.inOrKept {x : Wrap} (safe : w.Safe own x) : w.InOrKept own x := by
  rcases safe with got | ⟨e, isOwn, isHeld, floor, -⟩
  · exact Or.inl got
  · exact Or.inr ⟨e, isOwn, isHeld, by omega⟩

theorem kept_of_careful {t : Int} (positive : 0 < t)
    (run : Run (Step own) (Act.Careful own) (World.fresh t) w) :
    w.Sound own ∧ w.Minded own := by
  apply run.invariant fun w => w.Sound own ∧ w.Minded own
  · exact ⟨World.fresh_sound own positive, by simp [World.Minded, World.fresh]⟩
  · rintro s s' act ⟨sound, minded⟩ careful step
    exact ⟨step.sound sound careful.uncrowded, step.minded sound minded careful⟩

theorem releasesSafely_of_careful (own : List κ) : ReleasesSafely (Act.Careful own) own := by
  intro t w w' act k positive run careful step ends
  obtain ⟨sound, -⟩ := kept_of_careful positive run
  obtain ⟨added, later⟩ := step.later
  obtain ⟨s, stepped, passes⟩ := step.passes sound ends
  have sSound := sound.sessions k s passes.isOpen
  have taken : ∀ x ∈ w'.store, s.conn.base - 43200 ≤ x.createdAt → w'.InOrKept own x := by
    intro x inStore inWindow
    rw [passes.store] at inStore
    exact (passes.safe sound later.got careful inStore (by omega)).inOrKept
  constructor
  · intro e other isHeld released x inStore inWindow
    apply taken x inStore
    have after := w.book.done_holds_of_ne stepped sSound.isOwn (by rwa [sSound.key] : e ≠ s.conn.key)
    rw [← passes.book] at after
    split_ifs at after with goes
    · omega
    · rw [after, isHeld] at released
      cases released
  · intro e c other isOpen _ isCovered x inStore inWindow
    apply taken x inStore
    have cSound := (step.sound sound careful.uncrowded).sessions e c isOpen
    have twin : c.conn.key ∈ s.conn.twins := by
      rw [sSound.twins, cSound.key]
      simpa [cSound.mem] using other
    rw [passes.book] at isCovered
    have := Book.done_covered sSound.isOwn twin isCovered
    omega

theorem walkedIsIn_of_careful (own : List κ) :
    WalkedIsIn (fun w act => act.Careful own w ∧ act.Uncovered w) own := by
  intro t base w w₁ w₂ act k positive run rule step owes during free x inStore inWindow
  obtain ⟨sound, minded⟩ := kept_of_careful positive (run.mono fun _ _ both => both.1)
  have uncovered : ∀ s, w.sessions k = some s → w.book.covered s.conn = false := by
    obtain ⟨-, -, -, rfl | ⟨rfl, -⟩⟩ := owes <;> exact rule.2
  have sound₁ := step.sound sound rule.1.uncrowded
  have minded₁ := step.minded sound minded rule.1
  obtain ⟨-, -, owing⟩ : w₂.Sound own ∧ w₂.Minded own ∧ w₂.Owing own base := by
    apply during.invariant fun w => w.Sound own ∧ w.Minded own ∧ w.Owing own base
    · exact ⟨sound₁, minded₁, step.owing_of_owes sound sound₁ minded₁ owes uncovered⟩
    · rintro s s' act ⟨sound, minded, owing⟩ ⟨⟨careful, -⟩, holding⟩ step
      exact ⟨step.sound sound careful.uncrowded, step.minded sound minded careful,
        step.owing sound careful holding owing⟩
  exact owing.got free inStore (by omega)

/-- Several entries, in careful runs: a pass on one releases nothing that is
missing and not still held; and when no entry holds anything, every window walked
since is in. -/
theorem twins_release_safely (own : List κ) :
    ReleasesSafely (Act.Careful own) own ∧
      WalkedIsIn (fun w act => act.Careful own w ∧ act.Uncovered w) own :=
  ⟨releasesSafely_of_careful own, walkedIsIn_of_careful own⟩

section Runs

instance (o : Option (Session κ)) (p : Session κ → Prop) [DecidablePred p] :
    Decidable (∀ s, o = some s → p s) := inferInstanceAs (Decidable (∀ s ∈ o, p s))

instance (w : World κ) : (act : Act κ) → Decidable (act.Careful own w)
  | .connect .. => inferInstanceAs (Decidable (_ → _ ∧ ∀ e ∈ own, _ → _ → ∀ _, _ → _ → _))
  | .done _ => inferInstanceAs (Decidable (∀ _, _ → _ → _ ∨ _ ∧ _))
  | .reach x => inferInstanceAs (Decidable ((Act.reach x).Uncrowded w))
  | .tick | .deliver _ | .start _ | .answer _ | .bring _ | .keepFirst _ | .short _ | .full _
  | .walk _ | .cut _ | .drop _ => .isTrue trivial

/-- Acts that keep to everything but how two stepped walks may end. -/
def Act.Plain (w : World Bool) (act : Act Bool) : Prop := act.Forward w ∧ act.Uncrowded w

instance (w : World Bool) (act : Act Bool) : Decidable (act.Plain w) :=
  inferInstanceAs (Decidable (_ ∧ _))

def bothEntries : List Bool := [false, true]

def bothBy (orders : List (Order Bool)) : World Bool :=
  orders.foldl (World.next bothEntries) (World.fresh 100000)

/-- The entry's first answer has brought so many wraps. -/
def brought (e : Bool) (now : Int) (limit count : Nat) : List (Order Bool) :=
  [.connect e now limit, .move e .answer] ++ List.replicate count (.move e .bring)

def keptBy (e : Bool) : List (Order Bool) :=
  brought e 100000 20 1 ++ [.move e .keepFirst, .move e .drop]

/-- One entry holds and the other's first answer is in. -/
def oneHolds : List (Order Bool) := [.reach newWrap] ++ keptBy false ++ brought true 100000 20 1

/-- One entry holds, the other's clean pass lets it go: the wrap it owed is
in. -/
theorem twins_release_safely_clean :
    ((bothBy oneHolds).book.holds false).held = true ∧
      ∃ v', Step bothEntries (bothBy oneHolds) (.short true) v' ∧
        (v'.book.holds false).held = false ∧ v'.InOrKept bothEntries newWrap := by
  have run : Run (Step bothEntries) (Act.Careful bothEntries) (World.fresh 100000)
      (bothBy oneHolds) := run_of_orders (by decide)
  have step : Step bothEntries (bothBy oneHolds) (.short true) _ :=
    World.step_next (.move true .short) (by decide)
  refine ⟨by decide, _, step, by decide, ?_⟩
  exact ((twins_release_safely bothEntries).1 100000 _ _ (.short true) true (by decide) run
    trivial step (.inl rfl)).1 false (by decide) (by decide) (by decide) newWrap
    (by decide) (by decide)

/-- A wrap stamped into the stretch both entries keep, and five newer ones. -/
def steppedOver : Wrap := ⟨⟨3, 99500⟩, 100100, by decide, by decide, by decide⟩

def recentWraps : List Wrap :=
  [⟨⟨4, 100001⟩, 100100, by decide, by decide, by decide⟩,
    ⟨⟨5, 100002⟩, 100100, by decide, by decide, by decide⟩,
    ⟨⟨6, 100003⟩, 100100, by decide, by decide, by decide⟩,
    ⟨⟨7, 100004⟩, 100100, by decide, by decide, by decide⟩,
    ⟨⟨8, 100005⟩, 100100, by decide, by decide, by decide⟩]

/-- Both entries hold when the wraps come.  Then both walk, stepping over the stretch they keep, and
the first walk to end keeps its own hold and lets the other go. -/
def bothWalked : List (Order Bool) :=
  [.reach newWrap] ++ keptBy false ++ keptBy true ++
    [.tick 100100, .reach steppedOver] ++ recentWraps.map .reach ++
    brought false 100100 5 5 ++ [.move false .full] ++ brought true 100100 5 5 ++
    [.move true .full, .move false .page, .move false .page, .move false .done,
      .move true .page, .move true .page]

/-- Two walks that both stepped over a stretch release each other, and the wrap
stamped into it is owed by nobody. -/
theorem not_releasesSafely : ¬ ReleasesSafely Act.Plain bothEntries := by
  intro safely
  have run : Run (Step bothEntries) Act.Plain (World.fresh 100000) (bothBy bothWalked) :=
    run_of_orders (by decide +kernel)
  have released := (safely 100000 _ _ (.done true) true (by decide) run ⟨trivial, trivial⟩
    (World.step_next (.move true .done) (by decide +kernel)) (.inr rfl)).1 false (by decide)
    (by decide +kernel) (by decide +kernel) steppedOver (by decide +kernel) (by decide +kernel)
  rcases released with got | ⟨e, -, isHeld, -⟩
  · exact absurd got (by decide +kernel)
  · cases e
    · exact absurd isHeld (by decide +kernel)
    · exact absurd isHeld (by decide +kernel)

end Runs

end Kryfo.Catchup
