import Kryfo.Catchup.Owing

/-!
# One entry of our relay

Nothing lets a single entry's hold go but its own clean pass.  So a window that a first answer
left owed is owed until every wrap of it is in, where the anchor is not below the hold and no
second is crowded.
-/

namespace Kryfo.Catchup

open Library List

variable {κ : Type*}

/-- The anchor a resumed connection is given is not below its hold.  A runner that reads an older
one lowers the hold to it. -/
def Act.Forward (w : World κ) : Act κ → Prop
  | .connect k last => (w.book.marks k).started = true → (w.book.holds k).floor ≤ last
  | _ => True

variable [DecidableEq κ]

/-- In runs whose acts meet `rule`: once a first answer leaves the window from `base` owed, a
connection's window takes in every missing wrap of it until the book holds nothing, and then every
wrap of it is in. -/
def OwedUntilIn (rule : World κ → Act κ → Prop) (k : κ) : Prop :=
  ∀ (t base : Int) (w w₁ w₂ : World κ) (act : Act κ), 0 < t →
    Run (Step [k]) rule (World.fresh t) w → rule w act → Step [k] w act w₁ →
    act.Owes w k base →
    Run (Step [k]) (fun w act => rule w act ∧ (w.book.holds k).held = true) w₁ w₂ →
    ((w₂.book.holds k).held = true → ∀ last ≤ w₂.now, ∀ x ∈ w₂.store,
      x.toEvent ∉ w₂.got → base - 43200 ≤ x.createdAt →
        (w₂.book.connect k [k] last w₂.now).base - 43200 ≤ x.createdAt) ∧
    ((w₂.book.holds k).held = false → ∀ x ∈ w₂.store,
      base - 43200 ≤ x.createdAt → x.toEvent ∈ w₂.got)

variable {k : κ} {w w' : World κ} {act : Act κ} {s : Session κ}

def Phase.walks : Phase → Bool
  | .walking .. => true
  | .walked .. => true
  | _ => false

/-- A lone entry's connection is never covered, and its walk keeps the hold it began with. -/
structure World.Alone (k : κ) (w : World κ) : Prop where
  freed : ∀ s, w.sessions k = some s → (w.book.freed k).n = s.conn.freed
  holds : ∀ s, w.sessions k = some s → s.phase.walks = true →
    (w.book.holds k).held = true ∧ (w.book.holds k).began = s.conn.owed.began

omit [DecidableEq κ] in
theorem World.Alone.not_covered (alone : w.Alone k) (isOpen : w.sessions k = some s)
    (key : s.conn.key = k) : w.book.covered s.conn = false := by
  have := alone.freed s isOpen
  simp [Book.covered, key, this]

theorem World.Sound.entry_eq (sound : w.Sound [k]) {e : κ} {t : Session κ}
    (isOpen : w.sessions e = some t) : e = k :=
  mem_singleton.mp (sound.sessions e t isOpen).mem

theorem Session.Sound.no_twins (sound : s.Sound [k] w k) : s.conn.twins = [] := by
  rw [sound.twins]
  simp

omit [DecidableEq κ] in
theorem World.Alone.update {s' : Session κ} (alone : w.Alone k)
    (isOpen : w.sessions k = some s) (sameFreed : w'.book.freed = w.book.freed)
    (moved : w'.sessions k = some s') (sameConn : s'.conn = s.conn)
    (holds : s'.phase.walks = true →
      (w'.book.holds k).held = true ∧ (w'.book.holds k).began = s.conn.owed.began) :
    w'.Alone k := by
  constructor
  · intro t opened
    rw [moved, Option.some.injEq] at opened
    subst opened
    rw [sameFreed, sameConn]
    exact alone.freed s isOpen
  · intro t opened walks
    rw [moved, Option.some.injEq] at opened
    subst opened
    rw [sameConn]
    exact holds walks

theorem Step.alone (step : Step [k] w act w') (sound : w.Sound [k]) (alone : w.Alone k) :
    w'.Alone k := by
  cases step with
  | tick now later | reach x handed atNow live | deliver ev => exact ⟨alone.freed, alone.holds⟩
  | start anchor notAhead =>
    refine ⟨fun s isOpen => by simpa using alone.freed s isOpen, ?_⟩
    intro s isOpen walks
    obtain ⟨isHeld, began⟩ := alone.holds s isOpen walks
    rcases w.book.start_holds [k] anchor sound.nowPos k with same | lowered
    · rw [same]
      exact ⟨isHeld, began⟩
    · rw [lowered]
      exact ⟨Hold.start_held sound.nowPos, (Hold.start_of_held isHeld anchor w.now).1.trans began⟩
  | connect e last limit isOwn closed notAhead limitPos =>
    obtain rfl := mem_singleton.mp isOwn
    constructor
    · intro s opened
      simp only [World.setSession, Function.update_self, Option.some.injEq] at opened ⊢
      subst opened
      exact (w.book.connect_freed last w.now).symm
    · intro s opened walks
      simp only [World.setSession, Function.update_self, Option.some.injEq] at opened
      subst opened
      simp [Phase.walks] at walks
  | answer e s evs isOpen phase sorted newest
  | bring e s answer brought held ev isOpen phase next =>
    obtain rfl := sound.entry_eq isOpen
    exact alone.update isOpen rfl (Function.update_self ..) rfl (by simp [Phase.walks])
  | keepFirst e s answer brought held isOpen phase =>
    obtain rfl := sound.entry_eq isOpen
    have sSound := sound.sessions e s isOpen
    have sameFreed : (w.book.keepFirst s.conn (firstBelow s.limit (answer.take brought))
        (w.now + 300)).freed = w.book.freed := by
      rw [Book.keepFirst_eq sSound.isOwn]
      split_ifs <;> rfl
    exact alone.update isOpen sameFreed isOpen rfl (by simp [phase, Phase.walks])
  | full e s answer held isOpen phase isFull =>
    obtain rfl := sound.entry_eq isOpen
    have sSound := sound.sessions e s isOpen
    have writes : w.book.owe s.conn = w.book.write s.conn (w.book.marks s.conn.key) := by
      rw [Book.owe_eq sSound.isOwn, alone.not_covered isOpen sSound.key]
      rfl
    have here := w.book.write_holds_self (w.book.marks s.conn.key) sSound.owed_held
    rw [sSound.key] at here
    refine alone.update isOpen (by simp [World.setSession, writes]) (Function.update_self ..)
      rfl ?_
    intro _
    simp only [World.setSession, writes, sSound.key, here]
    exact ⟨sSound.owed_held, trivial⟩
  | exhausted e s m origin upto res isOpen phase
  | stop e s m origin upto res res' left ended isOpen phase stops
  | page e s m origin upto res res' left pageSince upto' above held page fresh isOpen phase =>
    obtain rfl := sound.entry_eq isOpen
    exact alone.update isOpen rfl (Function.update_self ..) rfl
      fun _ => alone.holds s isOpen (by rw [phase]; rfl)
  | short e s answer held isOpen phase isShort
  | done e s m origin res isOpen phase complete =>
    obtain rfl := sound.entry_eq isOpen
    have sSound := sound.sessions e s isOpen
    exact alone.update isOpen (Book.done_freed_of_no_twins sSound.isOwn sSound.no_twins)
      (if_pos rfl) rfl (by simp [Phase.walks])
  | cut e s m origin res isOpen phase incomplete =>
    obtain rfl := sound.entry_eq isOpen
    have sSound := sound.sessions e s isOpen
    have sameFreed : (w.book.cut s.conn (markAfter origin m res)).freed = w.book.freed := by
      rw [Book.cut_eq sSound.isOwn]
      split_ifs <;> rfl
    exact alone.update isOpen sameFreed (Function.update_self ..) rfl (by simp [Phase.walks])
  | drop e s isOpen may =>
    obtain rfl := sound.entry_eq isOpen
    exact ⟨by simp, by simp⟩

/-- In a run of one entry it is enough that the anchor goes forward and no
second is crowded. -/
theorem Step.careful_of_forward (step : Step [k] w act w') (sound : w.Sound [k])
    (alone : w.Alone k) (forward : act.Forward w) (uncrowded : act.Uncrowded w) :
    act.Careful [k] w := by
  cases step with
  | connect e last limit isOwn closed notAhead limitPos =>
    obtain rfl := mem_singleton.mp isOwn
    intro started
    refine ⟨forward started, ?_⟩
    intro other member ne
    exact (ne (mem_singleton.mp member)).elim
  | done e s m origin res isOpen phase complete =>
    obtain rfl := sound.entry_eq isOpen
    intro t opened _
    rw [isOpen, Option.some.injEq] at opened
    subst opened
    obtain ⟨isHeld, began⟩ := alone.holds s isOpen (by rw [phase]; rfl)
    exact .inr ⟨isHeld, le_of_eq began⟩
  | _ => exact uncrowded

structure World.Kept (k : κ) (w : World κ) : Prop where
  sound : w.Sound [k]
  minded : w.Minded [k]
  alone : w.Alone k

theorem World.fresh_sound (own : List κ) {t : Int} (positive : 0 < t) :
    (World.fresh t : World κ).Sound own where
  nowPos := positive
  reached := by simp [World.fresh]
  noCrowd := by simp [World.fresh, NoCrowd]
  book := by constructor <;> simp [World.fresh, newBook, Mark.started, Hold.held]
  sessions := by simp [World.fresh]
  agrees := by simp [World.fresh]

theorem World.fresh_kept {t : Int} (positive : 0 < t) : (World.fresh t : World κ).Kept k where
  sound := World.fresh_sound [k] positive
  minded := by simp [World.Minded, World.fresh]
  alone := by constructor <;> simp [World.fresh]

theorem Step.kept (step : Step [k] w act w') (kept : w.Kept k)
    (rule : act.Forward w ∧ act.Uncrowded w) : w'.Kept k := by
  have careful := step.careful_of_forward kept.sound kept.alone rule.1 rule.2
  exact ⟨step.sound kept.sound rule.2, step.minded kept.sound kept.minded careful,
    step.alone kept.sound kept.alone⟩

/-- One entry, the anchor going forward and no second crowded: a window once
owed is taken in by every later connection until all of it is in. -/
theorem owedUntilIn_of_forward (k : κ) :
    OwedUntilIn (fun w act => act.Forward w ∧ act.Uncrowded w) k := by
  intro t base w w₁ w₂ act positive before rule step owes during
  have kept : w.Kept k := before.invariant (World.Kept k) (World.fresh_kept positive)
    fun kept rule step => step.kept kept rule
  obtain ⟨-, owing⟩ : w₂.Kept k ∧ w₂.Owing [k] base := by
    apply during.invariant fun w => w.Kept k ∧ w.Owing [k] base
    · have kept' := step.kept kept rule
      exact ⟨kept', step.owing_of_owes kept.sound kept'.sound kept'.minded owes
        fun s isOpen => kept.alone.not_covered isOpen (kept.sound.sessions k s isOpen).key⟩
    · rintro s s' act ⟨kept, owing⟩ ⟨rule, isHeld⟩ step
      have careful := step.careful_of_forward kept.sound kept.alone rule.1 rule.2
      exact ⟨step.kept kept rule, step.owing kept.sound careful ⟨k, by simp, isHeld⟩ owing⟩
  constructor
  · intro isHeld last notAhead x inStore missing inWindow
    rcases owing x inStore (by omega) with got | ⟨e, member, eHeld, floor, -⟩
    · exact (missing got).elim
    · obtain rfl := mem_singleton.mp member
      have := w₂.book.connect_base_le_floor last w₂.now member member eHeld
      omega
  · intro free x inStore inWindow
    apply owing.got _ inStore (by omega)
    rintro ⟨e, member, eHeld⟩
    obtain rfl := mem_singleton.mp member
    simp [free] at eHeld

section Runs

instance (w : World κ) : (act : Act κ) → Decidable (act.Forward w)
  | .connect .. => inferInstanceAs (Decidable (_ → _))
  | .tick | .reach _ | .deliver _ | .start _ | .answer _ | .bring _ | .keepFirst _ | .short _
  | .full _ | .walk _ | .done _ | .cut _ | .drop _ => .isTrue trivial

instance (w : World κ) : (act : Act κ) → Decidable (act.Uncrowded w)
  | .reach _ => inferInstanceAs (Decidable (NoCrowd ..))
  | .tick | .deliver _ | .start _ | .connect .. | .answer _ | .bring _ | .keepFirst _ | .short _
  | .full _ | .walk _ | .done _ | .cut _ | .drop _ => .isTrue trivial

def lateWrap : Wrap := ⟨⟨1, 50000⟩, 80000, by decide, by decide, by decide⟩

def newWrap : Wrap := ⟨⟨2, 99000⟩, 100000, by decide, by decide, by decide⟩

def stocked : List (Order Unit) := [.reach lateWrap, .tick 100000, .reach newWrap]

/-- The entry connects from `last`, and the newest of its first answer comes. -/
def askedOne (last : Int) (limit : Nat) : List (Order Unit) :=
  [.connect () last limit, .move () .answer, .move () .bring]

def reachedBy (t : Int) (orders : List (Order Unit)) : World Unit :=
  orders.foldl (World.next [()]) (World.fresh t)

theorem owes_of_asked {w : World Unit} {base : Int}
    (asked : (w.sessions ()).any (fun s => s.conn.base = base && match s.phase with
      | .asked answer brought _ => 0 < firstBelow s.limit (answer.take brought)
      | _ => false) = true) :
    (Act.full ()).Owes w () base ∧ (Act.keepFirst ()).Owes w () base := by
  cases isOpen : w.sessions () with
  | none => simp [isOpen] at asked
  | some s =>
    rw [isOpen] at asked
    obtain ⟨isBase, holds⟩ := Bool.and_eq_true_iff.mp asked
    refine ⟨⟨s, isOpen, of_decide_eq_true isBase, .inl rfl⟩, s, isOpen, of_decide_eq_true isBase,
      .inr ⟨rfl, ?_⟩⟩
    split at holds
    next answer brought held phase =>
      exact ⟨answer, brought, held, phase, of_decide_eq_true holds⟩
    next => cases holds

/-- A first answer from an anchor of 90000, kept with its newest wrap in: the
next connection from 100000 still takes in the early one. -/
theorem owedUntilIn_of_forward_stocked :
    let w := (reachedBy 80000 (stocked ++ askedOne 90000 20)).next [()] (.move () .keepFirst)
    w.got = [newWrap.toEvent] ∧
      (w.book.connect () [()] 100000 100000).base - 43200 ≤ lateWrap.createdAt := by
  refine ⟨by decide, ?_⟩
  have run : Run (Step [()]) (fun w act => act.Forward w ∧ act.Uncrowded w) (World.fresh 80000)
      (reachedBy 80000 (stocked ++ askedOne 90000 20)) := run_of_orders (by decide)
  exact (owedUntilIn_of_forward () 80000 90000 _ _ _ (.keepFirst ()) (by decide) run
    ⟨trivial, trivial⟩ (World.step_next (.move () .keepFirst) (by decide))
    (owes_of_asked (by decide)).2 .refl).1 (by decide) 100000 (by decide) lateWrap
    (by exact mem_cons_self) (by decide) (by decide)

theorem OwedUntilIn.mono {rule stronger : World κ → Act κ → Prop}
    (implies : ∀ w act, stronger w act → rule w act) (owed : OwedUntilIn rule k) :
    OwedUntilIn stronger k := by
  intro t base w w₁ w₂ act positive before allowed step owes during
  exact owed t base w w₁ w₂ act positive (before.mono implies) (implies _ _ allowed) step owes
    (during.mono fun w act both => ⟨implies w act both.1, both.2⟩)

/-- A connection resumed with an anchor below its hold walks a window the hold
does not reach. -/
theorem not_owedUntilIn_backward : ¬ OwedUntilIn (fun w act => act.Uncrowded w) () := by
  intro owed
  let resumed := stocked ++ askedOne 100000 20 ++ [.move () .keepFirst, .move () .drop] ++
    askedOne 90000 5
  have run : Run (Step [()]) (fun w act => act.Uncrowded w) (World.fresh 80000)
      (reachedBy 80000 resumed) := run_of_orders (by decide)
  have next := (owed 80000 90000 _ _ _ (.keepFirst ()) (by decide) run trivial
    (World.step_next (.move () .keepFirst) (by decide)) (owes_of_asked (by decide)).2
    .refl).1 (by decide) 100000 (by decide) lateWrap (by exact mem_cons_self) (by decide) (by decide)
  exact absurd next (by decide)

def crowdWrap (i : Nat) : Wrap where
  id := BitVec.ofNat 256 i
  createdAt := 90000
  reached := 90000
  positive := by norm_num
  notAhead := le_refl _
  jittered := by norm_num

/-- One more wrap of one second than a page hands out, and a first answer of twenty. -/
def crowded : List (Order Unit) :=
  (List.range 101).map (.reach ∘ crowdWrap) ++ [.connect () 90000 20, .move () .answer] ++
    List.replicate 20 (.move () .bring)

/-- A second with more wraps than a page is stepped over, and the clean pass
then clears the hold. -/
theorem not_owedUntilIn_crowded : ¬ OwedUntilIn (fun w act => act.Forward w) () := by
  intro owed
  have run : Run (Step [()]) (fun w act => act.Forward w) (World.fresh 90000)
      (reachedBy 90000 crowded) := run_of_orders (by decide +kernel)
  let full := (reachedBy 90000 crowded).next [()] (.move () .full)
  have done : Run (Step [()]) (fun w act => act.Forward w ∧ (w.book.holds ()).held = true) full
      ([.move () .page, .move () .page, .move () .done].foldl (World.next [()]) full) :=
    run_of_orders (by decide +kernel)
  have missing := (owed 90000 90000 _ _ _ (.full ()) (by decide) run trivial
    (World.step_next (.move () .full) (by decide +kernel)) (owes_of_asked (by decide +kernel)).1
    done).2 (by decide +kernel) (crowdWrap 100) (by decide +kernel) (by decide)
  exact absurd missing (by decide +kernel)

/-- The anchors given to a resumed connection and the wraps of one second both
have to be bounded: with any of the two left free, a window once owed is not
always taken in. -/
theorem not_owedUntilIn :
    ¬ OwedUntilIn (fun _ _ => True) () ∧ ¬ OwedUntilIn (fun w act => act.Uncrowded w) () ∧
      ¬ OwedUntilIn (fun w act => act.Forward w) () :=
  ⟨fun owed => not_owedUntilIn_backward (owed.mono fun _ _ _ => trivial),
    not_owedUntilIn_backward, not_owedUntilIn_crowded⟩

end Runs

end Kryfo.Catchup
