import Kryfo.Library.Run
import Mathlib.Data.Prod.Lex
import Mathlib.Order.BooleanAlgebra.Basic
import Mathlib.Logic.Function.Basic

/-!
# The screenshot block of a chat

Both phones of a chat hold one state, on or off with the stamp it was set at, and send it with
every envelope.  The newer stamp wins, and on a tie the block stays on.
-/

namespace Kryfo.Shots

open Library

structure ShotsWord where
  on : Bool
  stamp : Int
  deriving DecidableEq

def kShotsStampMost : Int := 9999999999999

def kShotsAheadMost : Int := 24 * 60 * 60 * 1000

/-- What the other phone reads of a word on the wire. -/
def ShotsWord.onWire (w : ShotsWord) : ShotsWord :=
  { w with stamp := max 0 (min w.stamp kShotsStampMost) }

def shotsWins (w held : ShotsWord) : Bool :=
  0 < w.stamp && (held.stamp < w.stamp || (w.stamp = held.stamp && w.on && !held.on))

def shotsNextStamp (stamp now : Int) : Int := min (max now (stamp + 1)) kShotsStampMost

def shotsInTime (w : ShotsWord) (now : Int) : Bool := w.stamp ≤ now + kShotsAheadMost

def turnShots (held : ShotsWord) (now : Int) (on : Bool) : ShotsWord :=
  ⟨on, shotsNextStamp held.stamp now⟩

def tookShots (accepted : Bool) (held : ShotsWord) (now : Int) (w : ShotsWord) : Bool :=
  accepted && shotsInTime w now && shotsWins w held

def takeShots (accepted : Bool) (held : ShotsWord) (now : Int) (w : ShotsWord) : ShotsWord :=
  if tookShots accepted held now w then w else held

/-! ## Two phones -/

/-- One phone.  `changes` counts the changes of its state; words are kept with the changes there
were as they were sent, in `sent` here and in `heard` where they came. -/
structure Phone where
  held : ShotsWord := ⟨false, 0⟩
  changes : Nat := 0
  sent : List (Nat × ShotsWord) := []
  heard : List (Nat × ShotsWord) := []

inductive Act where
  | turn (p : Bool) (now : Int) (on : Bool)
  | send (p : Bool)
  | take (p : Bool) (now : Int) (w : Nat × ShotsWord)

def turn (phone : Phone) (now : Int) (on : Bool) : Phone :=
  { phone with held := turnShots phone.held now on, changes := phone.changes + 1 }

def send (phone : Phone) : Phone :=
  { phone with sent := (phone.changes, phone.held.onWire) :: phone.sent }

def take (phone : Phone) (now : Int) (w : Nat × ShotsWord) : Phone :=
  { phone with
    held := takeShots true phone.held now w.2
    changes := phone.changes + (tookShots true phone.held now w.2).toNat
    heard := w :: phone.heard }

def next (s : Bool → Phone) : Act → Bool → Phone
  | .turn p now on => Function.update s p (turn (s p) now on)
  | .send p => Function.update s p (send (s p))
  | .take p now w => Function.update s p (take (s p) now w)

/-- A word that is taken was sent by the other phone, and is not too far ahead. -/
def Comes (s : Bool → Phone) : Act → Prop
  | .take p now w => w ∈ (s !p).sent ∧ shotsInTime w.2 now
  | _ => True

/-- So it is, and the block is turned only below the largest stamp. -/
def Fair (s : Bool → Phone) : Act → Prop
  | .turn p _ _ => (s p).held.stamp < kShotsStampMost
  | act => Comes s act

/-- A word was heard that the other phone sent after its last change. -/
def UpToDate (s : Bool → Phone) (p : Bool) : Prop := ∃ w ∈ (s p).heard, w.1 = (s !p).changes

def start : Bool → Phone := fun _ => {}

/-! ## The order of states -/

def ShotsWord.rank (w : ShotsWord) : Int ×ₗ Bool := toLex (w.stamp, w.on)

/-- A state a phone can hold. -/
structure Proper (w : ShotsWord) : Prop where
  nonneg : 0 ≤ w.stamp
  most : w.stamp ≤ kShotsStampMost
  off : w.stamp = 0 → w.on = false

variable {w held : ShotsWord} {now : Int} {p : Bool} {phone : Phone} {s s' : Bool → Phone}

theorem ShotsWord.rank_injective : Function.Injective ShotsWord.rank := by
  rintro ⟨on, stamp⟩ ⟨on', stamp'⟩ same
  cases same
  rfl

theorem Proper.onWire (proper : Proper w) : w.onWire = w := by
  rw [ShotsWord.onWire, min_eq_left proper.most, max_eq_right proper.nonneg]

theorem shotsWins_iff : shotsWins w held = true ↔ 0 < w.stamp ∧ held.rank < w.rank := by
  obtain ⟨on, stamp⟩ := w
  obtain ⟨onHeld, stampHeld⟩ := held
  have same := eq_comm (a := stamp) (b := stampHeld)
  rw [ShotsWord.rank, ShotsWord.rank, Prod.Lex.toLex_lt_toLex]
  cases on <;> cases onHeld <;> simp [shotsWins, same]

theorem rank_le_of_not_wins (proper : Proper w) (properHeld : Proper held)
    (loses : shotsWins w held = false) : w.rank ≤ held.rank := by
  by_cases unset : w.stamp = 0
  · rw [ShotsWord.rank, ShotsWord.rank, Prod.Lex.toLex_le_toLex, unset, proper.off unset]
    rcases properHeld.nonneg.lt_or_eq with set | same
    · exact .inl set
    · exact .inr ⟨same, Bool.false_le _⟩
  · have set : 0 < w.stamp := lt_of_le_of_ne proper.nonneg (Ne.symm unset)
    by_contra above
    rw [shotsWins_iff.mpr ⟨set, not_le.mp above⟩] at loses
    contradiction

/-! ## Runs -/

/-- A word sent since the last change is the state held, and no word heard is above it as long as
every turn was fair. -/
structure Own (fair : Prop) (phone : Phone) : Prop where
  proper : Proper phone.held
  sent : ∀ w ∈ phone.sent, Proper w.2 ∧ w.1 ≤ phone.changes ∧
    (w.1 = phone.changes → w.2 = phone.held)
  heard : fair → ∀ w ∈ phone.heard, w.2.rank ≤ phone.held.rank

structure Sound (fair : Prop) (s : Bool → Phone) : Prop where
  own : ∀ p, Own fair (s p)
  heard : ∀ p, (s p).heard ⊆ (s !p).sent

variable {fair : Prop} {act : Act} {x : Nat × ShotsWord}

theorem proper_turnShots (proper : Proper held) (on : Bool) : Proper (turnShots held now on) := by
  have := proper.nonneg
  have positive : 0 < kShotsStampMost := by decide
  constructor <;> simp only [turnShots, shotsNextStamp] <;> omega

theorem rank_le_turnShots (on : Bool) (low : held.stamp < kShotsStampMost) :
    held.rank ≤ (turnShots held now on).rank := by
  rw [ShotsWord.rank, ShotsWord.rank, Prod.Lex.toLex_le_toLex]
  simp only [turnShots, shotsNextStamp]
  omega

theorem Own.change (own : Own fair phone) (proper : Proper w)
    (rises : fair → phone.held.rank ≤ w.rank) :
    Own fair { phone with held := w, changes := phone.changes + 1 } where
  proper := proper
  sent x inside := by
    obtain ⟨properSent, before, -⟩ := own.sent x inside
    exact ⟨properSent, Nat.le_succ_of_le before, fun now => absurd now (by dsimp only; omega)⟩
  heard isFair x inside := (own.heard isFair x inside).trans (rises isFair)

theorem Own.hear (own : Own fair phone) (below : x.2.rank ≤ phone.held.rank) :
    Own fair { phone with heard := x :: phone.heard } where
  proper := own.proper
  sent := own.sent
  heard isFair y inside := by
    rcases List.mem_cons.mp inside with rfl | before
    · exact below
    · exact own.heard isFair y before

theorem Own.send (own : Own fair phone) : Own fair (send phone) where
  proper := own.proper
  sent x inside := by
    rcases List.mem_cons.mp inside with rfl | before
    · have same := own.proper.onWire
      exact ⟨by rw [same]; exact own.proper, le_rfl, fun _ => same⟩
    · exact own.sent x before
  heard := own.heard

theorem Own.take (own : Own fair phone) (proper : Proper x.2) (inTime : shotsInTime x.2 now) :
    Own fair (take phone now x) := by
  cases wins : shotsWins x.2 phone.held with
  | false =>
    have kept : Shots.take phone now x = { phone with heard := x :: phone.heard } := by
      simp [Shots.take, takeShots, tookShots, wins]
    rw [kept]
    exact own.hear (rank_le_of_not_wins proper own.proper wins)
  | true =>
    have taken : Shots.take phone now x =
        { phone with held := x.2, changes := phone.changes + 1, heard := x :: phone.heard } := by
      simp [Shots.take, takeShots, tookShots, wins, inTime]
    rw [taken]
    exact (own.change proper fun _ => (shotsWins_iff.mp wins).2.le).hear le_rfl

theorem Sound.update (sound : Sound fair s) (own : Own fair phone)
    (heard : phone.heard ⊆ (s !p).sent) (sent : (s p).sent ⊆ phone.sent) :
    Sound fair (Function.update s p phone) where
  own := (Function.forall_update_iff s fun _ => Own fair).mpr ⟨own, fun q _ => sound.own q⟩
  heard q := by
    by_cases here : q = p
    · subst here
      rwa [Function.update_self, Function.update_of_ne (by simp)]
    · obtain rfl : p = !q := by cases p <;> cases q <;> simp_all
      rw [Function.update_of_ne here, Function.update_self]
      exact fun x inside => sent (sound.heard q inside)

theorem Sound.next (sound : Sound fair s) (comes : Comes s act) (isFair : fair → Fair s act) :
    Sound fair (next s act) := by
  cases act with
  | turn p now on =>
    have own := sound.own p
    exact sound.update (own.change (proper_turnShots own.proper on)
      fun is => rank_le_turnShots on (isFair is)) (sound.heard p) fun _ => id
  | send p => exact sound.update (sound.own p).send (sound.heard p) fun _ => .tail _
  | take p now x =>
    have proper := ((sound.own !p).sent x comes.1).1
    exact sound.update ((sound.own p).take proper comes.2)
      (List.cons_subset.mpr ⟨comes.1, sound.heard p⟩) fun _ => id

theorem Sound.start : Sound fair start where
  own _ := ⟨⟨le_rfl, by simp [Shots.start, kShotsStampMost], fun _ => rfl⟩,
    by simp [Shots.start], by simp [Shots.start]⟩
  heard _ := List.nil_subset _

theorem Sound.rank_le (sound : Sound True s) (upToDate : UpToDate s p) :
    (s !p).held.rank ≤ (s p).held.rank := by
  obtain ⟨x, inside, current⟩ := upToDate
  rw [← ((sound.own !p).sent x (sound.heard p inside)).2.2 current]
  exact (sound.own p).heard trivial x inside

theorem stamp_le_takeShots (accepted : Bool) :
    held.stamp ≤ (takeShots accepted held now w).stamp := by
  unfold takeShots
  split_ifs with took
  · simp only [tookShots, shotsWins, Bool.and_eq_true, Bool.or_eq_true, decide_eq_true_eq] at took
    omega
  · exact le_rfl

theorem stamp_le_update (rises : (s p).held.stamp ≤ phone.held.stamp) (q : Bool) :
    (s q).held.stamp ≤ (Function.update s p phone q).held.stamp := by
  by_cases here : q = p
  · subst here
    rwa [Function.update_self]
  · rw [Function.update_of_ne here]

theorem Sound.stamp_le_next (sound : Sound fair s) (act : Act) :
    ∀ p, (s p).held.stamp ≤ (Shots.next s act p).held.stamp := by
  cases act with
  | turn p now on =>
    refine stamp_le_update ?_
    have most := (sound.own p).proper.most
    simp only [turn, turnShots, shotsNextStamp]
    omega
  | send p => exact stamp_le_update le_rfl
  | take p now x => exact stamp_le_update (stamp_le_takeShots true)

theorem takeShots_on_of_tie (proper : Proper w) (properHeld : Proper held)
    (inTime : shotsInTime w now) (tie : w.stamp = held.stamp) :
    (takeShots true held now w).on = (held.on || w.on) := by
  have nonneg := proper.nonneg
  obtain ⟨on, stamp⟩ := w
  obtain ⟨onHeld, stampHeld⟩ := held
  cases tie
  rcases nonneg.lt_or_eq with set | unset
  · cases on <;> cases onHeld <;> simp_all [takeShots, tookShots, shotsWins]
  · cases proper.off unset.symm
    cases properHeld.off unset.symm
    simp [takeShots]

def Reached (rule : (Bool → Phone) → Act → Prop) (s : Bool → Phone) : Prop :=
  Run (fun s act s' => s' = next s act) rule start s

instance (s : Bool → Phone) : ∀ act, Decidable (Comes s act)
  | .turn .. => .isTrue trivial
  | .send _ => .isTrue trivial
  | .take p now x => inferInstanceAs (Decidable (x ∈ (s !p).sent ∧ shotsInTime x.2 now))

instance (s : Bool → Phone) : ∀ act, Decidable (Fair s act)
  | .turn p _ _ => inferInstanceAs (Decidable ((s p).held.stamp < kShotsStampMost))
  | .send _ => .isTrue trivial
  | .take p now x => inferInstanceAs (Decidable (x ∈ (s !p).sent ∧ shotsInTime x.2 now))

theorem Fair.comes (isFair : Fair s act) : Comes s act := by
  cases act with
  | turn => trivial
  | send | take => exact isFair

/-- No state gives way to one with a lower stamp, a tie is on where either is, and two phones
that are up to date hold one state where every turn was made below the largest stamp. -/
theorem phones_agree_on_shots :
    (∀ s, Reached Comes s → ∀ p, (∀ act, (s p).held.stamp ≤ (next s act p).held.stamp) ∧
      ∀ now, ∀ x ∈ (s !p).sent, shotsInTime x.2 now → x.2.stamp = (s p).held.stamp →
        (takeShots true (s p).held now x.2).on = ((s p).held.on || x.2.on)) ∧
    ∀ s, Reached Fair s → (∀ p, UpToDate s p) → (s true).held = (s false).held := by
  constructor
  · intro s reached p
    have sound : Sound False s := reached.invariant _ .start fun sound comes taken =>
      taken ▸ sound.next comes False.elim
    refine ⟨fun act => sound.stamp_le_next act p, fun now x inside inTime tie => ?_⟩
    exact takeShots_on_of_tie ((sound.own !p).sent x inside).1 (sound.own p).proper inTime tie
  · intro s reached upToDate
    have sound : Sound True s := reached.invariant _ .start fun sound isFair taken =>
      taken ▸ sound.next isFair.comes fun _ => isFair
    exact ShotsWord.rank_injective (le_antisymm (sound.rank_le (upToDate false))
      (sound.rank_le (upToDate true)))

/-- One phone turns the block on at `now`, and both tell each other. -/
def turnedOn (now : Int) : List Act :=
  [.turn true now true, .send true, .take false now (1, ⟨true, now⟩), .send false,
    .take true now (1, ⟨true, now⟩)]

theorem phones_agree_on_shots_on :
    ((turnedOn 5).foldl next start true).held = ((turnedOn 5).foldl next start false).held :=
  phones_agree_on_shots.2 _ (Run.of_allowed next Fair (by decide))
    fun p => by cases p <;> exact ⟨(1, ⟨true, 5⟩), by decide, by decide⟩

def turnedOff (now : Int) : List Act :=
  turnedOn now ++ [Act.turn true now false, Act.send true, Act.take false now (2, ⟨false, now⟩)]

/-- At the largest stamp the block is turned off with the stamp it was turned on with. -/
theorem phones_apart_at_most :
    ∃ s, Reached Comes s ∧ (∀ p, UpToDate s p) ∧ (s true).held ≠ (s false).held := by
  refine ⟨(turnedOff kShotsStampMost).foldl next start,
    Run.of_allowed (s := start) next Comes (by decide), fun p => ?_, by decide⟩
  cases p with
  | true => exact ⟨(1, ⟨true, kShotsStampMost⟩), by decide, by decide⟩
  | false => exact ⟨(2, ⟨false, kShotsStampMost⟩), by decide, by decide⟩

end Kryfo.Shots
