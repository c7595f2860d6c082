import Mathlib.Algebra.Order.Group.Int
import Mathlib.Algebra.Order.Group.Abs
import Kryfo.Library.Json

/-!
# Where an arrival is placed

A message is placed by when its sender wrote it, as far as this phone can know: by the
sender's stamps, whose clock may be off, and by when it reached the relay.  The wrap's stamp
comes from the engine in whole seconds.
-/

namespace Kryfo.Arrival

open Library

/-- How long relays keep a wrap. -/
def kWrittenBefore : Int := 14 * 24 * 60 * 60 * 1000

/-- When something reached the relay; an earlier bound of 0 says nothing. -/
structure Reached where
  reachFrom : Int
  reachUntil : Int
  deriving DecidableEq, Repr

/-! ## What the engine hands over -/

/-- A batch: its token, and of each entry its lane and text, its place, when it was wrapped by the
sender's clock and when it reached the relay. -/
structure RelayBatch where
  token : List Char := []
  msgs : List (List Char × List Char) := []
  places : List Nat := []
  written : List (Option Int) := []
  reached : List (Option Reached) := []

def wrapStamp : Option Json → Option Int
  | some (.num a) => if 0 < a then some (a * 1000) else none
  | _ => none

def reachedOf (f : Option Json) : Option Json → Option Reached
  | some (.num u) =>
    let reachFrom := match f with
      | some (.num f) => if 0 < f ∧ f ≤ u then f else 0
      | _ => 0
    if 0 < u then some ⟨reachFrom, u⟩ else none
  | _ => none

/-- An entry of `m` and its place there; one of another shape is passed over. -/
def readEntry (e : Json) (i : Nat) :
    Option (Nat × (List Char × List Char) × Option Int × Option Reached) :=
  match e.field ['t'], e.field ['c'] with
  | some (.str t), some (.str c) =>
    some (i, (t, c), wrapStamp (e.field ['a']), reachedOf (e.field ['f']) (e.field ['u']))
  | _, _ => none

def parseRelayPoll (jsonDecode : List Char → Option Json) (raw : List Char) : RelayBatch :=
  match if raw = [] then none else jsonDecode raw with
  | none => {}
  | some all =>
    match all.field ['k'], all.field ['m'] with
    | some (.str token), some (.arr m) =>
      let kept := m.zipIdx.filterMap fun (e, i) => readEntry e i
      { token
        msgs := kept.map (·.2.1)
        places := kept.map (·.1)
        written := kept.map (·.2.2.1)
        reached := kept.map (·.2.2.2) }
    | _, _ => {}

theorem wholeSeconds_of_wrapStamp {a : Option Json} {stamp : Int} (given : wrapStamp a = some stamp) :
    0 < stamp ∧ 1000 ∣ stamp := by
  unfold wrapStamp at given
  split at given
  · simp only [Option.ite_none_right_eq_some, Option.some.injEq] at given
    omega
  · cases given

theorem ordered_of_reachedOf {f u : Option Json} {r : Reached} (given : reachedOf f u = some r) :
    0 ≤ r.reachFrom ∧ r.reachFrom ≤ r.reachUntil := by
  unfold reachedOf at given
  split at given
  · simp only [Option.ite_none_right_eq_some, Option.some.injEq] at given
    obtain ⟨known, rfl⟩ := given
    dsimp only
    split
    · split <;> omega
    · omega
  · cases given

theorem stamps_of_readEntry {e : Json × Nat} {i : Nat} {msg : List Char × List Char}
    {stamp : Option Int} {reached : Option Reached}
    (read : readEntry e.1 e.2 = some (i, msg, stamp, reached)) :
    wrapStamp (e.1.field ['a']) = stamp ∧
      reachedOf (e.1.field ['f']) (e.1.field ['u']) = reached := by
  unfold readEntry at read
  split at read
  · simp only [Option.some.injEq, Prod.mk.injEq] at read
    exact read.2.2
  · cases read

/-- The lists of a batch go together, its wraps are stamped in whole seconds and its bounds are in
order. -/
theorem parseRelayPoll_wellFormed (jsonDecode : List Char → Option Json) (raw : List Char) :
    let b := parseRelayPoll jsonDecode raw
    (∀ n ∈ [b.places.length, b.written.length, b.reached.length], n = b.msgs.length) ∧
      (∀ stamp, some stamp ∈ b.written → 0 < stamp ∧ 1000 ∣ stamp) ∧
      ∀ r, some r ∈ b.reached → 0 ≤ r.reachFrom ∧ r.reachFrom ≤ r.reachUntil := by
  unfold parseRelayPoll
  split
  · simp
  split
  · refine ⟨by simp, fun stamp member => ?_, fun r member => ?_⟩
    all_goals
      obtain ⟨⟨_, _, _, _⟩, kept, rfl⟩ := List.mem_map.mp member
      obtain ⟨e, -, read⟩ := List.mem_filterMap.mp kept
    · exact wholeSeconds_of_wrapStamp (stamps_of_readEntry read).1
    · exact ordered_of_reachedOf (stamps_of_readEntry read).2
  · simp

/-- The stamp of what is wrapped at a moment by a clock that is `ahead`. -/
def wrappedAt (ahead moment : Int) : Option Int := wrapStamp (some (.num ((moment + ahead) / 1000)))

theorem wrappedAt_eq_some_iff {ahead moment stamp : Int} : wrappedAt ahead moment = some stamp ↔
    1000 ≤ moment + ahead ∧ stamp = moment + ahead - (moment + ahead) % 1000 := by
  simp only [wrappedAt, wrapStamp, Option.ite_none_right_eq_some, Option.some.injEq]
  omega

/-! ## The place -/

/-- `num.clamp`, where the lower limit is not past the upper one. -/
def clamp (x lo hi : Int) : Int := max lo (min x hi)

def writtenAtOf (written wrapped : Option Int) (reached : Option Reached) (came : Int)
    (since : Option Int) : Int :=
  let keep := kWrittenBefore
  let last := (reached.map Reached.reachUntil).getD came
  let age := match written, wrapped with
    | some written, some wrapped => clamp (wrapped - written) 0 keep
    | _, _ => 0
  let hi := last - age
  let lo := match reached with
    | some r => if 0 < r.reachFrom then max (last - keep) (r.reachFrom - age) else last - keep
    | none => last - keep
  let lo := min lo hi
  let out := match written.or wrapped with
    | none => hi
    | some w => clamp w lo hi
  match since with
  | none => out
  | some since => max out (min since last)

/-! ## Honest messages -/

/-- A message and when it was written and wrapped, by the clock of this phone. -/
structure Message where
  wrote : Int
  went : Int
  wrote_le : wrote ≤ went
  went_le : went ≤ wrote + kWrittenBefore

namespace Message

def age (m : Message) : Int := m.went - m.wrote

/-- What the whole seconds of the wrap leave out of the age. -/
def lost (ahead : Int) (m : Message) : Int := min m.age ((m.went + ahead) % 1000)

/-- The age the two stamps tell. -/
def told (ahead : Int) (m : Message) : Int := m.age - m.lost ahead

/-- Where it is placed when the clock of its sender is `ahead` of this phone's. -/
def place (ahead : Int) (r : Reached) (came : Int) (m : Message) : Int :=
  writtenAtOf (some (m.wrote + ahead)) (wrappedAt ahead m.went) (some r) came none

end Message

/-- The wrap has its stamp, and both bounds are there and hold the moment the message reached the
relay. -/
structure Reached.Holds (r : Reached) (ahead : Int) (m : Message) : Prop where
  stamped : 1000 ≤ m.went + ahead
  known : 0 < r.reachFrom
  after : r.reachFrom ≤ m.went
  before : m.went ≤ r.reachUntil

variable {ahead came : Int} {r : Reached} {m m₁ m₂ : Message}

theorem place_eq (holds : r.Holds ahead m) : m.place ahead r came =
    max (max (r.reachUntil - kWrittenBefore) (r.reachFrom - m.told ahead))
      (min (m.wrote + ahead) (r.reachUntil - m.told ahead)) := by
  have order := m.wrote_le
  have young := m.went_le
  obtain ⟨stamped, known, after, before⟩ := holds
  have stamp := wrappedAt_eq_some_iff.mpr ⟨stamped, rfl⟩
  have waited : clamp (m.went + ahead - (m.went + ahead) % 1000 - (m.wrote + ahead)) 0
      kWrittenBefore = m.told ahead := by
    simp only [clamp, Message.told, Message.lost, Message.age]
    omega
  have window : max (r.reachUntil - kWrittenBefore) (r.reachFrom - m.told ahead) ≤
      r.reachUntil - m.told ahead := by
    simp only [Message.told, Message.lost, Message.age]
    omega
  simp only [Message.place, writtenAtOf, stamp, waited, if_pos known, Option.map_some,
    Option.getD_some, min_eq_left window]
  rfl

structure WellPlaced (ahead : Int) (r : Reached) (came : Int) (m : Message) : Prop where
  notLater : m.place ahead r came ≤ r.reachUntil
  near : |m.place ahead r came - m.wrote| ≤ r.reachUntil - r.reachFrom
  exact_oneMoment : r.reachFrom = r.reachUntil → m.place ahead r came = m.wrote
  exact_sameClock : ahead = 0 → m.place ahead r came = m.wrote

/-- What the wrap's stamp leaves out does not take a message past its window, nor, where the clocks
agree, past when it was written, and then it was not written longer ago than relays keep a wrap. -/
structure Fits (ahead : Int) (r : Reached) (m : Message) : Prop where
  early : m.lost ahead ≤ r.reachUntil - r.reachFrom + (m.went - r.reachFrom)
  late : ahead ≤ r.reachUntil - r.reachFrom ∨ m.lost ahead ≤ m.went - r.reachFrom
  sameClock : ahead = 0 →
    m.lost ahead ≤ m.went - r.reachFrom ∧ r.reachUntil ≤ m.wrote + kWrittenBefore

theorem wellPlaced_iff (holds : r.Holds ahead m) : WellPlaced ahead r came m ↔ Fits ahead r m := by
  have place := @place_eq ahead came r m holds
  have order := m.wrote_le
  have young := m.went_le
  have lost : 0 ≤ m.lost ahead ∧ m.lost ahead ≤ m.age := by
    simp only [Message.lost, Message.age]
    omega
  obtain ⟨-, known, after, before⟩ := holds
  simp only [Message.told, Message.age] at place lost
  constructor
  · rintro ⟨-, near, -, right⟩
    rw [abs_le] at near
    exact ⟨by omega, by omega, fun same => by have := right same; omega⟩
  · rintro ⟨early, late, same⟩
    refine ⟨by omega, ?_, by omega, by omega⟩
    rw [abs_le]
    omega

/-- Two messages of one sender keep their order exactly when the later one is not told to have
waited longer, or neither is cut off at the other's limits. -/
def Ordered (ahead : Int) (r : Reached) (m₁ m₂ : Message) : Prop :=
  m₂.told ahead ≤ m₁.told ahead ∨ m₁.wrote + ahead ≤ r.reachUntil - m₂.told ahead ∧
    (r.reachFrom - m₁.told ahead ≤ min (m₂.wrote + ahead) (r.reachUntil - m₂.told ahead) ∨
      r.reachFrom - m₁.told ahead ≤ r.reachUntil - kWrittenBefore)

theorem place_le_place_iff (holds₁ : r.Holds ahead m₁) (holds₂ : r.Holds ahead m₂)
    (first : m₁.wrote ≤ m₂.wrote) :
    m₁.place ahead r came ≤ m₂.place ahead r came ↔ Ordered ahead r m₁ m₂ := by
  have told₂ : m₂.told ahead ≤ kWrittenBefore := by
    have := m₂.wrote_le
    have := m₂.went_le
    simp only [Message.told, Message.lost, Message.age]
    omega
  rw [place_eq holds₁, place_eq holds₂, Ordered]
  have wide : r.reachFrom ≤ r.reachUntil := holds₁.after.trans holds₁.before
  omega

/-- Two messages of one sender placed with the same bounds, and when both stand where they
should. -/
theorem placed_iff (holds₁ : r.Holds ahead m₁) (holds₂ : r.Holds ahead m₂)
    (first : m₁.wrote ≤ m₂.wrote) :
    (WellPlaced ahead r came m₁ ∧ WellPlaced ahead r came m₂ ∧
        m₁.place ahead r came ≤ m₂.place ahead r came) ↔
      Fits ahead r m₁ ∧ Fits ahead r m₂ ∧ Ordered ahead r m₁ m₂ := by
  rw [wellPlaced_iff holds₁, wellPlaced_iff holds₂, place_le_place_iff holds₁ holds₂ first]

/-- Written ten seconds into a window of a hundred and gone at once. -/
def prompt : Message := ⟨10000000, 10000000, by decide, by decide⟩

/-- Written ten seconds later, and wrapped again some fifty seconds after that. -/
def retried : Message := ⟨10010000, 10060400, by decide, by decide⟩

def hundredSeconds : Reached := ⟨9990000, 10090000⟩

theorem placed_iff_twoMessages :
    WellPlaced 5000 hundredSeconds 0 prompt ∧ WellPlaced 5000 hundredSeconds 0 retried ∧
      prompt.place 5000 hundredSeconds 0 ≤ retried.place 5000 hundredSeconds 0 :=
  (placed_iff ⟨by decide, by decide, by decide, by decide⟩
    ⟨by decide, by decide, by decide, by decide⟩ (by decide)).mpr
    ⟨⟨by decide, by decide, by decide⟩, ⟨by decide, by decide, by decide⟩,
      .inr ⟨by decide, by decide⟩⟩

/-- The clock of the sender is an hour ahead. -/
theorem hourAhead_outOfOrder :
    hundredSeconds.Holds 3600000 prompt ∧ hundredSeconds.Holds 3600000 retried ∧
      prompt.wrote < retried.wrote ∧
      retried.place 3600000 hundredSeconds 0 < prompt.place 3600000 hundredSeconds 0 :=
  ⟨⟨by decide, by decide, by decide, by decide⟩, ⟨by decide, by decide, by decide, by decide⟩,
    by decide, by decide⟩

end Kryfo.Arrival
