import Kryfo.Catchup.Coverage

/-!
# The walk gets on

On a store that does not change, every page but the last lowers the rank of the cursor, which
counts the stamps below it, or is the one that steps over the walked part.  So a walk comes to its
end within twice as many pages as there are stamps and two more.
-/

namespace Kryfo.Catchup

open Library List

def stampsIn (stored : List Event) (since oldest : Int) : Finset Int :=
  ((stored.filter fun ev => InRange since oldest ev).map Event.createdAt).toFinset

/-- How many stamps a cursor has at it or below, twice, and one more between stamps. -/
def rank (stamps : Finset Int) (upto : Int) : Nat :=
  2 * (stamps.filter (· ≤ upto)).card + if upto ∈ stamps then 0 else 1

section Rank

variable {stamps : Finset Int} {low high : Int}

theorem rank_le (stamps : Finset Int) (upto : Int) : rank stamps upto ≤ 2 * stamps.card + 1 := by
  have few := Finset.card_filter_le stamps (· ≤ upto)
  unfold rank
  split <;> omega

theorem card_lt_of_mem (isStamp : high ∈ stamps) (lower : low < high) :
    (stamps.filter (· ≤ low)).card < (stamps.filter (· ≤ high)).card := by
  apply Finset.card_lt_card
  refine ⟨?_, ?_⟩
  · intro stamp inside
    rw [Finset.mem_filter] at inside ⊢
    exact ⟨inside.1, by omega⟩
  · intro all
    have inside := all (Finset.mem_filter.mpr ⟨isStamp, le_refl high⟩)
    have := (Finset.mem_filter.mp inside).2
    omega

theorem card_le_of_le (lower : low ≤ high) :
    (stamps.filter (· ≤ low)).card ≤ (stamps.filter (· ≤ high)).card := by
  apply Finset.card_le_card
  intro stamp inside
  rw [Finset.mem_filter] at inside ⊢
  exact ⟨inside.1, by omega⟩

theorem rank_mono (lower : low ≤ high) : rank stamps low ≤ rank stamps high := by
  rcases eq_or_lt_of_le lower with rfl | below
  · exact le_rfl
  · have fewer := @card_le_of_le stamps _ _ lower
    unfold rank
    by_cases isStamp : high ∈ stamps
    · have := card_lt_of_mem isStamp below
      split <;> omega
    · split <;> omega

theorem rank_stamp_lt (isStamp : low ∈ stamps) (below : low < high) :
    rank stamps low < rank stamps high := by
  have fewer := @card_le_of_le stamps _ _ (le_of_lt below)
  unfold rank
  rw [if_pos isStamp]
  by_cases isStamp' : high ∈ stamps
  · have := card_lt_of_mem isStamp' below
    omega
  · rw [if_neg isStamp']
    omega

theorem rank_pred_lt (isStamp : high ∈ stamps) : rank stamps (high - 1) < rank stamps high := by
  have := card_lt_of_mem isStamp (show high - 1 < high by omega)
  unfold rank
  split <;> omega

end Rank

/-! ## One page -/

/-- A store that stays as it is and pages that come to their end, of stored events of their
window. -/
structure Steady {σ : Type*} (stored : List Event) (host : Host σ) : Prop where
  ctx : ∀ s, (host.ctxErr s).1 = false
  ends : ∀ since upto limit s, (host.fetch since upto limit s).1.err = none
  brings : ∀ since upto limit s, ∀ ev ∈ (host.fetch since upto limit s).1.events,
    ev ∈ stored ∧ InRange since upto ev

def Mark.Valid (m : Mark) : Prop := m.started = true → m.cursor ≤ m.top

def Mark.Sound (m : Mark) (oldest : Int) : Prop :=
  m.started = true → m.cursor ≤ m.top ∨ oldest ≤ m.top

theorem Mark.Valid.sound {m : Mark} (valid : m.Valid) (oldest : Int) : m.Sound oldest :=
  fun started => .inl (valid started)

def Mark.above (m : Mark) (upto : Int) : Bool := m.started && decide (m.top < upto)

def Mark.jump (m : Mark) (upto : Int) : Int :=
  if m.started ∧ upto ≤ m.top ∧ m.cursor < upto then m.cursor else upto

theorem Mark.jump_le (m : Mark) (upto : Int) : m.jump upto ≤ upto := by
  unfold jump
  split
  next inside => omega
  next => exact le_rfl

section

variable {σ : Type*} {stored : List Event} {host : Host σ} {since : Int} {limit : Nat} {skip : Mark}
  {upto : Int} {res : Result}

theorem turn_cases (since : Int) (skip : Mark) (upto : Int) (res : Result) :
    (∃ res', turn since skip false upto res = .stop res' ∧ res'.complete = true) ∨
      0 < skip.jump upto ∧ ∃ pageSince, since ≤ pageSince ∧ turn since skip false upto res =
        .ask pageSince (skip.jump upto) (skip.above (skip.jump upto))
          { res with untilAt := skip.jump upto } := by
  have value : turn since skip false upto res =
      if skip.jump upto ≤ 0 ∨ (0 < since ∧ skip.jump upto < since) then
        .stop { res with untilAt := skip.jump upto, complete := true }
      else .ask (if skip.above (skip.jump upto) ∧ since < skip.top then skip.top else since)
        (skip.jump upto) (skip.above (skip.jump upto)) { res with untilAt := skip.jump upto } := rfl
  rw [value]
  split
  next => exact .inl ⟨_, rfl, rfl⟩
  next goesOn =>
    refine .inr ⟨by omega, _, ?_, rfl⟩
    split
    next higher => omega
    next => exact le_rfl

theorem answered_lower (limit : Nat) (skip : Mark) (above : Bool) (upto : Int) (res : Result)
    {page : Page} (fresh : Nat) (noErr : page.err = none) (brings : page.events ≠ []) :
    ∃ low res', answered limit skip above upto res page fresh = .again low res' ∧
      res'.untilAt = low ∧ low < upto ∧
      (low ∈ page.events.map Event.createdAt ∨
        low = upto - 1 ∧ upto ≤ below (page.events.map Event.createdAt) limit) := by
  have nonempty : ¬page.events.length = 0 := fun none' => brings (eq_nil_of_length_eq_zero none')
  have isStamp := below_mem limit (fun none' : page.events.map Event.createdAt = [] =>
    brings (map_eq_nil_iff.mp none'))
  unfold answered
  rw [noErr]
  dsimp only
  rw [if_neg nonempty]
  refine ⟨_, _, rfl, rfl, ?_, ?_⟩
  · split <;> omega
  · by_cases stuck : min (below (page.events.map Event.createdAt) limit) upto = upto
    · rw [if_pos stuck]
      exact .inr ⟨rfl, by omega⟩
    · rw [if_neg stuck]
      have low : min (below (page.events.map Event.createdAt) limit) upto =
          below (page.events.map Event.createdAt) limit := by omega
      rw [low]
      exact .inl isStamp

/-- The rank of the cursor, and one more above the walked part. -/
def phase (stamps : Finset Int) (skip : Mark) (upto : Int) : Nat :=
  rank stamps upto + (skip.above upto).toNat

theorem Mark.above_mono {low high : Int} (lower : low ≤ high) :
    (skip.above low).toNat ≤ (skip.above high).toNat := by
  unfold above
  cases skip.started with
  | false => exact le_rfl
  | true =>
    by_cases higher : skip.top < high
    · simp only [decide_eq_true higher]
      exact Bool.toNat_le _
    · have lower' : ¬skip.top < low := by omega
      simp only [decide_eq_false higher, decide_eq_false lower']
      exact le_rfl

theorem phase_mono {stamps : Finset Int} {low high : Int} (lower : low ≤ high) :
    phase stamps skip low ≤ phase stamps skip high :=
  Nat.add_le_add (rank_mono lower) (Mark.above_mono lower)

theorem answered_cases (steady : Steady stored host) {oldest pageSince : Int}
    (sound : skip.Sound oldest) (least : since ≤ pageSince) (most : upto ≤ oldest) (res : Result)
    (s : σ) (fresh : Nat) :
    (∃ res', answered limit skip (skip.above upto) upto res
        (host.fetch pageSince upto limit s).1 fresh = .stop res' ∧ res'.complete = true) ∨
      ∃ low res', answered limit skip (skip.above upto) upto res
          (host.fetch pageSince upto limit s).1 fresh = .again low res' ∧ res'.untilAt = low ∧
        low < upto ∧ phase (stampsIn stored since oldest) skip low <
          phase (stampsIn stored since oldest) skip upto := by
  have noErr := steady.ends pageSince upto limit s
  have brings := steady.brings pageSince upto limit s
  generalize (host.fetch pageSince upto limit s).1 = page at noErr brings
  have isStamp : ∀ stamp ∈ page.events.map Event.createdAt, stamp ∈ stampsIn stored since oldest := by
    intro stamp inside
    obtain ⟨ev, inPage, rfl⟩ := mem_map.mp inside
    obtain ⟨isStored, inRange⟩ := brings ev inPage
    refine mem_toFinset.mpr (mem_map.mpr ⟨ev, mem_filter.mpr ⟨isStored, ?_⟩, rfl⟩)
    exact decide_eq_true ⟨by have := inRange.1; omega, by have := inRange.2; omega⟩
  by_cases nothing : page.events = []
  · unfold answered
    rw [noErr, nothing]
    dsimp only
    by_cases above : skip.above upto = true
    · rw [if_pos above]
      obtain ⟨started, higher⟩ := Bool.and_eq_true_iff.mp above
      have higher' : skip.top < upto := of_decide_eq_true higher
      have lower : skip.cursor ≤ skip.top := (sound started).resolve_right (by omega)
      refine .inr ⟨_, _, rfl, rfl, by omega, ?_⟩
      have notAbove : skip.above skip.cursor = false := by
        rw [Mark.above, decide_eq_false (by omega), Bool.and_false]
      have ranks := @rank_mono (stampsIn stored since oldest) _ _ (show skip.cursor ≤ upto by omega)
      rw [phase, phase, notAbove, above, Bool.toNat_false, Bool.toNat_true]
      omega
    · rw [if_neg above]
      exact .inl ⟨_, rfl, rfl⟩
  · obtain ⟨low, res', next, isUntil, lower, how⟩ :=
      answered_lower limit skip (skip.above upto) upto res fresh noErr nothing
    refine .inr ⟨low, res', next, isUntil, lower, ?_⟩
    refine Nat.add_lt_add_of_lt_of_le ?_ (Mark.above_mono (le_of_lt lower))
    rcases how with inPage | ⟨rfl, stuck⟩
    · exact rank_stamp_lt (isStamp low inPage) lower
    · apply rank_pred_lt
      have inPage := below_mem limit (fun none' : page.events.map Event.createdAt = [] =>
        nothing (map_eq_nil_iff.mp none'))
      obtain ⟨ev, inEvents, stamp⟩ := mem_map.mp inPage
      have := (brings ev inEvents).2.2
      have atTop : below (page.events.map Event.createdAt) limit = upto := by omega
      exact isStamp upto (atTop ▸ inPage)

/-! ## A walk -/

def walkAsks (host : Host σ) (since : Int) (limit : Nat) (skip : Mark) :
    Nat → Int → Result → σ → List Int
  | 0, _, _, _ => []
  | left + 1, upto, res, s =>
    let ctx := host.ctxErr s
    match turn since skip ctx.1 upto res with
    | .stop _ => []
    | .ask pageSince upto above res =>
      let page := host.fetch pageSince upto limit ctx.2
      let fresh := host.deliverAll page.1.events page.2
      upto ::
        match answered limit skip above upto res page.1 fresh.1 with
        | .stop _ => []
        | .again upto res => walkAsks host since limit skip left upto res fresh.2

/-- A walk that does not come to its end leaves its cursor below all pages it asked for, and its
phase lower by as much as there were pages. -/
structure Descends (stamps : Finset Int) (skip : Mark) (asks : List Int) (left : Nat) (upto : Int)
    (r : Result) : Prop where
  lower : r.untilAt ≤ upto
  asked : ∀ u ∈ asks, r.untilAt < u
  phase : phase stamps skip r.untilAt + left ≤ phase stamps skip upto

theorem walkLoop_descends (steady : Steady stored host) {oldest : Int} (sound : skip.Sound oldest)
    (left : Nat) (most : upto ≤ oldest) (isUntil : left = 0 → res.untilAt = upto) (s : σ) :
    (walkLoop host since limit skip left upto res s).1.complete = true ∨
      Descends (stampsIn stored since oldest) skip (walkAsks host since limit skip left upto res s) left
        (if left = 0 then upto else skip.jump upto)
        (walkLoop host since limit skip left upto res s).1 ∧ (left ≠ 0 → 0 < skip.jump upto) := by
  induction left generalizing upto res s with
  | zero =>
    refine .inr ⟨⟨?_, nofun, ?_⟩, fun some' => absurd rfl some'⟩
    · exact le_of_eq (isUntil rfl)
    · rw [walkLoop, isUntil rfl]
      exact le_rfl
  | succ left ih =>
    rw [if_neg (Nat.succ_ne_zero left), walkLoop, walkAsks]
    rw [steady.ctx s]
    have lower := skip.jump_le upto
    rcases turn_cases since skip upto res with ⟨res', stops, complete⟩ | ⟨positive, pageSince, least, asks⟩
    · rw [stops]
      exact .inl complete
    · rw [asks]
      dsimp only
      generalize (host.ctxErr s).2 = s'
      rcases @answered_cases _ _ _ since limit _ _ steady _ _ sound least (le_trans lower most)
          { res with untilAt := skip.jump upto } s' (host.deliverAll
            (host.fetch pageSince (skip.jump upto) limit s').1.events
            (host.fetch pageSince (skip.jump upto) limit s').2).1 with
        ⟨res', stops, complete⟩ | ⟨low, res', next, isLow, below, drops⟩
      · rw [stops]
        exact .inl complete
      · rw [next]
        dsimp only
        rcases ih (le_trans (le_of_lt below) (le_trans lower most)) (fun _ => isLow) _ with
          complete | ⟨descends, -⟩
        · exact .inl complete
        · have entry : (if left = 0 then low else skip.jump low) ≤ low := by
            split
            · exact le_rfl
            · exact skip.jump_le low
          have phases := @phase_mono skip (stampsIn stored since oldest) _ _ entry
          have after := descends.lower
          refine .inr ⟨⟨by omega, ?_, ?_⟩, fun _ => positive⟩
          · intro u inside
            rcases mem_cons.mp inside with rfl | later
            · omega
            · exact descends.asked u later
          · have := descends.phase
            omega

def pagesEnough (stored : List Event) (since oldest : Int) : Nat :=
  2 * (stampsIn stored since oldest).card + 2

theorem phase_le (stored : List Event) (since oldest : Int) (skip : Mark) (upto : Int) :
    phase (stampsIn stored since oldest) skip upto ≤ pagesEnough stored since oldest := by
  have ranks := rank_le (stampsIn stored since oldest) upto
  have one := Bool.toNat_le (skip.above upto)
  unfold phase pagesEnough
  omega

theorem walk_complete (steady : Steady stored host) (valid : skip.Valid) {oldest : Int} {maxPages : Nat}
    (enough : pagesEnough stored since oldest < maxPages) (s : σ) :
    (walk host since oldest limit maxPages skip s).1.complete = true := by
  rcases @walkLoop_descends _ _ _ since limit _ _ {} steady oldest (valid.sound oldest) maxPages
      (le_refl oldest) (by omega) s with complete | ⟨descends, -⟩
  · exact complete
  · have drops := descends.phase
    have most := phase_le stored since oldest skip (if maxPages = 0 then oldest else skip.jump oldest)
    omega

/-! ## Walks that carry on -/

/-- The mark before each of some calls, each handed the mark of the one before. -/
def marksAt (host : Host σ) (since oldest : Int) (limit maxPages : Nat) (m : Mark) (at' : Nat → σ) :
    Nat → Mark
  | 0 => m
  | n + 1 =>
    (continueFrom host since oldest limit maxPages
      (marksAt host since oldest limit maxPages m at' n) (at' n)).2.1

theorem marksAt_succ (maxPages : Nat) (oldest : Int) (m : Mark) (at' : Nat → σ) (n : Nat) :
    marksAt host since oldest limit maxPages m at' (n + 1) =
      marksAt host since oldest limit maxPages
        (continueFrom host since oldest limit maxPages m (at' 0)).2.1 (fun k => at' (k + 1)) n := by
  induction n with
  | zero => rfl
  | succ n ih =>
    rw [marksAt, ih]
    rfl

/-- A call that does not come to its end: the mark it returns, and how far it got. -/
theorem call_descends (steady : Steady stored host) {oldest : Int} (sound : skip.Sound oldest)
    {maxPages : Nat} (positive : 0 < maxPages) (s : σ) :
    (continueFrom host since oldest limit maxPages skip s).1.complete = true ∨
      ∃ low, (continueFrom host since oldest limit maxPages skip s).2.1 =
          { top := max oldest skip.top, cursor := low } ∧ low < oldest ∧
        phase (stampsIn stored since oldest) skip low <
          phase (stampsIn stored since oldest) skip (skip.jump oldest) := by
  rcases @walkLoop_descends _ _ _ since limit _ _ {} steady oldest sound maxPages (le_refl oldest)
      (by omega) s with complete | ⟨descends, -⟩
  · exact .inl complete
  · by_cases complete : (continueFrom host since oldest limit maxPages skip s).1.complete = true
    · exact .inl complete
    · have some' : maxPages ≠ 0 := by omega
      rw [if_neg some'] at descends
      have drops := descends.phase
      have lower := skip.jump_le oldest
      refine .inr ⟨(walk host since oldest limit maxPages skip s).1.untilAt, ?_, ?_, ?_⟩
      · exact if_neg complete
      · by_contra high
        have := @phase_mono skip (stampsIn stored since oldest) (skip.jump oldest)
          (walk host since oldest limit maxPages skip s).1.untilAt (by omega)
        unfold walk at this
        omega
      · unfold walk
        omega

theorem calls_complete (steady : Steady stored host) {oldest : Int} {maxPages : Nat}
    (positive : 0 < maxPages) (k : Nat) {m : Mark} (started : 0 < m.top) (reaches : oldest ≤ m.top)
    (lower : m.cursor < oldest) (few : rank (stampsIn stored since oldest) m.cursor ≤ k)
    (at' : Nat → σ) :
    ∃ n ≤ k, (continueFrom host since oldest limit maxPages
      (marksAt host since oldest limit maxPages m at' n) (at' n)).1.complete = true := by
  rcases @call_descends _ _ _ since limit _ steady oldest (fun _ => .inr reaches) maxPages positive
      (at' 0) with complete | ⟨low, isMark, low', drops⟩
  · exact ⟨0, Nat.zero_le _, complete⟩
  have jump : m.jump oldest = m.cursor := if_pos ⟨decide_eq_true started, reaches, lower⟩
  have notAbove : m.above m.cursor = false := by
    rw [Mark.above, decide_eq_false (by omega), Bool.and_false]
  rw [jump, phase, phase, notAbove, Bool.toNat_false] at drops
  cases k with
  | zero => omega
  | succ k =>
    obtain ⟨n, most, complete⟩ := @calls_complete steady _ _ positive k
      { top := max oldest m.top, cursor := low } (show 0 < max oldest m.top by omega)
      (le_max_left _ _) low' (show _ ≤ k by dsimp only; omega) (fun k => at' (k + 1))
    refine ⟨n + 1, by omega, ?_⟩
    rw [marksAt_succ, isMark]
    exact complete

/-- A call that does not come to its end leaves a mark that reaches up to where it began. -/
theorem call_reaches (steady : Steady stored host) (m : Mark) {oldest : Int} {maxPages : Nat}
    (positive : 0 < maxPages) (s : σ) :
    (continueFrom host since oldest limit maxPages m s).1.complete = true ∨
      0 < (continueFrom host since oldest limit maxPages m s).2.1.top ∧
        oldest ≤ (continueFrom host since oldest limit maxPages m s).2.1.top := by
  by_cases complete : (walk host since oldest limit maxPages m s).1.complete = true
  · exact .inl complete
  · have isMark : (continueFrom host since oldest limit maxPages m s).2.1 =
        { top := max oldest m.top, cursor := _ } := if_neg complete
    rw [isMark]
    refine .inr ⟨?_, le_max_left _ _⟩
    have lower := m.jump_le oldest
    rcases turn_cases since m oldest {} with ⟨res', stops, isEnd⟩ | ⟨onward, -⟩
    · obtain ⟨left, rfl⟩ := Nat.exists_eq_succ_of_ne_zero (ne_of_gt positive)
      rw [walk, walkLoop] at complete
      rw [steady.ctx s, stops] at complete
      exact absurd isEnd complete
    · show 0 < max oldest m.top
      omega

theorem thread_complete (steady : Steady stored host) (m : Mark) {oldest : Int} {maxPages : Nat}
    (positive : 0 < maxPages) (at' : Nat → σ) :
    ∃ n ≤ pagesEnough stored since oldest + 1, (continueFrom host since oldest limit maxPages
      (marksAt host since oldest limit maxPages m at' n) (at' n)).1.complete = true := by
  rcases @call_reaches _ _ _ since limit steady m oldest maxPages positive (at' 0) with
    complete | ⟨started, reaches⟩
  · exact ⟨0, Nat.zero_le _, complete⟩
  · have second := @marksAt_succ _ host since limit maxPages oldest m at'
    generalize (continueFrom host since oldest limit maxPages m (at' 0)).2.1 = m' at started reaches second
    rcases @call_descends _ _ _ since limit _ steady oldest (fun _ => .inr reaches) maxPages positive
        (at' 1) with complete | ⟨low, isMark, lower, -⟩
    · exact ⟨1, Nat.le_add_left 1 _, by rw [second 0]; exact complete⟩
    · obtain ⟨n, most, complete⟩ := @calls_complete _ _ _ since limit steady oldest maxPages positive
        (2 * (stampsIn stored since oldest).card + 1) { top := max oldest m'.top, cursor := low }
        (show 0 < max oldest m'.top by omega) (le_max_left _ _) lower (rank_le _ _)
        (fun k => at' (k + 2))
      refine ⟨n + 2, by unfold pagesEnough; omega, ?_⟩
      rw [second (n + 1), marksAt_succ, isMark]
      exact complete

/-- On a store that does not change: a page that brings events moves the cursor down, a walk comes
to its end within a number of pages linear in the stamps of the window, calls that carry on from
each other's marks come to it, and one that asks for a page below its mark leaves a lower one. -/
theorem walk_gets_on (steady : Steady stored host) (since oldest : Int) (limit : Nat) :
    (∀ skip above upto res page fresh, page.err = none → page.events ≠ [] →
        ∃ low res', answered limit skip above upto res page fresh = .again low res' ∧ low < upto) ∧
      (∀ skip maxPages s, Mark.Valid skip → pagesEnough stored since oldest < maxPages →
        (walk host since oldest limit maxPages skip s).1.complete = true) ∧
      (∀ m maxPages at', 1 ≤ maxPages →
        ∃ n ≤ pagesEnough stored since oldest + 1, (continueFrom host since oldest limit maxPages
          (marksAt host since oldest limit maxPages m at' n) (at' n)).1.complete = true) ∧
      ∀ m maxPages s, Mark.Valid m →
        (continueFrom host since oldest limit maxPages m s).1.complete = false →
        (∃ u ∈ walkAsks host since limit m maxPages oldest {} s, u ≤ m.cursor) →
          (continueFrom host since oldest limit maxPages m s).2.1.cursor < m.cursor := by
  refine ⟨?_, ?_, ?_, ?_⟩
  · intro skip above upto res page fresh noErr brings
    obtain ⟨low, res', next, -, lower, -⟩ := answered_lower limit skip above upto res fresh noErr brings
    exact ⟨low, res', next, lower⟩
  · intro skip maxPages s valid enough
    exact walk_complete steady valid enough s
  · intro m maxPages at' positive
    exact thread_complete steady m positive at'
  · rintro m maxPages s valid incomplete ⟨u, asked, below⟩
    have some' : maxPages ≠ 0 := by
      rintro rfl
      cases asked
    rcases @walkLoop_descends _ _ _ since limit _ _ {} steady oldest (valid.sound oldest) maxPages
        (le_refl oldest) (fun none' => absurd none' some') s with complete | ⟨descends, -⟩
    · exact absurd (incomplete.symm.trans complete) Bool.false_ne_true
    · have lower := descends.asked u asked
      have cursor : (continueFrom host since oldest limit maxPages m s).2.1.cursor =
          (walkLoop host since limit m maxPages oldest {} s).1.untilAt := by
        have notYet : ¬(walk host since oldest limit maxPages m s).1.complete = true := fun complete =>
          Bool.false_ne_true (incomplete.symm.trans complete)
        show (markAfter oldest m _).cursor = _
        rw [markAfter, if_neg notYet]
        rfl
      omega

end

/-! ## A store of its own -/

/-- A relay that hands over the newest of what it stores, and a phone that has none of it. -/
def storeHost (stored : List Event) : Host Unit where
  ctxErr s := (false, s)
  fetch since upto limit s :=
    (⟨(newestFirst Event.createdAt (stored.filter fun ev => InRange since upto ev)).take limit, none⟩, s)
  deliver _ s := (true, s)

theorem steady_storeHost (stored : List Event) : Steady stored (storeHost stored) := by
  refine ⟨fun _ => rfl, fun _ _ _ _ => rfl, ?_⟩
  intro since upto limit s ev inside
  have listed := (newestFirst_perm _ _).mem_iff.mp (mem_of_mem_take inside)
  obtain ⟨isStored, inRange⟩ := mem_filter.mp listed
  exact ⟨isStored, of_decide_eq_true inRange⟩

/-- Two stamps, pages of one event, and a walk that comes to its end. -/
theorem walk_gets_on_two :
    pagesEnough [⟨0, 3⟩, ⟨1, 5⟩] 1 5 = 6 ∧
      (walk (storeHost [⟨0, 3⟩, ⟨1, 5⟩]) 1 5 1 7 {} ()).1.complete = true := by
  have enough : pagesEnough [⟨0, 3⟩, ⟨1, 5⟩] 1 5 = 6 := by decide
  refine ⟨enough, (walk_gets_on (steady_storeHost _) 1 5 1).2.1 {} 7 () nofun ?_⟩
  rw [enough]
  decide

/-- A mark whose cursor is above its top sends every empty page back up. -/
theorem walk_stays_above :
    (stampsIn [] 0 10).card = 0 ∧
      ∀ maxPages, (walk (storeHost []) 0 10 1 maxPages ⟨5, 100⟩ ()).1.complete = false := by
  refine ⟨by decide, ?_⟩
  have stays : ∀ left upto res, 5 < upto → res.complete = false →
      (walkLoop (storeHost []) 0 1 ⟨5, 100⟩ left upto res ()).1.complete = false := by
    intro left
    induction left with
    | zero => exact fun upto res _ incomplete => incomplete
    | succ left ih =>
      intro upto res high incomplete
      have asks : turn 0 ⟨5, 100⟩ false upto res =
          .ask 5 upto true { res with untilAt := upto } := by
        have noJump : ¬((⟨5, 100⟩ : Mark).started = true ∧ upto ≤ 5 ∧ 100 < upto) := by omega
        have isAbove : decide ((5 : Int) < upto) = true := decide_eq_true high
        unfold turn
        rw [if_neg noJump, if_neg Bool.false_ne_true, if_neg (by omega), isAbove]
        rfl
      rw [walkLoop]
      dsimp only [storeHost]
      rw [asks]
      exact ih 100 _ (by decide) incomplete
  exact fun maxPages => stays maxPages 10 {} (by decide) rfl

end Kryfo.Catchup
