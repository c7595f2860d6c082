import Kryfo.Catchup.Walk
import Kryfo.Library.Newest
import Mathlib.Data.List.GetD

/-!
# What a walk has covered

Whatever the relay's pages bring, the cursor of a walk only passes over tracked events that have
been delivered.  `Above` is that invariant; `turn`, `answered` and so whole walks keep it.
-/

namespace Kryfo.Catchup

open Library List

section Below

theorem below_mem {stamps : List Int} (limit : Nat)
    (nonempty : stamps ≠ []) : below stamps limit ∈ stamps := by
  have positive : 0 < stamps.length := length_pos_of_ne_nil nonempty
  have sortedLength := length_insertionSort (· ≤ ·) stamps
  rw [below, if_neg (by omega)]
  apply (mem_insertionSort (· ≤ ·)).mp
  dsimp only
  split_ifs with full
  · rw [getD_eq_getElem _ _ (by omega)]
    exact getElem_mem _
  · rw [getD_eq_getElem _ _ (by omega)]
    exact getElem_mem _

/-- Fewer than `limit` stamps of a full answer lie above where the walk goes
on. -/
theorem below_countP_lt {stamps : List Int} {limit : Nat}
    (positive : 0 < limit) (full : limit ≤ stamps.length) :
    stamps.countP (fun stamp => below stamps limit < stamp) < limit := by
  have sortedLength := length_insertionSort (· ≤ ·) stamps
  have inside : (stamps.insertionSort (· ≤ ·)).length - limit <
      (stamps.insertionSort (· ≤ ·)).length := by omega
  have value : below stamps limit =
      (stamps.insertionSort (· ≤ ·))[(stamps.insertionSort (· ≤ ·)).length - limit] := by
    rw [below, if_neg (by omega), if_pos ⟨positive, by omega⟩,
      getD_eq_getElem _ _ inside]
  have bound := countP_lt_of_sorted (pairwise_insertionSort (· ≤ ·) stamps) inside
  rw [← value] at bound
  rw [← (perm_insertionSort (· ≤ ·) stamps).countP_eq]
  omega

end Below

section Pages

def InRange (since upto : Int) (ev : Event) : Prop :=
  since ≤ ev.createdAt ∧ ev.createdAt ≤ upto

instance (since upto : Int) (ev : Event) : Decidable (InRange since upto ev) :=
  inferInstanceAs (Decidable (_ ∧ _))

/-- A page that came to its end: the `limit` newest stored events of the window, and live ones. -/
def FullPage (stored : List Event) (since upto : Int) (limit : Nat)
    (evs : List Event) : Prop :=
  ∃ newest live, IsNewest Event.createdAt limit newest
      (stored.filter fun ev => InRange since upto ev) ∧
    (∀ ev ∈ live, InRange since upto ev) ∧
    evs.Perm (newest ++ live)

/-- A page cut short that may hold live events anywhere, once it holds `limit` events. -/
def CutAnywhere (stored : List Event) (since upto : Int) (limit : Nat)
    (evs : List Event) : Prop :=
  ∃ newest came live, IsNewest Event.createdAt limit newest
      (stored.filter fun ev => InRange since upto ev) ∧ IsFront Event.createdAt came newest ∧
    (∀ ev ∈ live, InRange since upto ev) ∧ evs.Perm (came ++ live) ∧
    (evs.length < limit → live = [])

/-- A page cut short.  Of each stored event it would have brought and did not, nothing in it is
older, or `limit` events in it are not. -/
def CutPage (stored : List Event) (since upto : Int) (limit : Nat)
    (evs : List Event) : Prop :=
  ∃ newest came missing live, IsNewest Event.createdAt limit newest
      (stored.filter fun ev => InRange since upto ev) ∧ newest.Perm (came ++ missing) ∧
    (∀ ev ∈ live, InRange since upto ev) ∧ evs.Perm (came ++ live) ∧
    ∀ left ∈ missing, (∀ ev ∈ evs, left.createdAt ≤ ev.createdAt) ∨
      limit ≤ evs.countP fun ev => left.createdAt ≤ ev.createdAt

/-- A page answered from `stored`: complete without an error, cut short with
one. -/
def PageOf (stored : List Event) (since upto : Int) (limit : Nat)
    (page : Page) : Prop :=
  match page.err with
  | none => FullPage stored since upto limit page.events
  | some _ => CutPage stored since upto limit page.events

/-- No second holds more events than a page hands out. -/
def NoCrowd (stored : List Event) (limit : Nat) : Prop :=
  ∀ stamp, stored.countP (fun ev => ev.createdAt = stamp) ≤ limit

variable {stored evs : List Event} {limit : Nat} {since upto : Int}

instance : Decidable (NoCrowd stored limit) :=
  decidable_of_iff (∀ ev ∈ stored, stored.countP (·.createdAt = ev.createdAt) ≤ limit) <| by
    refine ⟨fun all stamp => ?_, fun all ev _ => all ev.createdAt⟩
    by_contra crowded
    obtain ⟨ev, inside, same⟩ := countP_pos_iff.mp (Nat.zero_lt_of_lt (not_le.mp crowded))
    exact crowded (of_decide_eq_true same ▸ all ev inside)

theorem FullPage.older_of_not_mem (full : FullPage stored since upto limit evs) {ev : Event}
    (isStored : ev ∈ stored) (inRange : InRange since upto ev) (leftOut : ev ∉ evs) :
    ∃ newest live, IsNewest Event.createdAt limit newest
        (stored.filter fun ev => InRange since upto ev) ∧
      evs.Perm (newest ++ live) ∧ newest.length = limit ∧ ev ∉ newest ∧
      ∀ sent ∈ newest, ev.createdAt ≤ sent.createdAt := by
  obtain ⟨newest, live, isNewest, -, perm⟩ := full
  have notNewest : ev ∉ newest := fun inNewest =>
    leftOut (perm.mem_iff.mpr (mem_append_left live inNewest))
  obtain ⟨size, older⟩ := isNewest.older_of_not_mem
    (mem_filter.mpr ⟨isStored, by simpa using inRange⟩) notNewest
  exact ⟨newest, live, isNewest, perm, size, notNewest, older⟩

theorem FullPage.mem_of_stuck (full : FullPage stored since upto limit evs)
    (noCrowd : NoCrowd stored limit) {ev : Event} (isStored : ev ∈ stored)
    (inRange : InRange since upto ev) (atTop : ev.createdAt = upto) : ev ∈ evs := by
  by_contra leftOut
  obtain ⟨newest, live, isNewest, perm, size, notNewest, older⟩ :=
    full.older_of_not_mem isStored inRange leftOut
  have stampOf : ∀ sent ∈ newest, sent.createdAt = upto := by
    intro sent sentMem
    have lower := older sent sentMem
    have upper : InRange since upto sent := by
      simpa using (mem_filter.mp (isNewest.1.subset sentMem)).2
    have := upper.2
    omega
  obtain ⟨rest, restPerm, -⟩ := isNewest.1
  have evRest : ev ∈ rest := by
    have evFilter : ev ∈ stored.filter (fun ev => InRange since upto ev) :=
      mem_filter.mpr ⟨isStored, by simpa using inRange⟩
    rcases mem_append.mp (restPerm.mem_iff.mp evFilter) with inNewest | inRest
    · exact (notNewest inNewest).elim
    · exact inRest
  have newestCount : newest.countP (fun ev => ev.createdAt = upto) = limit := by
    rw [← size, countP_eq_length]
    intro sent sentMem
    simpa using stampOf sent sentMem
  have restCount : 0 < rest.countP (fun ev => ev.createdAt = upto) :=
    countP_pos_iff.mpr ⟨ev, evRest, by simpa using atTop⟩
  have filtered := List.Sublist.countP_le (p := fun ev : Event => ev.createdAt = upto)
    (filter_sublist (p := fun ev => InRange since upto ev) (l := stored))
  rw [restPerm.countP_eq, countP_append] at filtered
  have := noCrowd upto
  omega

theorem FullPage.cutPage (full : FullPage stored since upto limit evs) :
    CutPage stored since upto limit evs := by
  obtain ⟨newest, live, isNewest, liveIn, perm⟩ := full
  exact ⟨newest, newest, [], live, isNewest, by simp, liveIn, perm, nofun⟩

theorem CutAnywhere.cutPage (cut : CutAnywhere stored since upto limit evs)
    (short : evs.length < limit) : CutPage stored since upto limit evs := by
  obtain ⟨newest, came, live, isNewest, ⟨missing, parts, older⟩, liveIn, perm, noLive⟩ := cut
  refine ⟨newest, came, missing, live, isNewest, parts, liveIn, perm, fun left leftMem => .inl ?_⟩
  intro ev evMem
  rw [noLive short, append_nil] at perm
  exact older ev (perm.mem_iff.mp evMem) left leftMem

/-- Everything stored in the window above where the walk goes on is in the page. -/
theorem CutPage.mem_of_below (cut : CutPage stored since upto limit evs) (positive : 0 < limit)
    (nonempty : evs ≠ []) {ev : Event} (isStored : ev ∈ stored) (inRange : InRange since upto ev)
    (newer : below (evs.map Event.createdAt) limit < ev.createdAt) : ev ∈ evs := by
  by_contra leftOut
  obtain ⟨newest, came, missing, live, isNewest, parts, -, perm, behind⟩ := cut
  -- `limit` events of the page cannot all be newer than where the walk goes on
  have tooMany : ¬ limit ≤ evs.countP fun sent => ev.createdAt ≤ sent.createdAt := by
    intro many
    have few := below_countP_lt positive
      (le_trans many (countP_le_length.trans (length_map Event.createdAt).ge))
    rw [countP_map] at few
    refine few.not_ge (le_trans many (countP_mono_left fun sent _ notOlder => ?_))
    simp only [Function.comp_apply, decide_eq_true_eq] at notOlder ⊢
    omega
  have stampsNonempty : evs.map Event.createdAt ≠ [] := by simpa using nonempty
  obtain ⟨low, lowMem, lowStamp⟩ := mem_map.mp (below_mem limit stampsNonempty)
  -- a missing event no older than `ev` has nothing older in the page
  have none : ∀ left ∈ missing, left.createdAt < ev.createdAt := by
    intro left leftMem
    by_contra notOlder
    rcases behind left leftMem with allNewer | many
    · have := allNewer low lowMem
      omega
    · refine tooMany (le_trans many (countP_mono_left fun sent _ notOlder => ?_))
      simp only [decide_eq_true_eq] at notOlder ⊢
      omega
  by_cases inNewest : ev ∈ newest
  · rcases mem_append.mp (parts.mem_iff.mp inNewest) with inCame | inMissing
    · exact leftOut (perm.mem_iff.mpr (mem_append_left live inCame))
    · exact absurd (none ev inMissing) (lt_irrefl _)
  · obtain ⟨size, older⟩ := isNewest.older_of_not_mem
      (mem_filter.mpr ⟨isStored, by simpa using inRange⟩) inNewest
    have allCame : missing = [] := eq_nil_iff_forall_not_mem.mpr fun left leftMem =>
      absurd (none left leftMem)
        (older left (parts.mem_iff.mpr (mem_append_right came leftMem))).not_gt
    subst allCame
    apply tooMany
    rw [perm.countP_eq, countP_append, ← size, parts.length_eq, append_nil,
      countP_eq_length.mpr]
    · exact Nat.le_add_right _ _
    · intro sent sentMem
      simpa using older sent (parts.mem_iff.mpr (mem_append_left [] sentMem))

end Pages

section Invariant

/-- Every tracked event stamped above the cursor has been delivered. -/
def Above (tracked got : Event → Prop) (cursor : Int) : Prop :=
  ∀ ev, tracked ev → cursor < ev.createdAt → got ev

/-- Every tracked event of the window has been delivered. -/
def Covered (tracked got : Event → Prop) (since : Int) : Prop :=
  ∀ ev, tracked ev → since ≤ ev.createdAt → got ev

variable {tracked got : Event → Prop} {since : Int} {skip : Mark}

variable {got' : Event → Prop}

theorem Above.mono {cursor cursor' : Int} (above : Above tracked got cursor)
    (grows : ∀ ev, got ev → got' ev) (higher : cursor ≤ cursor') : Above tracked got' cursor' := by
  intro ev isTracked newer
  exact grows ev (above ev isTracked (by omega))

theorem Above.transfer {tracked' : Event → Prop} {cursor : Int} (above : Above tracked got cursor)
    (grows : ∀ ev, got ev → got' ev) (known : ∀ ev, tracked' ev → tracked ev ∨ got' ev) :
    Above tracked' got' cursor := by
  intro ev isTracked newer
  rcases known ev isTracked with old | came
  · exact grows ev (above ev old newer)
  · exact came

theorem Covered.transfer {tracked' : Event → Prop} (covered : Covered tracked got since)
    (grows : ∀ ev, got ev → got' ev) (known : ∀ ev, tracked' ev → tracked ev ∨ got' ev) :
    Covered tracked' got' since := by
  intro ev isTracked inWindow
  rcases known ev isTracked with old | came
  · exact grows ev (covered ev old inWindow)
  · exact came

private theorem above_jump {upto : Int} (above : Above tracked got upto)
    (walked : skip.started = true → Above tracked got skip.cursor) :
    Above tracked got
      (if skip.started ∧ upto ≤ skip.top ∧ skip.cursor < upto then skip.cursor
        else upto) := by
  split_ifs with inside
  · exact walked inside.1
  · exact above

/-- Stopping at the head of the loop leaves a resume point, or nothing at the bottom of the
window. -/
theorem turn_stop {ended : Bool} {upto : Int} {res res' : Result} (above : Above tracked got upto)
    (walked : skip.started = true → Above tracked got skip.cursor)
    (positive : ∀ ev, tracked ev → 0 < ev.createdAt)
    (open_ : res.complete = false)
    (stops : turn since skip ended upto res = .stop res') :
    Above tracked got res'.untilAt ∧ (res'.complete = true → Covered tracked got since) := by
  have jumped := above_jump above walked
  unfold turn at stops
  generalize (if skip.started ∧ upto ≤ skip.top ∧ skip.cursor < upto then skip.cursor
    else upto) = low at jumped stops
  dsimp only at stops
  split_ifs at stops with isEnded atBottom
  · cases stops
    exact ⟨jumped, fun complete => by simp [open_] at complete⟩
  · cases stops
    refine ⟨jumped, fun _ ev isTracked inWindow => jumped ev isTracked ?_⟩
    have := positive ev isTracked
    omega

theorem turn_ask {ended : Bool} {upto pageSince upto' : Int} {above' : Bool}
    {res res' : Result} (above : Above tracked got upto)
    (walked : skip.started = true → Above tracked got skip.cursor)
    (asks : turn since skip ended upto res = .ask pageSince upto' above' res') :
    Above tracked got upto' ∧ pageSince ≤ upto' ∧ since ≤ pageSince ∧
      (above' = false → pageSince = since) ∧ (above' = true → skip.started = true) ∧
      res'.complete = res.complete ∧ res'.untilAt = upto' := by
  have jumped := above_jump above walked
  unfold turn at asks
  generalize (if skip.started ∧ upto ≤ skip.top ∧ skip.cursor < upto then skip.cursor
    else upto) = low at jumped asks
  dsimp only at asks
  split_ifs at asks with isEnded atBottom capped
  · cases asks
    simp only [Bool.and_eq_true, decide_eq_true_eq] at capped
    refine ⟨jumped, by omega, by omega, ?_, fun _ => capped.1.1, rfl, rfl⟩
    intro notAbove
    simp [capped.1.1, capped.1.2] at notAbove
  · cases asks
    refine ⟨jumped, by omega, le_rfl, fun _ => rfl, ?_, rfl, rfl⟩
    intro isAbove
    simp only [Bool.and_eq_true] at isAbove
    exact isAbove.1

variable {limit : Nat} {stored : List Event} {pageSince upto : Int} {page : Page}

private theorem low_ge (limit : Nat) {evs : List Event} (nonempty : evs ≠ [])
    (inRange : ∀ ev ∈ evs, InRange pageSince upto ev) (order : pageSince ≤ upto) :
    pageSince ≤ min (below (evs.map Event.createdAt) limit) upto := by
  have stampsNonempty : evs.map Event.createdAt ≠ [] := by simpa using nonempty
  obtain ⟨low, lowMem, lowStamp⟩ :=
    mem_map.mp (below_mem limit stampsNonempty)
  have := (inRange low lowMem).1
  omega

theorem CutPage.inRange {evs : List Event} (cut : CutPage stored pageSince upto limit evs) :
    ∀ ev ∈ evs, InRange pageSince upto ev := by
  obtain ⟨newest, came, missing, live, isNewest, parts, liveIn, perm, -⟩ := cut
  intro ev member
  rcases mem_append.mp (perm.mem_iff.mp member) with fromStore | fromLive
  · have := isNewest.1.subset (parts.mem_iff.mpr (mem_append_left missing fromStore))
    simpa using (mem_filter.mp this).2
  · exact liveIn ev fromLive

theorem cut_above (positive : 0 < limit) (cut : CutPage stored pageSince upto limit page.events)
    (inStore : ∀ ev, tracked ev → ev ∈ stored)
    (delivered : ∀ ev ∈ page.events, got ev) (order : pageSince ≤ upto)
    (above : Above tracked got upto) (nonempty : page.events ≠ []) :
    Above tracked got (min (below (page.events.map Event.createdAt) limit) upto) := by
  intro ev isTracked newer
  by_cases higher : upto < ev.createdAt
  · exact above ev isTracked higher
  · have lowest := low_ge limit nonempty cut.inRange order
    apply delivered
    exact cut.mem_of_below positive nonempty (inStore ev isTracked)
      ⟨by omega, by omega⟩ (by omega)

theorem full_above (positive : 0 < limit) (noCrowd : NoCrowd stored limit)
    (full : FullPage stored pageSince upto limit page.events)
    (inStore : ∀ ev, tracked ev → ev ∈ stored)
    (delivered : ∀ ev ∈ page.events, got ev) (order : pageSince ≤ upto)
    (above : Above tracked got upto) (nonempty : page.events ≠ []) :
    Above tracked got
      (if min (below (page.events.map Event.createdAt) limit) upto = upto then upto - 1
        else min (below (page.events.map Event.createdAt) limit) upto) := by
  have lowest := low_ge limit nonempty full.cutPage.inRange order
  intro ev isTracked newer
  by_cases higher : upto < ev.createdAt
  · exact above ev isTracked higher
  · apply delivered
    split_ifs at newer with stuck
    · exact full.mem_of_stuck noCrowd (inStore ev isTracked)
        ⟨by omega, by omega⟩ (by omega)
    · exact full.cutPage.mem_of_below positive nonempty (inStore ev isTracked)
        ⟨by omega, by omega⟩ (by omega)

theorem full_empty (positive : 0 < limit) (full : FullPage stored since upto limit page.events)
    (inStore : ∀ ev, tracked ev → ev ∈ stored)
    (above : Above tracked got upto) (empty : page.events = []) :
    Covered tracked got since := by
  intro ev isTracked inWindow
  by_cases higher : upto < ev.createdAt
  · exact above ev isTracked higher
  · exfalso
    obtain ⟨newest, live, isNewest, -, perm⟩ := full
    rw [empty] at perm
    have none : newest = [] :=
      (append_eq_nil_iff.mp (nil_perm.mp perm)).1
    have inRange : InRange since upto ev := ⟨inWindow, by omega⟩
    have inNewest := isNewest.mem_of_short (by rw [none]; exact positive)
      (mem_filter.mpr ⟨inStore ev isTracked, by simpa using inRange⟩)
    rw [none] at inNewest
    exact not_mem_nil inNewest

theorem answered_spec {above' : Bool} {res : Result} (fresh : Nat)
    (positive : 0 < limit) (noCrowd : NoCrowd stored limit)
    (pageOf : PageOf stored pageSince upto limit page)
    (inStore : ∀ ev, tracked ev → ev ∈ stored)
    (delivered : ∀ ev ∈ page.events, got ev) (order : pageSince ≤ upto)
    (above : Above tracked got upto)
    (walked : above' = true → Above tracked got skip.cursor)
    (whole : above' = false → pageSince = since)
    (open_ : res.complete = false) (resumes : res.untilAt = upto) :
    match answered limit skip above' upto res page fresh with
    | .stop res' => Above tracked got res'.untilAt ∧
        (res'.complete = true → Covered tracked got since)
    | .again low res' => Above tracked got low ∧ res'.untilAt = low ∧
        res'.complete = false := by
  unfold answered PageOf at *
  cases failed : page.err with
  | some message =>
    simp only [failed] at pageOf ⊢
    refine ⟨?_, fun complete => by simp [open_] at complete⟩
    split_ifs with brought
    · exact cut_above positive pageOf inStore delivered order above
        (by intro none; simp [none] at brought)
    · exact above
  | none =>
    simp only [failed] at pageOf ⊢
    by_cases empty : page.events.length = 0
    · have noEvents : page.events = [] := eq_nil_of_length_eq_zero empty
      rw [if_pos empty]
      cases above' with
      | true => exact ⟨walked rfl, rfl, open_⟩
      | false =>
        have sameSince := whole rfl
        subst sameSince
        exact ⟨resumes ▸ above, fun _ => full_empty positive pageOf inStore above noEvents⟩
    · rw [if_neg empty]
      exact ⟨full_above positive noCrowd pageOf inStore delivered order above
        (by intro none; simp [none] at empty), rfl, open_⟩

end Invariant

end Kryfo.Catchup
