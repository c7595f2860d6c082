import Kryfo.Catchup.Coverage

/-!
# Walks over several check-ins

A backlog is walked in pieces: each call of `continueFrom` is handed the mark the one before it
returned.  Between two pages the store may gain events and the phone keeps what it has.
-/

namespace Kryfo.Catchup

/-- A relay asked for pages of `limit` events, and the phone that asks. -/
structure RelayHost (σ : Type*) (limit : Nat) extends Host σ where
  stored : σ → List Event
  got : σ → Event → Prop
  positive : ∀ s, ∀ ev ∈ stored s, 0 < ev.createdAt
  noCrowd : ∀ s, NoCrowd (stored s) limit
  ctxErr_stored : ∀ s, stored s ⊆ stored (ctxErr s).2
  ctxErr_got : ∀ s ev, got s ev → got (ctxErr s).2 ev
  deliver_stored : ∀ ev s, stored s ⊆ stored (deliver ev s).2
  deliver_got : ∀ ev s other, other = ev ∨ got s other → got (deliver ev s).2 other
  fetch_got : ∀ since upto s ev, got s ev → got (fetch since upto limit s).2 ev
  fetch_page : ∀ since upto s, ∃ held : List Event,
    stored s ⊆ held ∧ held ⊆ stored (fetch since upto limit s).2 ∧ NoCrowd held limit ∧
      PageOf held since upto limit (fetch since upto limit s).1

namespace RelayHost

variable {σ : Type*} {limit : Nat} (host : RelayHost σ limit)

/-- Time passes: the store and what the phone has only grow. -/
def Later (s s' : σ) : Prop :=
  host.stored s ⊆ host.stored s' ∧ ∀ ev, host.got s ev → host.got s' ev

theorem Later.refl (s : σ) : host.Later s s :=
  ⟨.refl _, fun _ => id⟩

variable {host}

theorem Later.trans {s s' s'' : σ} (first : host.Later s s') (second : host.Later s' s'') :
    host.Later s s'' :=
  ⟨List.Subset.trans first.1 second.1, fun ev has => second.2 ev (first.2 ev has)⟩

variable (host)

theorem ctxErr_later (s : σ) : host.Later s (host.ctxErr s).2 :=
  ⟨host.ctxErr_stored s, host.ctxErr_got s⟩

theorem fetch_later (since upto : Int) (s : σ) :
    host.Later s (host.fetch since upto limit s).2 := by
  obtain ⟨held, before, after, -, -⟩ := host.fetch_page since upto s
  exact ⟨List.Subset.trans before after, host.fetch_got since upto s⟩

theorem deliverAll_spec (evs : List Event) (s : σ) :
    host.Later s (host.deliverAll evs s).2 ∧ ∀ ev ∈ evs, host.got (host.deliverAll evs s).2 ev := by
  induction evs generalizing s with
  | nil => exact ⟨Later.refl host s, by simp⟩
  | cons head evs ih =>
    have one : host.Later s (host.deliver head s).2 :=
      ⟨host.deliver_stored head s, fun ev has => host.deliver_got head s ev (.inr has)⟩
    obtain ⟨rest, all⟩ := ih (host.deliver head s).2
    refine ⟨one.trans rest, ?_⟩
    intro ev member
    rcases List.mem_cons.mp member with same | inRest
    · exact rest.2 ev (host.deliver_got head s ev (.inl same))
    · exact all ev inRest

variable {tracked : Event → Prop} (since : Int)

theorem walkLoop_spec (limitPos : 0 < limit) (skip : Mark) (left : Nat) {upto : Int}
    {res r : Result} {s end_ : σ}
    (inStore : ∀ ev, tracked ev → ev ∈ host.stored s)
    (above : Above tracked (host.got s) upto)
    (walked : skip.started = true → Above tracked (host.got s) skip.cursor)
    (open_ : res.complete = false) (resumes : left = 0 → res.untilAt = upto)
    (looped : walkLoop host.toHost since limit skip left upto res s = (r, end_)) :
    host.Later s end_ ∧ Above tracked (host.got end_) r.untilAt ∧
      (r.complete = true → Covered tracked (host.got end_) since) := by
  induction left generalizing upto res s with
  | zero =>
    obtain ⟨rfl, rfl⟩ := Prod.mk.inj looped
    exact ⟨Later.refl host _, by rwa [resumes rfl], by simp [open_]⟩
  | succ left ih =>
    rw [walkLoop] at looped
    have later₁ := host.ctxErr_later s
    generalize host.ctxErr s = ctx at later₁ looped
    have above₁ := above.mono later₁.2 (le_refl upto)
    have walked₁ : skip.started = true → Above tracked (host.got ctx.2) skip.cursor :=
      fun started => (walked started).mono later₁.2 (le_rfl)
    cases decided : turn since skip ctx.1 upto res with
    | stop res' =>
      simp only [decided] at looped
      obtain ⟨rfl, rfl⟩ := Prod.mk.inj looped
      have positive : ∀ ev, tracked ev → 0 < ev.createdAt := fun ev isTracked =>
        host.positive s ev (inStore ev isTracked)
      exact ⟨later₁, turn_stop above₁ walked₁ positive open_ decided⟩
    | ask pageSince upto' above' res' =>
      simp only [decided] at looped
      obtain ⟨askAbove, order, -, whole, started, sameComplete, sameUntil⟩ :=
        turn_ask above₁ walked₁ decided
      obtain ⟨held, before, after, heldFew, pageOf⟩ :=
        host.fetch_page pageSince upto' ctx.2
      have later₂ := host.fetch_later pageSince upto' ctx.2
      generalize host.fetch pageSince upto' limit ctx.2 = page at pageOf later₂ looped
      obtain ⟨later₃, delivered⟩ := host.deliverAll_spec page.1.events page.2
      generalize host.deliverAll page.1.events page.2 = fresh at later₃ delivered looped
      have later₂₃ : host.Later ctx.2 fresh.2 := later₂.trans later₃
      have later₀₃ := later₁.trans later₂₃
      have onward := answered_spec fresh.1 limitPos heldFew pageOf
        (fun ev isTracked => before (later₁.1 (inStore ev isTracked))) delivered order
        (askAbove.mono later₂₃.2 (le_rfl))
        (fun isAbove => (walked₁ (started isAbove)).mono later₂₃.2 (le_refl skip.cursor))
        whole (sameComplete.trans open_) sameUntil
      cases next : answered limit skip above' upto' res' page.1 fresh.1 with
      | stop res'' =>
        simp only [next] at onward looped
        obtain ⟨rfl, rfl⟩ := Prod.mk.inj looped
        exact ⟨later₀₃, onward⟩
      | again low res'' =>
        simp only [next] at onward looped
        obtain ⟨laterRest, restSpec⟩ := ih
          (fun ev isTracked => later₀₃.1 (inStore ev isTracked)) onward.1
          (fun isStarted => (walked₁ isStarted).mono later₂₃.2 (le_rfl))
          onward.2.2 (fun _ => onward.2.1) looped
        exact ⟨later₀₃.trans laterRest, restSpec⟩

/-- `Checkins first m s`: calls begun at `first`, each handed the mark of the one before, have led
to `s` and left `m`.  Each is allowed a page at least, as the engine's is (`catchupMaxPages`). -/
inductive Checkins (first : σ) : Mark → σ → Prop
  | start : Checkins first {} first
  | call {m : Mark} {s s' : σ} (oldest : Int) (maxPages : Nat)
      (before : Checkins first m s) (later : host.Later s s')
      (above : ∀ ev ∈ host.stored s', oldest < ev.createdAt → host.got s' ev)
      (pages : 0 < maxPages) :
      Checkins first
        (continueFrom host.toHost since oldest limit maxPages m s').2.1
        (continueFrom host.toHost since oldest limit maxPages m s').2.2

theorem continueFrom_spec (limitPos : 0 < limit) {m m' : Mark} {s s' : σ} {oldest : Int}
    {maxPages : Nat} {r : Result} (pages : 0 < maxPages)
    (inStore : ∀ ev, tracked ev → ev ∈ host.stored s)
    (above : Above tracked (host.got s) oldest)
    (walked : m.started = true → Above tracked (host.got s) m.cursor)
    (called : continueFrom host.toHost since oldest limit maxPages m s = (r, m', s')) :
    host.Later s s' ∧ (r.complete = true → m' = {} ∧ Covered tracked (host.got s') since) ∧
      (r.complete = false → Above tracked (host.got s') m'.cursor) := by
  simp only [continueFrom, walk, Prod.mk.injEq] at called
  obtain ⟨result, rfl, after⟩ := called
  obtain ⟨later, resume, covered⟩ := host.walkLoop_spec since limitPos m maxPages inStore above
    walked (rfl : ({} : Result).complete = false) (by omega) (Prod.ext result after)
  rw [result]
  refine ⟨later, fun complete => ⟨by rw [markAfter, if_pos complete], covered complete⟩, ?_⟩
  intro short
  rw [markAfter, if_neg (by simp [short])]
  exact resume

/-- What the relay held before the first of some calls, stamped inside the window. -/
def HeldBefore (first : σ) (ev : Event) : Prop :=
  ev ∈ host.stored first ∧ since ≤ ev.createdAt

theorem Checkins.sound (limitPos : 0 < limit) {first s : σ} {m : Mark}
    (run : host.Checkins since first m s) :
    host.Later first s ∧
      (m.started = true → Above (host.HeldBefore since first) (host.got s) m.cursor) := by
  induction run with
  | start => exact ⟨Later.refl host first, by simp [Mark.started]⟩
  | @call m s s' oldest maxPages before later above pages ih =>
    obtain ⟨laterFirst, sound⟩ := ih
    have laterBoth := laterFirst.trans later
    obtain ⟨laterCall, finished, resume⟩ := host.continueFrom_spec since limitPos pages
      (fun ev (isTracked : host.HeldBefore since first ev) => laterBoth.1 isTracked.1)
      (fun ev isTracked newer => above ev (laterBoth.1 isTracked.1) newer)
      (fun started => (sound started).mono later.2 (le_rfl)) rfl
    refine ⟨laterBoth.trans laterCall, ?_⟩
    intro started
    apply resume
    rw [← Bool.not_eq_true]
    intro complete
    exact Bool.false_ne_true ((congrArg Mark.started (finished complete).1).symm.trans started)

/-- After any sequence of calls, one more call that completes has brought
everything the relay held before the first and stamped inside the window; one
that stops short has brought what of it is stamped above the mark it
returns. -/
theorem checkins_cover (limitPos : 0 < limit) {first s s' : σ} {m : Mark}
    (run : host.Checkins since first m s) (later : host.Later s s')
    {oldest : Int} {maxPages : Nat} (pages : 0 < maxPages)
    (above : ∀ ev ∈ host.stored s', oldest < ev.createdAt → host.got s' ev)
    {r : Result} {m' : Mark} {s'' : σ}
    (called : continueFrom host.toHost since oldest limit maxPages m s' = (r, m', s'')) :
    (r.complete = true → ∀ ev ∈ host.stored first, since ≤ ev.createdAt → host.got s'' ev) ∧
    (r.complete = false →
      ∀ ev ∈ host.stored first, since ≤ ev.createdAt → m'.cursor < ev.createdAt →
        host.got s'' ev) := by
  obtain ⟨laterFirst, sound⟩ := Checkins.sound host since limitPos run
  have laterBoth := laterFirst.trans later
  obtain ⟨-, covered, resume⟩ := host.continueFrom_spec since limitPos pages
    (fun ev (isTracked : host.HeldBefore since first ev) => laterBoth.1 isTracked.1)
    (fun ev isTracked newer => above ev (laterBoth.1 isTracked.1) newer)
    (fun started => (sound started).mono later.2 (le_rfl)) called
  constructor
  · intro complete ev isStored inWindow
    exact (covered complete).2 ev ⟨isStored, inWindow⟩ inWindow
  · intro short ev isStored inWindow newer
    exact resume short ev ⟨isStored, inWindow⟩ newer

/-- A relay whose store stands still, asked by a phone that lists what it
got. -/
def still (store : List Event) (positive : ∀ ev ∈ store, 0 < ev.createdAt)
    (noCrowd : NoCrowd store limit) : RelayHost (List Event) limit where
  ctxErr s := (false, s)
  fetch since upto count s :=
    (⟨(Library.newestFirst Event.createdAt
        (store.filter fun ev => InRange since upto ev)).take count, none⟩, s)
  deliver ev s := (!s.contains ev, s ++ [ev])
  stored _ := store
  got s ev := ev ∈ s
  positive _ := positive
  noCrowd _ := noCrowd
  ctxErr_stored _ := List.Subset.refl _
  ctxErr_got _ _ := id
  deliver_stored _ _ := List.Subset.refl _
  deliver_got ev s other has := by simpa [or_comm] using has
  fetch_got _ _ _ _ := id
  fetch_page since upto s := by
    refine ⟨store, List.Subset.refl _, List.Subset.refl _, noCrowd, ?_⟩
    exact ⟨_, [], Library.isNewest_take _ _ _, by simp, by simp⟩

/-- Four stored events, two of one second, for pages of two. -/
def fourStored : List Event := [⟨1, 40⟩, ⟨2, 30⟩, ⟨3, 30⟩, ⟨4, 20⟩]

theorem fourStored_noCrowd : NoCrowd fourStored 2 := by
  intro stamp
  simp only [fourStored, List.countP_cons, List.countP_nil, decide_eq_true_eq]
  split_ifs <;> omega

def fourRelay : RelayHost (List Event) 2 :=
  still fourStored (by decide) fourStored_noCrowd

/-- A first call stops short after one page, the second completes. -/
theorem checkins_cover_fourRelay :
    let first := continueFrom fourRelay.toHost 20 50 2 1 {} []
    let second := continueFrom fourRelay.toHost 20 50 2 9 first.2.1 first.2.2
    first.1.complete = false ∧ second.1.complete = true ∧
      ∀ ev ∈ fourStored, 20 ≤ ev.createdAt → fourRelay.got second.2.2 ev := by
  have none : ∀ s : List Event, ∀ ev ∈ fourRelay.stored s,
      50 < ev.createdAt → fourRelay.got s ev := by
    intro s ev isStored newer
    have : ∀ ev ∈ fourStored, ¬ 50 < ev.createdAt := by decide
    exact (this ev isStored newer).elim
  refine ⟨by decide, by decide, ?_⟩
  exact (checkins_cover fourRelay 20 (by decide)
    (.call 50 1 .start (Later.refl fourRelay []) (none []) (by decide))
    (Later.refl fourRelay _) (by decide) (none _) rfl).1 (by decide)

/-- A relay of two stored events, 40 and 30, that closes its first page of two after the newer one
and a live event stamped 10. -/
def cutRelay : Host (List Event) where
  ctxErr s := (false, s)
  fetch _ _ _ s := (⟨[⟨3, 10⟩, ⟨1, 40⟩], some "closed"⟩, s)
  deliver ev s := (true, s ++ [ev])

/-- A live event below a stored one that did not come takes the mark past it.  A call that may ask
for no page leaves its mark at 0 with nothing brought. -/
theorem mark_below_undelivered :
    (CutAnywhere [⟨1, 40⟩, ⟨2, 30⟩] 5 50 2 (cutRelay.fetch 5 50 2 []).1.events ∧
      NoCrowd [⟨1, 40⟩, ⟨2, 30⟩] 2 ∧ (cutRelay.fetch 5 50 2 []).1.err ≠ none ∧
      continueFrom cutRelay 5 50 2 9 {} [] =
        ({ fetched := 2, fresh := 2, untilAt := 10 }, ⟨50, 10⟩, [⟨3, 10⟩, ⟨1, 40⟩])) ∧
    continueFrom fourRelay.toHost 20 50 2 0 {} [] = ({}, ⟨50, 0⟩, []) := by
  refine ⟨⟨?_, by decide, by decide, by decide⟩, by decide⟩
  refine ⟨[⟨1, 40⟩, ⟨2, 30⟩], [⟨1, 40⟩], [⟨3, 10⟩], ⟨⟨[], by decide, nofun⟩, by decide⟩,
    ⟨[⟨2, 30⟩], by decide, by decide⟩, by decide, by decide, by decide⟩

end RelayHost

end Kryfo.Catchup
