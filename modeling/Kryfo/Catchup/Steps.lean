import Kryfo.Catchup.Marks

/-!
# Every step keeps the marks sound

One lemma for each thing a connection is told, put together in `World.Sound.step`.
-/

namespace Kryfo.Catchup

open Library List

variable {κ : Type*} {w : World κ}

section FirstAnswer

variable {s : Session κ} {answer : List Event} {brought held : Nat}

private theorem window_positive {ev : Event} (member : ev ∈ w.window s.conn held) :
    0 < ev.createdAt ∧ s.conn.since ≤ ev.createdAt := by
  obtain ⟨mapped, inWindow⟩ := mem_filter.mp member
  obtain ⟨x, -, rfl⟩ := mem_map.mp mapped
  exact ⟨x.positive, by simpa using inWindow⟩

private theorem mem_window {x : Wrap} (inStore : x ∈ w.store.take held)
    (inWindow : s.conn.since ≤ x.createdAt) : x.toEvent ∈ w.window s.conn held :=
  mem_filter.mpr ⟨mem_map_of_mem inStore, by simpa using inWindow⟩

theorem got_of_firstBelow_lt (limitPos : 0 < s.limit)
    (sound : Phase.Sound w s (.asked answer brought held))
    (nonempty : answer.take brought ≠ []) {x : Wrap} (inStore : x ∈ w.store.take held)
    (newer : firstBelow s.limit (answer.take brought) < x.createdAt) : w.Got x.toEvent := by
  obtain ⟨-, sorted, newest, got, -⟩ := sound
  have size : (answer.take brought).length ≤ s.limit := by
    have := newest.2
    rw [length_take]
    omega
  rw [firstBelow_eq limitPos size] at newer
  have isFront := isFront_take_of_isFront brought sorted newest.1
  have stampsNonempty : (answer.take brought).map Event.createdAt ≠ [] := by
    simpa using nonempty
  obtain ⟨low, lowMem, lowStamp⟩ := mem_map.mp (below_mem s.limit stampsNonempty)
  have lowWindow := (window_positive (isFront.subset lowMem)).2
  apply got
  exact isFront.mem_of_lt lowMem (mem_window inStore (by omega)) (by omega)

theorem firstBelow_nil (limit : Nat) : firstBelow limit [] = 0 := by
  simp [firstBelow, newAnswer, Answer.below, below]

theorem above_firstBelow (limitPos : 0 < s.limit)
    (sound : Phase.Sound w s (.asked answer brought held))
    (positive : 0 < firstBelow s.limit (answer.take brought)) :
    Above (w.StoredBefore s.conn.owed.began) w.Got
      (firstBelow s.limit (answer.take brought)) := by
  have nonempty : answer.take brought ≠ [] := by
    intro empty
    rw [empty, firstBelow_nil] at positive
    omega
  intro ev before newer
  obtain ⟨x, inStore, rfl, earlier⟩ := before
  rw [← take_append_drop held w.store] at inStore
  rcases mem_append.mp inStore with early | late
  · exact got_of_firstBelow_lt limitPos sound nonempty early newer
  · have := sound.2.2.2.2 x late
    omega

private theorem got_of_dropped {x : Wrap} (late : x ∈ w.store.drop held) :
    x.toEvent ∈ w.got ++ (w.store.drop held).map Wrap.toEvent :=
  mem_append_right _ (mem_map_of_mem late)

theorem covered_of_short (limitPos : 0 < s.limit)
    (sound : Phase.Sound w s (.asked answer answer.length held))
    (isShort : answer.length < s.limit ∨ oldestOf answer = 0) :
    Covered w.Stored (fun ev => ev ∈ w.got ++ (w.store.drop held).map Wrap.toEvent)
      s.conn.since := by
  obtain ⟨-, -, newest, got, -⟩ := sound
  have few : answer.length < s.limit := by
    rcases isShort with few | zero
    · exact few
    · have := eq_nil_of_oldestOf_eq_zero
        (fun ev member => (window_positive (newest.1.subset member)).1) zero
      simpa [this] using limitPos
  rintro ev ⟨x, inStore, rfl⟩ inWindow
  rw [← take_append_drop held w.store] at inStore
  rcases mem_append.mp inStore with early | late
  · apply mem_append_left
    apply got
    rw [take_length]
    exact newest.mem_of_short few (mem_window early inWindow)
  · exact got_of_dropped late

/-- A full first answer brought everything above where its walk begins. -/
theorem above_of_full (limitPos : 0 < s.limit)
    (sound : Phase.Sound w s (.asked answer answer.length held))
    (isFull : ¬ (answer.length < s.limit ∨ oldestOf answer = 0)) :
    Above w.Stored (fun ev => ev ∈ w.got ++ (w.store.drop held).map Wrap.toEvent)
      (firstBelow s.limit answer) := by
  have nonempty : answer.take answer.length ≠ [] := by
    intro empty
    rw [take_length] at empty
    simp [empty, limitPos] at isFull
  rintro ev ⟨x, inStore, rfl⟩ newer
  rw [← take_append_drop held w.store] at inStore
  rcases mem_append.mp inStore with early | late
  · apply mem_append_left
    exact got_of_firstBelow_lt limitPos sound nonempty early (by rwa [take_length])
  · exact got_of_dropped late

end FirstAnswer

section Pages

variable {s : Session κ} {k : κ} {m : Mark} {origin upto : Int} {res res' : Result}
  {left : Nat}

theorem walked_of_stop {ended : Bool} (sound : Phase.Sound w s (.walking m origin upto res left))
    (stops : turn s.conn.since m ended upto res = .stop res') :
    Phase.Sound w s (.walked m origin res') := by
  obtain ⟨above, walked, open_, -⟩ := sound
  have stopped := turn_stop above walked (fun ev tracked => tracked.stored.positive) open_ stops
  refine ⟨stopped.2, fun _ => ?_⟩
  exact stopped.1.transfer (fun _ => id) fun ev before => .inl (before.tracked m)

theorem walked_of_exhausted (sound : Phase.Sound w s (.walking m origin upto res 0)) :
    Phase.Sound w s (.walked m origin res) := by
  obtain ⟨above, -, open_, resumes⟩ := sound
  refine ⟨fun complete => by simp [open_] at complete, fun _ => ?_⟩
  rw [resumes rfl]
  exact above.transfer (fun _ => id) fun ev before => .inl (before.tracked m)

/-- A page answers for what its snapshot of the store held; what came since is in. -/
theorem after_sound {pageSince upto' : Int} {above : Bool} {held : List Wrap} {page : Page}
    (fresh : Nat) (noCrowd : NoCrowd (w.store.map Wrap.toEvent) catchupPage)
    (sound : Phase.Sound w s (.walking m origin upto res (left + 1)))
    (asks : turn s.conn.since m false upto res = .ask pageSince upto' above res')
    (snapshot : held <+: w.store)
    (since : ∀ x ∈ w.store, x ∉ held → x.toEvent ∈ w.got)
    (pageOf : PageOf (held.map Wrap.toEvent) pageSince upto' catchupPage page) :
    (Phase.after m origin left (answered catchupPage m above upto' res' page fresh)).Sound
      { w with got := w.got ++ page.events } s := by
  obtain ⟨aboveUpto, walked, open_, -⟩ := sound
  obtain ⟨aboveAsk, order, -, whole, started, sameComplete, sameUntil⟩ :=
    turn_ask aboveUpto walked asks
  have grows : ∀ ev, w.Got ev → ev ∈ w.got ++ page.events := fun ev =>
    mem_append_left page.events
  have fewHeld : NoCrowd (held.map Wrap.toEvent) catchupPage := fun stamp =>
    le_trans ((snapshot.sublist.map Wrap.toEvent).countP_le) (noCrowd stamp)
  have narrow : ∀ ev, w.Tracked s.conn m ev ∧ ev ∈ held.map Wrap.toEvent →
      w.Tracked s.conn m ev ∨ ev ∈ w.got ++ page.events := fun ev both => .inl both.1
  have widen : ∀ ev, w.Tracked s.conn m ev →
      (w.Tracked s.conn m ev ∧ ev ∈ held.map Wrap.toEvent) ∨ ev ∈ w.got ++ page.events := by
    intro ev tracked
    obtain ⟨x, inStore, same⟩ := tracked.stored
    by_cases inHeld : x ∈ held
    · exact .inl ⟨tracked, mem_map.mpr ⟨x, inHeld, same⟩⟩
    · exact .inr (grows ev (same ▸ since x inStore inHeld))
  have brought : ∀ ev ∈ page.events, ev ∈ w.got ++ page.events := fun ev =>
    mem_append_right w.got
  have onward := answered_spec fresh (by decide) fewHeld pageOf (fun ev both => both.2)
    brought order (aboveAsk.transfer grows narrow)
    (fun isAbove => (walked (started isAbove)).transfer grows narrow) whole
    (sameComplete.trans open_) sameUntil
  cases next : answered catchupPage m above upto' res' page fresh with
  | stop stopped =>
    simp only [next] at onward
    refine ⟨fun complete => (onward.2 complete).transfer (fun _ => id) widen, fun _ => ?_⟩
    exact (onward.1.transfer (fun _ => id) widen).transfer (fun _ => id)
      fun ev before => .inl (World.StoredBefore.tracked m before)
  | again low again =>
    simp only [next] at onward
    exact ⟨onward.1.transfer (fun _ => id) widen,
      fun isStarted => (walked isStarted).transfer grows fun ev => .inl,
      onward.2.2, fun _ => onward.2.1⟩

end Pages

section BookSound

variable {w' : World κ} {b : Book κ} {added : List Wrap}

theorem Book.Sound.later (sound : b.Sound w) (later : w.Later w' added) : b.Sound w' where
  floor_le := sound.floor_le
  began_le k isHeld := le_trans (sound.began_le k isHeld) later.now
  marked := sound.marked
  marks k started := (sound.marks k started).transfer later.got fun _ before =>
    .inl (later.storedBefore (sound.began_le k (sound.marked k started)) before)

theorem Session.honest {k : κ} {s : Session κ} (book : b.Sound w) (agrees : s.Agrees b k)
    (unfinished : s.phase.unfinished = true) (started : (b.marks k).started = true) :
    Above (w.StoredBefore s.conn.owed.began) w.Got (b.marks k).cursor := by
  rw [← agrees unfinished started]
  exact book.marks k started

variable [DecidableEq κ] {key : κ} {h : Hold} {m : Mark}

theorem Book.Sound.setHold (sound : b.Sound w) (isHeld : h.held = true)
    (floor_le : h.floor ≤ h.began) (began_le : h.began ≤ w.now)
    (same : (b.marks key).started = true → h.began = (b.holds key).began) :
    (b.setHold key h).Sound w := by
  have here : (b.setHold key h).holds key = h := Book.setHold_holds_self isHeld
  constructor
  · intro k kHeld
    by_cases at_ : k = key
    · subst at_
      rwa [here]
    · rw [Book.setHold_holds_of_ne at_] at kHeld ⊢
      exact sound.floor_le k kHeld
  · intro k kHeld
    by_cases at_ : k = key
    · subst at_
      rwa [here]
    · rw [Book.setHold_holds_of_ne at_] at kHeld ⊢
      exact sound.began_le k kHeld
  · intro k started
    by_cases at_ : k = key
    · subst at_
      rwa [here]
    · rw [Book.setHold_holds_of_ne at_]
      exact sound.marked k started
  · intro k started
    by_cases at_ : k = key
    · subst at_
      rw [here, same started]
      exact sound.marks k started
    · rw [Book.setHold_holds_of_ne at_]
      exact sound.marks k started

theorem Book.Sound.setMark (sound : b.Sound w)
    (isHeld : m.started = true → (b.holds key).held = true)
    (honest : m.started = true → Above (w.StoredBefore (b.holds key).began) w.Got m.cursor) :
    (b.setMark key m).Sound w := by
  constructor
  · exact sound.floor_le
  · exact sound.began_le
  · intro k started
    by_cases at_ : k = key
    · subst at_
      rw [Book.setMark_marks_self] at started
      exact isHeld started
    · rw [Book.setMark_marks_of_ne at_] at started
      exact sound.marked k started
  · intro k started
    by_cases at_ : k = key
    · subst at_
      rw [Book.setMark_marks_self] at started ⊢
      exact honest started
    · rw [Book.setMark_marks_of_ne at_] at started ⊢
      exact sound.marks k started

theorem Book.Sound.start {own : List κ} {anchor : Int} (sound : b.Sound w)
    (nowPos : 0 < w.now) (notAhead : anchor ≤ w.now) :
    (b.start own anchor w.now).Sound w := by
  have each : ∀ k, ((b.start own anchor w.now).holds k).held = true →
      ((b.start own anchor w.now).holds k).floor ≤
          ((b.start own anchor w.now).holds k).began ∧
        ((b.start own anchor w.now).holds k).began ≤ w.now := by
    intro k isHeld
    rcases b.start_holds own anchor nowPos k with same | started
    · rw [same] at isHeld ⊢
      exact ⟨sound.floor_le k isHeld, sound.began_le k isHeld⟩
    · rw [started]
      cases before : (b.holds k).held with
      | false =>
        rw [Hold.start_of_not_held before]
        exact ⟨notAhead, le_rfl⟩
      | true =>
        obtain ⟨began, lower⟩ := Hold.start_of_held before anchor w.now
        have := sound.floor_le k before
        have := sound.began_le k before
        omega
  have kept : ∀ k, (b.holds k).held = true → ((b.start own anchor w.now).holds k).held = true ∧
        ((b.start own anchor w.now).holds k).began = (b.holds k).began := by
    intro k isHeld
    rcases b.start_holds own anchor nowPos k with same | started
    · rw [same]
      exact ⟨isHeld, rfl⟩
    · rw [started]
      exact ⟨Hold.start_held nowPos, (Hold.start_of_held isHeld anchor w.now).1⟩
  constructor
  · exact fun k isHeld => (each k isHeld).1
  · exact fun k isHeld => (each k isHeld).2
  · intro k started
    rw [Book.start_marks] at started
    exact (kept k (sound.marked k started)).1
  · intro k started
    rw [Book.start_marks] at started ⊢
    rw [(kept k (sound.marked k started)).2]
    exact sound.marks k started

theorem Book.Sound.done {c : Conn κ} {stepped : Bool} (sound : b.Sound w)
    (isOwn : c.own = true) (notTwin : c.key ∉ c.twins) : (b.done c stepped).Sound w := by
  have self := b.done_holds_self stepped isOwn notTwin
  have other : ∀ k, k ≠ c.key →
      ((b.done c stepped).holds k = {} ∧ (b.done c stepped).marks k = {}) ∨
      ((b.done c stepped).holds k = b.holds k ∧ (b.done c stepped).marks k = b.marks k) := by
    intro k ne
    rw [Book.done_holds_of_ne stepped isOwn ne, Book.done_marks_of_ne isOwn ne]
    split_ifs
    · exact .inl ⟨rfl, rfl⟩
    · exact .inr ⟨rfl, rfl⟩
  have each : ∀ k, ((b.done c stepped).holds k).held = true →
      ((b.done c stepped).holds k).floor ≤ ((b.done c stepped).holds k).began ∧
        ((b.done c stepped).holds k).began ≤ w.now := by
    intro k isHeld
    by_cases at_ : k = c.key
    · subst at_
      rw [self] at isHeld ⊢
      obtain ⟨before, rfl⟩ := Hold.done_began_of_held isHeld
      rw [Hold.done_stepped before]
      have := sound.floor_le c.key before
      have := sound.began_le c.key before
      simp only
      omega
    · rcases other k at_ with ⟨gone, -⟩ | ⟨same, -⟩
      · simp [gone, Hold.held] at isHeld
      · rw [same] at isHeld ⊢
        exact ⟨sound.floor_le k isHeld, sound.began_le k isHeld⟩
  have marks : ∀ k, ((b.done c stepped).marks k).started = true →
      (b.done c stepped).holds k = b.holds k ∧ (b.done c stepped).marks k = b.marks k := by
    intro k started
    by_cases at_ : k = c.key
    · subst at_
      simp [Book.done_marks_self isOwn, Mark.started] at started
    · rcases other k at_ with ⟨-, gone⟩ | same
      · simp [gone, Mark.started] at started
      · exact same
  constructor
  · exact fun k isHeld => (each k isHeld).1
  · exact fun k isHeld => (each k isHeld).2
  · intro k started
    obtain ⟨sameHold, sameMark⟩ := marks k started
    rw [sameMark] at started
    rw [sameHold]
    exact sound.marked k started
  · intro k started
    obtain ⟨sameHold, sameMark⟩ := marks k started
    rw [sameMark] at started
    rw [sameHold, sameMark]
    exact sound.marks k started

end BookSound

section Step

variable [DecidableEq κ] {own : List κ} {w' : World κ} {act : Act κ}

theorem Step.later (step : Step own w act w') : ∃ added, w.Later w' added := by
  have quiet : ∀ {w' : World κ}, w.now ≤ w'.now → w'.store = w.store →
      (∀ ev ∈ w.got, ev ∈ w'.got) → ∃ added, w.Later w' added := fun now store got =>
    ⟨[], now, by simpa using store, got, by simp, by simp⟩
  cases step with
  | tick now later => exact quiet later rfl (fun _ => id)
  | reach x handed atNow live =>
    refine ⟨[x], le_rfl, rfl, ?_, by simpa using atNow, ?_⟩
    · intro ev member
      split_ifs
      · exact mem_append_left _ member
      · exact member
    · intro y member isLive
      obtain rfl := mem_singleton.mp member
      simp [live isLive]
  | deliver ev => exact quiet (le_rfl) rfl (fun _ => mem_append_left _)
  | start anchor notAhead | connect k last limit | answer k s evs
  | keepFirst k s answer brought held | exhausted k s m origin upto res | done k s m origin res
  | cut k s m origin res | drop k s => exact quiet (le_rfl) rfl (fun _ => id)
  | bring k s answer brought held ev
  | page k s m origin upto res res' left pageSince upto' above held page fresh
  | short k s answer held | full k s answer held =>
    exact quiet (le_rfl) rfl (fun _ => mem_append_left _)
  | stop k s m origin upto res res' left ended =>
    exact quiet (le_rfl) rfl (fun _ => id)

variable {k : κ} {s : Session κ} {b : Book κ}

theorem Session.Sound.owed_held (sound : s.Sound own w k) : s.conn.owed.held = true :=
  Hold.held_of_began sound.began_pos

theorem Session.Sound.notTwin (sound : s.Sound own w k) : s.conn.key ∉ s.conn.twins := by
  rw [sound.twins, sound.key]
  simp

theorem Book.Sound.write (book : b.Sound w) (sound : s.Sound own w k) (agrees : s.Agrees b k)
    (unfinished : s.phase.unfinished = true) {m : Mark}
    (honest : m.started = true → Above (w.StoredBefore s.conn.owed.began) w.Got m.cursor) :
    (b.write s.conn m).Sound w := by
  have isHeld := sound.owed_held
  have here : (b.setHold s.conn.key s.conn.owed).holds s.conn.key = s.conn.owed :=
    Book.setHold_holds_self isHeld
  apply Book.Sound.setMark
  · apply book.setHold isHeld sound.floor_le sound.began_le
    intro started
    rw [sound.key] at started ⊢
    exact (agrees unfinished started).symm
  · intro _
    rw [here]
    exact isHeld
  · rw [here]
    exact honest

theorem Session.agrees_write (sound : s.Sound own w k) (m : Mark) {t : Session κ}
    (same : t.conn.owed = s.conn.owed) : t.Agrees (b.write s.conn m) k := by
  intro _ _
  have := b.write_holds_self m sound.owed_held
  rw [sound.key] at this
  rw [this, same]

end Step

end Kryfo.Catchup
