import Kryfo.Catchup.Interleavings

/-!
# What is owed stays owed

A missing wrap is safe while some entry's hold reaches down to it and no open connection of that
entry would raise the hold past it.  Every wrap of an owed window is in or safe.
-/

namespace Kryfo.Catchup

variable {κ : Type*} [DecidableEq κ] {own : List κ} {w w' : World κ} {act : Act κ}
  {k e : κ} {s t : Session κ}

def Session.stepping (s : Session κ) : Bool :=
  match s.phase with
  | .walked m _ _ => m.started
  | _ => false

namespace World

/-- The entry's hold reaches down to the wrap, and its connection would not raise it past the
wrap. -/
def Covers (w : World κ) (k : κ) (x : Wrap) : Prop :=
  (w.book.holds k).held = true ∧ (w.book.holds k).floor ≤ x.createdAt + 43200 ∧
    ∀ s, w.sessions k = some s → s.phase.unfinished = true → s.conn.owed.floor ≤ x.createdAt + 43200

/-- The phone has the wrap, or some entry's next window takes it in. -/
def Safe (own : List κ) (w : World κ) (x : Wrap) : Prop :=
  w.Got x.toEvent ∨ ∃ k ∈ own, w.Covers k x

/-- Every wrap stamped inside the window from `base` is safe. -/
def Owing (own : List κ) (w : World κ) (base : Int) : Prop :=
  ∀ x ∈ w.store, base ≤ x.createdAt + 43200 → w.Safe own x

/-- Whatever a connection's window takes in is safe, or will be once the
connection holds. -/
def Minded (own : List κ) (w : World κ) : Prop :=
  ∀ k s, w.sessions k = some s → s.phase.unfinished = true →
    ∀ x ∈ w.store, s.conn.base ≤ x.createdAt + 43200 →
      w.Safe own x ∨ s.conn.owed.floor ≤ x.createdAt + 43200

def holding (own : List κ) (w : World κ) : Prop :=
  ∃ k ∈ own, (w.book.holds k).held = true

end World

/-- What a run has to keep to.  No second is crowded.  A connection that carries on from a mark is
given no anchor below its own hold, nor a window lowered by a runner that started while another
entry's connection was open.  A walk that stepped over a stretch ends while its entry holds from no
later than it began, or after a clean pass it can rest on. -/
def Act.Careful (own : List κ) (w : World κ) : Act κ → Prop
  | .connect k last => (w.book.marks k).started = true →
      (w.book.holds k).floor ≤ last ∧
      ∀ e ∈ own, e ≠ k → (w.book.holds e).held = true →
        ∀ s, w.sessions e = some s → s.phase.unfinished = true →
          s.conn.owed.floor ≤ (w.book.holds e).floor
  | .done k => ∀ s, w.sessions k = some s → s.stepping = true →
      s.passed = true ∨
      (w.book.holds k).held = true ∧ (w.book.holds k).began ≤ s.conn.owed.began
  | act => act.Uncrowded w

/-- A first answer ends with its window owed: it came full, or it was cut with something brought. -/
def Act.Owes (w : World κ) (k : κ) (base : Int) (act : Act κ) : Prop :=
  ∃ s, w.sessions k = some s ∧ s.conn.base = base ∧
    (act = .full k ∨ act = .keepFirst k ∧ ∃ answer brought held,
      s.phase = .asked answer brought held ∧ 0 < firstBelow s.limit (answer.take brought))

omit [DecidableEq κ] in
theorem Act.Careful.uncrowded (careful : act.Careful own w) : act.Uncrowded w := by
  cases act <;> first | exact careful | trivial

section Inversion

theorem Step.session_cases (step : Step own w act w') (isOpen : w'.sessions e = some t)
    (unfinished : t.phase.unfinished = true) :
    (∃ s, w.sessions e = some s ∧ s.phase.unfinished = true ∧ t.conn = s.conn) ∨
      (∃ last, act = .connect e last ∧ e ∈ own ∧ w.sessions e = none ∧ last ≤ w.now ∧
        t.conn = w.book.connect e own last w.now) := by
  have moved : ∀ {k : κ} {s s' : Session κ}, w.sessions k = some s →
      s.phase.unfinished = true → Function.update w.sessions k (some s') e = some t →
      s'.conn = s.conn →
      ∃ s, w.sessions e = some s ∧ s.phase.unfinished = true ∧ t.conn = s.conn := by
    intro k s s' wasOpen before opened same
    by_cases at_ : e = k
    · subst at_
      rw [Function.update_self, Option.some.injEq] at opened
      subst opened
      exact ⟨s, wasOpen, before, same⟩
    · rw [Function.update_of_ne at_] at opened
      exact ⟨t, opened, unfinished, rfl⟩
  have passed : ∀ {k : κ} {s : Session κ} {stepped : Bool} {got : List Event},
      (World.done { w with got := got } k s stepped).sessions e = some t →
      ∃ s, w.sessions e = some s ∧ s.phase.unfinished = true ∧ t.conn = s.conn := by
    intro k s stepped got opened
    simp only [World.done] at opened
    split_ifs at opened with at_
    · rw [Option.some.injEq] at opened
      subst opened
      simp [Phase.unfinished] at unfinished
    · obtain ⟨before, wasOpen, rfl⟩ := Option.map_eq_some_iff.mp opened
      exact ⟨before, wasOpen, unfinished, rfl⟩
  cases step with
  | tick now later | reach x handed atNow live | deliver ev | start anchor notAhead =>
    exact .inl ⟨t, isOpen, unfinished, rfl⟩
  | connect k last limit isOwn closed notAhead limitPos =>
    by_cases at_ : e = k
    · subst at_
      simp only [World.setSession, Function.update_self, Option.some.injEq] at isOpen
      subst isOpen
      exact .inr ⟨last, rfl, isOwn, closed, notAhead, rfl⟩
    · simp only [World.setSession, Function.update_of_ne at_] at isOpen
      exact .inl ⟨t, isOpen, unfinished, rfl⟩
  | answer k s evs wasOpen phase | bring k s answer brought held ev wasOpen phase
  | full k s answer held wasOpen phase | exhausted k s m origin upto res wasOpen phase
  | stop k s m origin upto res res' left ended wasOpen phase
  | page k s m origin upto res res' left pageSince upto' above held page fresh wasOpen phase
  | cut k s m origin res wasOpen phase =>
    exact .inl (moved wasOpen (by rw [phase]; rfl) isOpen rfl)
  | keepFirst k s answer brought held wasOpen phase => exact .inl ⟨t, isOpen, unfinished, rfl⟩
  | short k s answer held wasOpen phase | done k s m origin res wasOpen phase =>
    exact .inl (passed isOpen)
  | drop k s wasOpen may =>
    by_cases at_ : e = k
    · subst at_
      simp at isOpen
    · simp only [Function.update_of_ne at_] at isOpen
      exact .inl ⟨t, isOpen, unfinished, rfl⟩

theorem Step.store_cases (step : Step own w act w') {x : Wrap} (inStore : x ∈ w'.store) :
    x ∈ w.store ∨ (x.reached = w.now ∧ w'.book = w.book ∧ w'.sessions = w.sessions) := by
  cases step with
  | reach y handed atNow live =>
    rcases List.mem_append.mp inStore with old | isNew
    · exact .inl old
    · obtain rfl := List.mem_singleton.mp isNew
      exact .inr ⟨atNow, rfl, rfl⟩
  | _ => exact .inl inStore

structure Passes (w : World κ) (act : Act κ) (w' : World κ) (k : κ) (s : Session κ)
    (stepped : Bool) : Prop where
  isOpen : w.sessions k = some s
  unfinished : s.phase.unfinished = true
  entry : act = .short k ∨ act = .done k
  book : w'.book = w.book.done s.conn stepped
  store : w'.store = w.store
  finished : ∀ t, w'.sessions k = some t → t.phase.unfinished = false
  covered : Covered (fun ev => if stepped then w.StoredBefore s.conn.owed.began ev
    else w.Stored ev) w'.Got s.conn.since
  steps : stepped = true → act = .done k ∧ s.stepping = true ∧ s.phase.handsOver = true

theorem Step.passes (step : Step own w act w') (sound : w.Sound own)
    (ends : act = .short k ∨ act = .done k) : ∃ s stepped, Passes w act w' k s stepped := by
  rcases ends with rfl | rfl
  · cases step with
    | short k s answer held wasOpen phase isShort =>
      have sSound := sound.sessions k s wasOpen
      have asked := sSound.phase
      rw [phase] at asked
      refine ⟨s, false, wasOpen, by rw [phase]; rfl, .inl rfl, rfl, rfl,
        by simp [World.done, Phase.unfinished], ?_, by simp⟩
      exact covered_of_short sSound.limitPos asked isShort
  · cases step with
    | done k s m origin res wasOpen phase complete =>
      have walked := (sound.sessions k s wasOpen).phase
      rw [phase] at walked
      refine ⟨s, m.started, wasOpen, by rw [phase]; rfl, .inr rfl, rfl, rfl,
        by simp [World.done, Phase.unfinished], walked.1 complete, ?_⟩
      intro started
      refine ⟨rfl, ?_, ?_⟩
      · rw [Session.stepping, phase]
        exact started
      · rw [phase]
        exact complete

theorem Step.book_cases (step : Step own w act w') (sound : w.Sound own) :
    w'.book = w.book ∨ (∃ anchor, anchor ≤ w.now ∧ act = .start anchor ∧
        w'.book = w.book.start own anchor w.now) ∨
      (∃ k s m, w.sessions k = some s ∧ s.phase.unfinished = true ∧
        w'.book = w.book.write s.conn m) ∨
      (∃ k s stepped, Passes w act w' k s stepped) := by
  cases step with
  | tick now later | reach x handed atNow live | deliver ev
  | connect k last limit isOwn closed notAhead limitPos | answer k s evs wasOpen phase
  | bring k s answer brought held ev wasOpen phase
  | exhausted k s m origin upto res wasOpen phase
  | stop k s m origin upto res res' left ended wasOpen phase | drop k s wasOpen may =>
    exact .inl rfl
  | start anchor notAhead => exact .inr (.inl ⟨anchor, notAhead, rfl, rfl⟩)
  | keepFirst k s answer brought held wasOpen phase =>
    have isOwn := (sound.sessions k s wasOpen).isOwn
    simp only [Book.keepFirst_eq isOwn]
    split_ifs
    · exact .inl rfl
    · exact .inr (.inr (.inl ⟨k, s, _, wasOpen, by rw [phase]; rfl, rfl⟩))
  | short k s answer held wasOpen phase isShort =>
    exact .inr (.inr (.inr ⟨k, Step.passes (.short k s answer held wasOpen phase isShort)
      sound (.inl rfl)⟩))
  | full k s answer held wasOpen phase isFull =>
    have isOwn := (sound.sessions k s wasOpen).isOwn
    simp only [Book.owe_eq isOwn]
    split_ifs
    · exact .inl rfl
    · exact .inr (.inr (.inl ⟨k, s, _, wasOpen, by rw [phase]; rfl, rfl⟩))
  | page k s m origin upto res res' left pageSince upto' above held page fresh wasOpen phase =>
    exact .inl rfl
  | done k s m origin res wasOpen phase complete =>
    exact .inr (.inr (.inr ⟨k, Step.passes (.done k s m origin res wasOpen phase complete)
      sound (.inr rfl)⟩))
  | cut k s m origin res wasOpen phase incomplete =>
    have isOwn := (sound.sessions k s wasOpen).isOwn
    simp only [Book.cut_eq isOwn]
    split_ifs
    · exact .inl rfl
    · exact .inr (.inr (.inl ⟨k, s, _, wasOpen, by rw [phase]; rfl, rfl⟩))
    · exact .inr (.inr (.inl ⟨k, s, _, wasOpen, by rw [phase]; rfl, rfl⟩))

end Inversion

section Safety

variable {x : Wrap} {stepped : Bool}

theorem Passes.safe (passes : Passes w act w' k s stepped) (sound : w.Sound own)
    (grows : ∀ ev ∈ w.got, ev ∈ w'.got) (careful : act.Careful own w)
    (inStore : x ∈ w.store) (inWindow : s.conn.base ≤ x.createdAt + 43200) :
    w'.Safe own x := by
  have sSound := sound.sessions k s passes.isOpen
  have since : s.conn.since ≤ x.createdAt := Conn.since_le_of_base_le x.positive inWindow
  cases stepped with
  | false =>
    left
    exact passes.covered x.toEvent (by simpa using ⟨x, inStore, rfl⟩) since
  | true =>
    obtain ⟨rfl, isStepping, hands⟩ := passes.steps rfl
    rcases careful s passes.isOpen isStepping with rests | ⟨isHeld, began⟩
    · left
      exact grows _ (sSound.passed rests hands x.toEvent ⟨x, inStore, rfl⟩ since)
    · by_cases early : x.reached < s.conn.owed.began
      · left
        exact passes.covered x.toEvent (by simpa using ⟨x, inStore, rfl, early⟩) since
      · right
        have self := w.book.done_holds_self true sSound.isOwn sSound.notTwin
        rw [sSound.key, Hold.done_stepped isHeld] at self
        have floor := sound.book.floor_le k isHeld
        have jittered := x.jittered
        refine ⟨k, sSound.mem, ?_, ?_, ?_⟩
        · rw [passes.book, self]
          exact isHeld
        · rw [passes.book, self]
          simp only
          omega
        · intro t opened unfinished
          rw [passes.finished t opened] at unfinished
          simp at unfinished

theorem Step.safe (step : Step own w act w') (sound : w.Sound own)
    (careful : act.Careful own w) (inStore : x ∈ w.store) (safe : w.Safe own x) :
    w'.Safe own x := by
  obtain ⟨added, later⟩ := step.later
  rcases safe with got | ⟨e, isOwn, isHeld, floor, owed⟩
  · exact .inl (later.got _ got)
  have sessions : (w.book.holds e).held = true →
      ∀ t, w'.sessions e = some t → t.phase.unfinished = true →
        t.conn.owed.floor ≤ x.createdAt + 43200 := by
    intro isHeld t opened unfinished
    rcases step.session_cases opened unfinished with
      ⟨s, wasOpen, before, same⟩ | ⟨last, -, -, -, -, same⟩
    · rw [same]
      exact owed s wasOpen before
    · rw [same]
      have lower := w.book.connect_base_le_floor last w.now isOwn isOwn isHeld
      rcases w.book.connect_owed last w.now isOwn with ⟨-, -, carries⟩ | ⟨-, afresh⟩
      · rw [carries]
        exact floor
      · rw [afresh]
        exact le_trans lower floor
  have kept : w'.book.holds e = w.book.holds e → w'.Safe own x := by
    intro same
    exact .inr ⟨e, isOwn, by rwa [same], by rwa [same], sessions isHeld⟩
  rcases step.book_cases sound with
    same | ⟨anchor, notAhead, -, starts⟩ | ⟨k, s, m, isOpen, unfinished, writes⟩ |
      ⟨k, s, stepped, passes⟩
  · exact kept (by rw [same])
  · rcases w.book.start_holds own anchor sound.nowPos e with same | lowered
    · exact kept (by rw [starts, same])
    · obtain ⟨began, lower⟩ := Hold.start_of_held isHeld anchor w.now
      refine .inr ⟨e, isOwn, ?_, ?_, sessions isHeld⟩
      · rw [starts, lowered]
        exact Hold.start_held sound.nowPos
      · rw [starts, lowered]
        omega
  · have sSound := sound.sessions k s isOpen
    by_cases at_ : e = k
    · subst at_
      have here := w.book.write_holds_self m sSound.owed_held
      rw [sSound.key] at here
      refine .inr ⟨e, isOwn, ?_, ?_, sessions isHeld⟩
      · rw [writes, here]
        exact sSound.owed_held
      · rw [writes, here]
        exact owed s isOpen unfinished
    · exact kept (by rw [writes, (Book.write_of_ne m (by rwa [sSound.key])).1])
  · have sSound := sound.sessions k s passes.isOpen
    have taken := fun inWindow =>
      passes.safe sound later.got careful inStore inWindow
    by_cases at_ : e = k
    · subst at_
      exact taken (le_trans sSound.base_le (owed s passes.isOpen passes.unfinished))
    · have other : e ≠ s.conn.key := by rwa [sSound.key]
      have after := w.book.done_holds_of_ne stepped sSound.isOwn other
      split_ifs at after with goes
      · exact taken (le_trans goes.2.2 floor)
      · exact kept (by rw [passes.book, after])

theorem Step.minded (step : Step own w act w') (sound : w.Sound own) (minded : w.Minded own)
    (careful : act.Careful own w) : w'.Minded own := by
  obtain ⟨added, later⟩ := step.later
  intro e t opened unfinished x inStore inWindow
  rcases step.session_cases opened unfinished with
    ⟨s, wasOpen, before, same⟩ | ⟨last, rfl, isOwn, -, -, same⟩
  · rw [same] at inWindow ⊢
    rw [later.store] at inStore
    rcases List.mem_append.mp inStore with old | isNew
    · rcases minded e s wasOpen before x old inWindow with safe | owed
      · exact .inl (step.safe sound careful old safe)
      · exact .inr owed
    · have sSound := sound.sessions e s wasOpen
      have := later.reached x isNew
      have := sSound.floor_le
      have := sSound.began_le
      have := x.jittered
      omega
  · rw [same] at inWindow ⊢
    cases step with
    | connect k last limit isOwn closed notAhead limitPos =>
    rcases w.book.connect_owed last w.now isOwn with ⟨marked, isHeld, carries⟩ | ⟨-, afresh⟩
    · obtain ⟨forward, steady⟩ := careful marked
      rw [carries]
      rcases w.book.connect_base_eq last w.now isOwn with atLast | ⟨k, member, kHeld, atFloor⟩
      · omega
      · by_cases at_ : k = e
        · subst at_
          omega
        · left
          right
          refine ⟨k, member, kHeld, ?_, ?_⟩
          · simp only [World.setSession]
            omega
          · intro s wasOpen before
            simp only [World.setSession, Function.update_of_ne at_] at wasOpen
            have := steady k member at_ kHeld s wasOpen before
            omega
    · right
      rw [afresh]
      exact inWindow

theorem Step.owing {base : Int} (step : Step own w act w') (sound : w.Sound own)
    (careful : act.Careful own w) (holding : w.holding own) (owing : w.Owing own base) :
    w'.Owing own base := by
  intro x inStore inWindow
  rcases step.store_cases inStore with old | ⟨atNow, sameBook, sameSessions⟩
  · exact step.safe sound careful old (owing x old inWindow)
  · obtain ⟨k, isOwn, isHeld⟩ := holding
    have := sound.book.floor_le k isHeld
    have := sound.book.began_le k isHeld
    have := x.jittered
    refine .inr ⟨k, isOwn, by rwa [sameBook], by rw [sameBook]; omega, ?_⟩
    intro s isOpen unfinished
    rw [sameSessions] at isOpen
    have sSound := sound.sessions k s isOpen
    have := sSound.floor_le
    have := sSound.began_le
    omega

theorem World.owing_of_held (minded : w.Minded own) (sound : w.Sound own)
    (isOpen : w.sessions k = some s) (unfinished : s.phase.unfinished = true)
    (holds : w.book.holds k = s.conn.owed) : w.Owing own s.conn.base := by
  intro x inStore inWindow
  have sSound := sound.sessions k s isOpen
  rcases minded k s isOpen unfinished x inStore inWindow with safe | owed
  · exact safe
  · refine .inr ⟨k, sSound.mem, ?_, ?_, ?_⟩
    · rw [holds]
      exact sSound.owed_held
    · rwa [holds]
    · intro t opened _
      rw [isOpen, Option.some.injEq] at opened
      subst opened
      exact owed

theorem Step.owing_of_owes {base : Int} (step : Step own w act w') (sound : w.Sound own)
    (sound' : w'.Sound own) (minded' : w'.Minded own) (owes : act.Owes w k base)
    (uncovered : ∀ s, w.sessions k = some s → w.book.covered s.conn = false) :
    w'.Owing own base := by
  obtain ⟨s, isOpen, rfl, answers⟩ := owes
  have sSound := sound.sessions k s isOpen
  have notCovered := uncovered s isOpen
  have written := fun m => w.book.write_holds_self m sSound.owed_held
  rw [sSound.key] at written
  rcases answers with rfl | ⟨rfl, answer, brought, held, phase, positive⟩
  · cases step with
    | full e t answer held opened phase isFull =>
      rw [isOpen, Option.some.injEq] at opened
      subst opened
      have holds : (w.book.owe s.conn).holds k = s.conn.owed := by
        rw [Book.owe_eq sSound.isOwn, notCovered]
        exact written _
      have owing := World.owing_of_held minded' sound'
        (Function.update_self k _ w.sessions) rfl holds
      exact owing
  · cases step with
    | keepFirst e t answer' brought' held' opened phase' =>
      rw [isOpen, Option.some.injEq] at opened
      subst opened
      rw [phase] at phase'
      cases phase'
      refine World.owing_of_held minded' sound' isOpen (by rw [phase]; rfl) ?_
      rw [Book.keepFirst_eq sSound.isOwn, if_neg (by simp [notCovered]; omega)]
      exact written _

omit [DecidableEq κ] in
theorem World.Owing.got {base : Int} (owing : w.Owing own base) (free : ¬ w.holding own)
    {x : Wrap} (inStore : x ∈ w.store) (inWindow : base ≤ x.createdAt + 43200) :
    w.Got x.toEvent := by
  rcases owing x inStore inWindow with got | ⟨k, isOwn, isHeld, -, -⟩
  · exact got
  · exact (free ⟨k, isOwn, isHeld⟩).elim

end Safety

end Kryfo.Catchup
