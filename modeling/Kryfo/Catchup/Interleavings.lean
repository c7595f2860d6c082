import Kryfo.Catchup.Steps

/-!
# The invariant of every interleaving

Each step of the world keeps the book, its marks and every open connection
sound, so every state of every run is.
-/

namespace Kryfo.Catchup

open Library

variable {κ : Type*} [DecidableEq κ] {own : List κ} {w w' : World κ} {act : Act κ}
  {added : List Wrap} {k : κ} {s s' : Session κ}

/-- No second comes to hold more wraps than a page hands out. -/
def Act.Uncrowded (w : World κ) : Act κ → Prop
  | .reach x => NoCrowd ((w.store ++ [x]).map Wrap.toEvent) catchupPage
  | _ => True

namespace World.Sound

theorem reached_later (sound : w.Sound own) (later : w.Later w' added) :
    ∀ x ∈ w'.store, x.reached ≤ w'.now := by
  intro x inStore
  rw [later.store] at inStore
  have := later.now
  rcases List.mem_append.mp inStore with old | isNew
  · have := sound.reached x old
    omega
  · have := later.reached x isNew
    omega

theorem sessions_later (sound : w.Sound own) (later : w.Later w' added)
    (same : w'.sessions = w.sessions) :
    ∀ e t, w'.sessions e = some t → t.Sound own w' e := by
  intro e t isOpen
  rw [same] at isOpen
  exact (sound.sessions e t isOpen).later later isOpen

theorem sessions_update (sound : w.Sound own) (later : w.Later w' added)
    (moved : w'.sessions = Function.update w.sessions k (some s'))
    (here : s'.Sound own w' k) :
    ∀ e t, w'.sessions e = some t → t.Sound own w' e := by
  rw [moved]
  refine (Function.forall_update_iff w.sessions
    fun e found => ∀ t, found = some t → t.Sound own w' e).mpr
    ⟨?_, fun e _ t isOpen => (sound.sessions e t isOpen).later later isOpen⟩
  rintro _ ⟨⟩
  exact here

theorem agrees_update (sound : w.Sound own)
    (moved : w'.sessions = Function.update w.sessions k (some s'))
    (frame : ∀ e, e ≠ k → w'.book.holds e = w.book.holds e ∧ w'.book.marks e = w.book.marks e)
    (here : s'.Agrees w'.book k) :
    ∀ e t, w'.sessions e = some t → t.Agrees w'.book e := by
  rw [moved]
  refine (Function.forall_update_iff w.sessions
    fun e found => ∀ t, found = some t → t.Agrees w'.book e).mpr ⟨?_, fun e other t isOpen => ?_⟩
  · rintro _ ⟨⟩
    exact here
  · obtain ⟨sameHold, sameMark⟩ := frame e other
    unfold Session.Agrees
    rw [sameHold, sameMark]
    exact sound.agrees e t isOpen

theorem move (sound : w.Sound own) (later : w.Later w' added)
    (crowd : NoCrowd (w'.store.map Wrap.toEvent) catchupPage) (book : w'.book = w.book)
    (moved : w'.sessions = Function.update w.sessions k (some s'))
    (here : s'.Sound own w' k) (agrees : s'.Agrees w.book k) : w'.Sound own where
  nowPos := lt_of_lt_of_le sound.nowPos later.now
  reached := sound.reached_later later
  noCrowd := crowd
  book := book ▸ sound.book.later later
  sessions := sound.sessions_update later moved here
  agrees := sound.agrees_update moved (fun e _ => by rw [book]; exact ⟨rfl, rfl⟩)
    (book ▸ agrees)

theorem rephase (sound : w.Sound own) (later : w.Later w' added) {phase : Phase}
    (isOpen : w.sessions k = some s) (unfinished : s.phase.unfinished = true)
    (store : w'.store = w.store) (book : w'.book = w.book)
    (moved : w'.sessions = Function.update w.sessions k (some { s with phase := phase }))
    (hands : phase.handsOver = true → s.passed = true → s.phase.handsOver = true)
    (here : phase.Sound w' s) : w'.Sound own :=
  sound.move later (store ▸ sound.noCrowd) book moved
    (((sound.sessions k s isOpen).later later isOpen).move here hands)
    fun _ => sound.agrees k s isOpen unfinished

theorem idle (sound : w.Sound own) (later : w.Later w' added)
    (crowd : NoCrowd (w'.store.map Wrap.toEvent) catchupPage) (book : w'.book = w.book)
    (same : w'.sessions = w.sessions) : w'.Sound own where
  nowPos := lt_of_lt_of_le sound.nowPos later.now
  reached := sound.reached_later later
  noCrowd := crowd
  book := book ▸ sound.book.later later
  sessions := sound.sessions_later later same
  agrees e t isOpen := by
    rw [same] at isOpen
    rw [book]
    exact sound.agrees e t isOpen

theorem write (sound : w.Sound own) (later : w.Later w' added)
    (crowd : NoCrowd (w'.store.map Wrap.toEvent) catchupPage)
    (isOpen : w.sessions k = some s) (unfinished : s.phase.unfinished = true) {m : Mark}
    (honest : m.started = true → Above (w'.StoredBefore s.conn.owed.began) w'.Got m.cursor)
    (book : w'.book = w.book.write s.conn m)
    (moved : w'.sessions = Function.update w.sessions k (some s'))
    (here : s'.Sound own w' k) (sameOwed : s'.conn.owed = s.conn.owed) : w'.Sound own where
  nowPos := lt_of_lt_of_le sound.nowPos later.now
  reached := sound.reached_later later
  noCrowd := crowd
  book := book ▸ (sound.book.later later).write
    ((sound.sessions k s isOpen).later later isOpen) (sound.agrees k s isOpen) unfinished honest
  sessions := sound.sessions_update later moved here
  agrees := by
    have sSound := sound.sessions k s isOpen
    apply sound.agrees_update moved
    · intro e other
      rw [book]
      exact Book.write_of_ne m (by rwa [sSound.key])
    · rw [book]
      exact Session.agrees_write sSound m sameOwed

theorem connect (sound : w.Sound own) {last : Int} {limit : Nat} (isOwn : k ∈ own)
    (notAhead : last ≤ w.now) (limitPos : 0 < limit) :
    (⟨w.book.connect k own last w.now, limit, false, .opened⟩ : Session κ).Sound own w k ∧
      (⟨w.book.connect k own last w.now, limit, false, .opened⟩ : Session κ).Agrees
        w.book k := by
  have owed := w.book.connect_owed last w.now isOwn
  have baseLe := w.book.connect_base_le_last last w.now isOwn
  have floorLe := w.book.connect_base_le_floor last w.now isOwn isOwn
  have nowPos := sound.nowPos
  constructor
  · rcases owed with ⟨-, isHeld, carries⟩ | ⟨-, afresh⟩
    · have began := sound.book.began_le k isHeld
      have floor := sound.book.floor_le k isHeld
      have positive : 0 < (w.book.holds k).began := by simpa [Hold.held] using isHeld
      exact ⟨isOwn, w.book.connect_key last w.now, w.book.connect_own last w.now isOwn,
        w.book.connect_twins last w.now, by rw [carries]; exact floorLe isHeld,
        by rw [carries]; exact floor, by rw [carries]; exact began,
        by rw [carries]; exact positive, limitPos, trivial, by simp⟩
    · exact ⟨isOwn, w.book.connect_key last w.now, w.book.connect_own last w.now isOwn,
        w.book.connect_twins last w.now, by rw [afresh], by rw [afresh]; simp only; omega,
        by rw [afresh], by rw [afresh]; exact nowPos, limitPos, trivial, by simp⟩
  · intro _ started
    rcases owed with ⟨-, -, carries⟩ | ⟨afresh, -⟩
    · rw [carries]
    · exact (afresh ⟨started, sound.book.marked k started⟩).elim

theorem done_sessions (sound : w.Sound own) (later : w.Later w' added)
    (sameStore : w'.store = w.store) (isOpen : w.sessions k = some s) {stepped : Bool}
    (clean : stepped = false → Covered w.Stored w'.Got s.conn.since)
    (moved : w'.sessions = fun e =>
      if e = k then some { s with phase := .caughtUp, passed := false }
      else (w.sessions e).map fun t =>
        { t with passed := t.passed ||
          (!stepped && t.phase.handsOver && decide (s.conn.base ≤ t.conn.base)) }) :
    ∀ e t, w'.sessions e = some t → t.Sound own w' e := by
  intro e t opened
  rw [moved] at opened
  dsimp only at opened
  split_ifs at opened with at_
  · subst at_
    rw [Option.some.injEq] at opened
    subst opened
    have after := (sound.sessions e s isOpen).later later isOpen
    have done : Phase.Sound w' s .caughtUp := trivial
    exact after.restart done
  · obtain ⟨before, wasOpen, rfl⟩ := Option.map_eq_some_iff.mp opened
    have after := (sound.sessions e before wasOpen).later later wasOpen
    refine { after with phase := ?_, passed := ?_ }
    · have here := after.phase
      cases at_ : before.phase <;> rw [at_] at here <;> exact here
    · intro passed hands
      simp only [Bool.or_eq_true, Bool.and_eq_true, Bool.not_eq_true', decide_eq_true_eq]
        at passed
      rcases passed with already | ⟨⟨unstepped, -⟩, lower⟩
      · exact after.passed already hands
      · intro ev stored inWindow
        have stored' : w.Stored ev := by
          obtain ⟨x, inStore, same⟩ := stored
          rw [sameStore] at inStore
          exact ⟨x, inStore, same⟩
        exact clean unstepped ev stored' (le_trans (Conn.since_mono lower) inWindow)

theorem pass (sound : w.Sound own) {got : List Event} {stepped : Bool}
    (grows : ∀ ev ∈ w.got, ev ∈ got) (isOpen : w.sessions k = some s)
    (clean : stepped = false → Covered w.Stored (fun ev => ev ∈ got) s.conn.since) :
    (World.done { w with got := got } k s stepped).Sound own := by
  have later : w.Later (World.done { w with got := got } k s stepped) [] :=
    ⟨le_rfl, by simp [World.done], grows, by simp, by simp⟩
  have sSound := sound.sessions k s isOpen
  exact
    { nowPos := sound.nowPos
      reached := sound.reached
      noCrowd := sound.noCrowd
      book := (sound.book.later later).done sSound.isOwn sSound.notTwin
      sessions := sound.done_sessions later rfl isOpen clean rfl
      agrees := by
        intro e t opened unfinished started
        simp only [World.done] at opened started ⊢
        split_ifs at opened with at_
        · rw [Option.some.injEq] at opened
          subst opened
          simp [Phase.unfinished] at unfinished
        · obtain ⟨before, wasOpen, rfl⟩ := Option.map_eq_some_iff.mp opened
          have other : e ≠ s.conn.key := by rwa [sSound.key]
          rw [Book.done_marks_of_ne sSound.isOwn other] at started
          rw [Book.done_holds_of_ne stepped sSound.isOwn other]
          split_ifs at started ⊢ with goes
          · simp [Mark.started] at started
          · exact sound.agrees e before wasOpen unfinished started }

theorem started (sound : w.Sound own) {anchor : Int} (notAhead : anchor ≤ w.now) :
    ({ w with book := w.book.start own anchor w.now } : World κ).Sound own := by
  have later : w.Later { w with book := w.book.start own anchor w.now } [] :=
    ⟨le_rfl, by simp, fun _ => id, by simp, by simp⟩
  refine ⟨sound.nowPos, sound.reached, sound.noCrowd,
    (sound.book.start sound.nowPos notAhead).later later, sound.sessions_later later rfl, ?_⟩
  intro e t isOpen unfinished isStarted
  simp only [Book.start_marks] at isStarted ⊢
  have isHeld := sound.book.marked e isStarted
  rw [← sound.agrees e t isOpen unfinished isStarted]
  rcases w.book.start_holds own anchor sound.nowPos e with same | lowered
  · rw [same]
  · rw [lowered]
    exact (Hold.start_of_held isHeld anchor w.now).1

end World.Sound

theorem above_firstMark {tracked got : Event → Prop} {m : Mark} {oldest : Int} (top : Int)
    (first : Above tracked got oldest)
    (walked : m.started = true → Above tracked got m.cursor) :
    ((Book.firstMark m oldest top).getD m).started = true →
      Above tracked got ((Book.firstMark m oldest top).getD m).cursor := by
  unfold Book.firstMark
  split_ifs with isStarted touches
  · intro _ ev isTracked newer
    simp only [Option.getD_some] at newer
    by_cases aboveFirst : oldest < ev.createdAt
    · exact first ev isTracked aboveFirst
    · exact walked isStarted ev isTracked (by omega)
  · exact walked
  · exact fun _ => first

omit [DecidableEq κ] in
theorem walking_of_full {m : Mark} {low : Int} (sameStore : w'.store = w.store)
    (grows : ∀ ev ∈ w.got, ev ∈ w'.got) (above : Above w.Stored w'.Got low)
    (honest : m.started = true → Above (w.StoredBefore s.conn.owed.began) w.Got m.cursor) :
    Phase.Sound w' s (.walking m low low {} catchupMaxPages) := by
  refine ⟨above.transfer (fun _ => id) fun ev tracked => Or.inl ?_, ?_, rfl,
    by simp [catchupMaxPages]⟩
  · obtain ⟨x, inStore, same⟩ := tracked.stored
    rw [sameStore] at inStore
    exact ⟨x, inStore, same⟩
  · intro started
    refine (honest started).transfer grows fun ev tracked => Or.inl ?_
    simpa [World.Tracked, started, World.StoredBefore, sameStore] using tracked

private theorem update_self_of_eq {w : World κ} (isOpen : w.sessions k = some s) :
    w.sessions = Function.update w.sessions k (some s) := by
  rw [← isOpen, Function.update_eq_self]

/-- Every step that crowds no second keeps the invariant. -/
theorem Step.sound (step : Step own w act w') (sound : w.Sound own)
    (uncrowded : act.Uncrowded w) : w'.Sound own := by
  obtain ⟨added, later⟩ := step.later
  cases step with
  | tick now | deliver ev => exact sound.idle later sound.noCrowd rfl rfl
  | reach x handed atNow live => exact sound.idle later uncrowded rfl rfl
  | start anchor notAhead => exact sound.started notAhead
  | connect k last limit isOwn closed notAhead limitPos =>
    obtain ⟨opened, agrees⟩ := sound.connect isOwn notAhead limitPos
    exact sound.move later sound.noCrowd rfl rfl { opened with phase := trivial, passed := by simp }
      agrees
  | answer k s evs isOpen phase sorted newest =>
    exact sound.rephase later isOpen (by rw [phase]; rfl) rfl rfl rfl (by simp [Phase.handsOver])
      ⟨le_rfl, sorted, newest, by simp, by simp [World.setSession]⟩
  | bring k s answer brought held ev isOpen phase next =>
    refine sound.rephase later isOpen (by rw [phase]; rfl) rfl rfl rfl (by simp [Phase.handsOver]) ?_
    have before := (sound.sessions k s isOpen).phase_later later isOpen
    rw [phase] at before
    obtain ⟨inside, sorted, newest, got, since⟩ := before
    refine ⟨inside, sorted, newest, ?_, since⟩
    intro sent member
    rw [List.take_add_one, next] at member
    rcases List.mem_append.mp member with early | last
    · exact got sent early
    · have : sent = ev := by simpa using last
      subst this
      exact List.mem_append_right _ (by simp)
  | keepFirst k s answer brought held isOpen phase =>
    have sSound := sound.sessions k s isOpen
    have unfinished : s.phase.unfinished = true := by rw [phase]; rfl
    have asked := sSound.phase
    rw [phase] at asked
    rw [Book.keepFirst_eq sSound.isOwn] at later ⊢
    split_ifs at later ⊢ with skips
    · exact sound.idle later sound.noCrowd rfl rfl
    · push Not at skips
      have honest := above_firstMark (w.now + 300)
        (above_firstBelow sSound.limitPos asked skips.1)
        (Session.honest sound.book (sound.agrees k s isOpen) unfinished)
      rw [← sSound.key] at honest
      exact sound.write later sound.noCrowd isOpen unfinished honest rfl
        (update_self_of_eq isOpen) (sSound.later later isOpen) rfl
  | short k s answer held isOpen phase isShort =>
    have sSound := sound.sessions k s isOpen
    have asked := sSound.phase
    rw [phase] at asked
    exact sound.pass (fun _ => List.mem_append_left _) isOpen
      (fun _ => covered_of_short sSound.limitPos asked isShort)
  | full k s answer held isOpen phase isFull =>
    have sSound := sound.sessions k s isOpen
    have unfinished : s.phase.unfinished = true := by rw [phase]; rfl
    have asked := sSound.phase
    rw [phase] at asked
    have above := above_of_full sSound.limitPos asked isFull
    have sameMark : (w.book.owe s.conn).marks k = w.book.marks k := by
      rw [Book.owe_eq sSound.isOwn]
      split_ifs
      · rfl
      · rw [← sSound.key, Book.write_marks_self]
    have honest := Session.honest sound.book (sound.agrees k s isOpen) unfinished
    have grows : ∀ ev ∈ w.got, ev ∈ w.got ++ (w.store.drop held).map Wrap.toEvent :=
      fun ev => List.mem_append_left _
    rw [sameMark] at later ⊢
    have walking := (sSound.later later isOpen).restart
      (walking_of_full (w := w) rfl grows above honest)
    cases isCovered : w.book.covered s.conn with
    | true =>
      have same : w.book.owe s.conn = w.book := by
        rw [Book.owe_eq sSound.isOwn, if_pos isCovered]
      exact sound.move later sound.noCrowd same rfl walking
        fun _ => sound.agrees k s isOpen unfinished
    | false =>
      have writes : w.book.owe s.conn = w.book.write s.conn (w.book.marks k) := by
        rw [Book.owe_eq sSound.isOwn, if_neg (by simp [isCovered]), sSound.key]
      exact sound.write later sound.noCrowd isOpen unfinished
        (fun started => (honest started).transfer grows fun _ => .inl) writes rfl
        walking rfl
  | exhausted k s m origin upto res isOpen phase =>
    refine sound.rephase later isOpen (by rw [phase]; rfl) rfl rfl rfl
      (fun _ _ => by rw [phase]; rfl) ?_
    have before := (sound.sessions k s isOpen).phase_later later isOpen
    rw [phase] at before
    exact walked_of_exhausted before
  | stop k s m origin upto res res' left ended isOpen phase stops =>
    refine sound.rephase later isOpen (by rw [phase]; rfl) rfl rfl rfl
      (fun _ _ => by rw [phase]; rfl) ?_
    have before := (sound.sessions k s isOpen).phase_later later isOpen
    rw [phase] at before
    exact walked_of_stop before stops
  | page k s m origin upto res res' left pageSince upto' above held page fresh isOpen phase
      asks snapshot since pageOf =>
    refine sound.rephase later isOpen (by rw [phase]; rfl) rfl rfl rfl
      (fun _ _ => by rw [phase]; rfl) ?_
    have before := (sound.sessions k s isOpen).phase
    rw [phase] at before
    exact after_sound fresh sound.noCrowd before asks snapshot since pageOf
  | done k s m origin res isOpen phase complete =>
    have walked := (sound.sessions k s isOpen).phase
    rw [phase] at walked
    refine sound.pass (fun _ => id) isOpen ?_
    intro unstepped
    refine (walked.1 complete).transfer (fun _ => id) fun ev stored => .inl ?_
    simpa [World.Tracked, unstepped] using stored
  | cut k s m origin res isOpen phase incomplete =>
    have sSound := sound.sessions k s isOpen
    have unfinished : s.phase.unfinished = true := by rw [phase]; rfl
    have walked := sSound.phase
    rw [phase] at walked
    have atStop : Phase.stopped.handsOver = true → s.passed = true →
        s.phase.handsOver = true := by simp [Phase.handsOver]
    have here := (sSound.later later isOpen).move (by exact trivial) atStop
    cases isCovered : w.book.covered s.conn with
    | true =>
      have same : w.book.cut s.conn (markAfter origin m res) = w.book := by
        rw [Book.cut_eq sSound.isOwn, if_pos isCovered]
      exact sound.move later sound.noCrowd same rfl here
        (by simp [Session.Agrees, Phase.unfinished])
    | false =>
      have writes : w.book.cut s.conn (markAfter origin m res) = w.book.write s.conn
          (if (markAfter origin m res).started then markAfter origin m res
            else w.book.marks k) := by
        rw [Book.cut_eq sSound.isOwn, if_neg (by simp [isCovered]), sSound.key]
      refine sound.write later sound.noCrowd isOpen unfinished
        (fun started => ?_) writes rfl here rfl
      change Above (w.StoredBefore s.conn.owed.began) w.Got _
      split_ifs at started ⊢
      · rw [markAfter, if_neg (by simp [incomplete])]
        exact walked.2 incomplete
      · exact Session.honest sound.book (sound.agrees k s isOpen) unfinished started
  | drop k s isOpen may =>
    have remaining : ∀ e t, Function.update w.sessions k none e = some t → w.sessions e = some t :=
      (Function.forall_update_iff w.sessions
        fun e found => ∀ t, found = some t → w.sessions e = some t).mpr
        ⟨by simp, fun _ _ _ => id⟩
    refine ⟨sound.nowPos, sound.reached, sound.noCrowd, sound.book.later later, ?_, ?_⟩
    · intro e t opened
      have wasOpen := remaining e t opened
      exact (sound.sessions e t wasOpen).later later wasOpen
    · intro e t opened
      exact sound.agrees e t (remaining e t opened)

end Kryfo.Catchup
