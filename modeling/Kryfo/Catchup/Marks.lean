import Kryfo.Catchup.World

/-!
# Marks stay sound in every interleaving

Whatever the entries do, a mark is honest about what had reached the store before its hold began:
all of it above the mark's cursor is in.  A walk under way is tracked the same way.
-/

namespace Kryfo.Catchup

open Library List

section FirstAnswer

private theorem foldl_add_stamps {limit : Nat} (positive : 0 < limit) (evs : List Event)
    (a : Answer) (sameLimit : a.limit = limit)
    (few : a.stamps.length + evs.length ≤ limit) :
    evs.foldl (fun a ev => a.add ev.createdAt) a =
      ⟨limit, a.stamps ++ evs.map Event.createdAt⟩ := by
  induction evs generalizing a with
  | nil => simp [← sameLimit]
  | cons head evs ih =>
    have room : ¬ (0 < a.limit ∧ 2 * a.limit ≤ (a.stamps ++ [head.createdAt]).length) := by
      simp only [length_append, length_cons, length_nil] at few ⊢
      omega
    have added : a.add head.createdAt = ⟨limit, a.stamps ++ [head.createdAt]⟩ := by
      rw [Answer.add, if_neg room, ← sameLimit]
    rw [foldl_cons, added, ih _ rfl (by simp at few ⊢; omega)]
    simp

variable {evs : List Event}

theorem firstBelow_eq {limit : Nat} (positive : 0 < limit) (few : evs.length ≤ limit) :
    firstBelow limit evs = below (evs.map Event.createdAt) limit := by
  rw [firstBelow, foldl_add_stamps positive evs (newAnswer limit) rfl (by simpa [newAnswer])]
  simp [Answer.below, newAnswer]

private theorem foldl_oldest (evs : List Event) (positive : ∀ ev ∈ evs, 0 < ev.createdAt)
    (oldest : Int) (start : 0 ≤ oldest) :
    0 ≤ evs.foldl (fun oldest ev =>
        if oldest = 0 ∨ ev.createdAt < oldest then ev.createdAt else oldest) oldest ∧
      (evs.foldl (fun oldest ev =>
        if oldest = 0 ∨ ev.createdAt < oldest then ev.createdAt else oldest) oldest = 0 →
        oldest = 0 ∧ evs = []) := by
  induction evs generalizing oldest with
  | nil => simp [start]
  | cons head evs ih =>
    have headPos := positive head (by simp)
    have rest := ih (fun ev member => positive ev (by simp [member]))
      (if oldest = 0 ∨ head.createdAt < oldest then head.createdAt else oldest)
      (by split_ifs <;> omega)
    refine ⟨rest.1, ?_⟩
    intro zero
    have := (rest.2 zero).1
    split_ifs at this with lower <;> omega

theorem eq_nil_of_oldestOf_eq_zero (positive : ∀ ev ∈ evs, 0 < ev.createdAt)
    (zero : oldestOf evs = 0) : evs = [] :=
  ((foldl_oldest evs positive 0 (le_refl 0)).2 zero).2

theorem isFront_take_of_isFront {items : List Event} (count : Nat)
    (sorted : evs.Pairwise fun first second => second.createdAt ≤ first.createdAt)
    (isFront : IsFront Event.createdAt evs items) :
    IsFront Event.createdAt (evs.take count) items := by
  obtain ⟨rest, perm, older⟩ := isFront
  refine ⟨evs.drop count ++ rest, ?_, ?_⟩
  · rwa [← append_assoc, take_append_drop]
  · intro sent sentMem left leftMem
    rcases mem_append.mp leftMem with dropped | inRest
    · rw [← take_append_drop count evs] at sorted
      exact (pairwise_append.mp sorted).2.2 sent sentMem left dropped
    · exact older sent (mem_of_mem_take sentMem) left inRest

end FirstAnswer

variable {κ : Type*}

variable {ev : Event} {c : Conn κ}

theorem Conn.since_le_of_base_le (positive : 0 < ev.createdAt)
    (inWindow : c.base ≤ ev.createdAt + 43200) : c.since ≤ ev.createdAt := by
  unfold Conn.since
  split_ifs <;> omega

theorem Conn.since_mono {c' : Conn κ} (lower : c.base ≤ c'.base) : c.since ≤ c'.since := by
  unfold Conn.since
  split_ifs <;> omega

namespace World

def Stored (w : World κ) (ev : Event) : Prop := ∃ x ∈ w.store, x.toEvent = ev

def StoredBefore (w : World κ) (t : Int) (ev : Event) : Prop :=
  ∃ x ∈ w.store, x.toEvent = ev ∧ x.reached < t

/-- What a walk that reads `m` answers for: what had reached the store before its hold began when it
steps over a stretch, else all. -/
def Tracked (w : World κ) (c : Conn κ) (m : Mark) (ev : Event) : Prop :=
  if m.started then w.StoredBefore c.owed.began ev else w.Stored ev

def Got (w : World κ) (ev : Event) : Prop := ev ∈ w.got

variable {w : World κ}

theorem StoredBefore.tracked (m : Mark) (before : w.StoredBefore c.owed.began ev) :
    w.Tracked c m ev := by
  obtain ⟨x, inStore, same, earlier⟩ := before
  unfold Tracked
  split_ifs
  · exact ⟨x, inStore, same, earlier⟩
  · exact ⟨x, inStore, same⟩

theorem Tracked.stored {m : Mark} (tracked : w.Tracked c m ev) : w.Stored ev := by
  unfold Tracked at tracked
  split_ifs at tracked
  · obtain ⟨x, inStore, same, -⟩ := tracked
    exact ⟨x, inStore, same⟩
  · exact tracked

theorem Stored.positive (stored : w.Stored ev) : 0 < ev.createdAt := by
  obtain ⟨x, -, rfl⟩ := stored
  exact x.positive

/-- Time has passed: the store and what the phone has grew, and what came while a connection was
handing over is in. -/
structure Later (w w' : World κ) (added : List Wrap) : Prop where
  now : w.now ≤ w'.now
  store : w'.store = w.store ++ added
  got : ∀ ev ∈ w.got, ev ∈ w'.got
  reached : ∀ x ∈ added, x.reached = w.now
  live : ∀ x ∈ added, w.Live x → x.toEvent ∈ w'.got

theorem Later.storedBefore {w' : World κ} {added : List Wrap} (later : w.Later w' added) {t : Int}
    (past : t ≤ w.now) (before : w'.StoredBefore t ev) : w.StoredBefore t ev := by
  obtain ⟨x, inStore, same, earlier⟩ := before
  rw [later.store] at inStore
  rcases mem_append.mp inStore with old | isNew
  · exact ⟨x, old, same, earlier⟩
  · have := later.reached x isNew
    omega

end World

/-- What a connection took, and what of its window it has been handed. -/
def Phase.Sound (w : World κ) (s : Session κ) : Phase → Prop
  | .opened => True
  | .asked answer brought held =>
    held ≤ w.store.length ∧
    answer.Pairwise (fun first second => second.createdAt ≤ first.createdAt) ∧
    IsNewest Event.createdAt s.limit answer (w.window s.conn held) ∧
    (∀ ev ∈ answer.take brought, w.Got ev) ∧
    ∀ x ∈ w.store.drop held, s.conn.owed.began ≤ x.reached
  | .walking m _ upto res left =>
    Above (w.Tracked s.conn m) w.Got upto ∧
    (m.started = true → Above (w.Tracked s.conn m) w.Got m.cursor) ∧
    res.complete = false ∧ (left = 0 → res.untilAt = upto)
  | .walked m _ res =>
    (res.complete = true → Covered (w.Tracked s.conn m) w.Got s.conn.since) ∧
    (res.complete = false → Above (w.StoredBefore s.conn.owed.began) w.Got res.untilAt)
  | .caughtUp => True
  | .stopped => True

variable [DecidableEq κ] {own : List κ}

structure Session.Sound (own : List κ) (w : World κ) (k : κ) (s : Session κ) : Prop where
  mem : k ∈ own
  key : s.conn.key = k
  isOwn : s.conn.own = true
  twins : s.conn.twins = own.filter fun e => e ≠ k
  base_le : s.conn.base ≤ s.conn.owed.floor
  floor_le : s.conn.owed.floor ≤ s.conn.owed.began
  began_le : s.conn.owed.began ≤ w.now
  began_pos : 0 < s.conn.owed.began
  limitPos : 0 < s.limit
  phase : s.phase.Sound w s
  passed : s.passed = true → s.phase.handsOver = true → Covered w.Stored w.Got s.conn.since

/-- A book's holds began before now, and its marks stand under a hold and are honest. -/
structure Book.Sound (w : World κ) (b : Book κ) : Prop where
  floor_le : ∀ k, (b.holds k).held = true → (b.holds k).floor ≤ (b.holds k).began
  began_le : ∀ k, (b.holds k).held = true → (b.holds k).began ≤ w.now
  marked : ∀ k, (b.marks k).started = true → (b.holds k).held = true
  marks : ∀ k, (b.marks k).started = true →
    Above (w.StoredBefore (b.holds k).began) w.Got (b.marks k).cursor

/-- A connection that may still write to the book began when the hold of its
entry's mark did. -/
def Session.Agrees (b : Book κ) (k : κ) (s : Session κ) : Prop :=
  s.phase.unfinished = true → (b.marks k).started = true → (b.holds k).began = s.conn.owed.began

structure World.Sound (own : List κ) (w : World κ) : Prop where
  nowPos : 0 < w.now
  reached : ∀ x ∈ w.store, x.reached ≤ w.now
  noCrowd : NoCrowd (w.store.map Wrap.toEvent) catchupPage
  book : w.book.Sound w
  sessions : ∀ k s, w.sessions k = some s → s.Sound own w k
  agrees : ∀ k s, w.sessions k = some s → s.Agrees w.book k

namespace Session.Sound

variable {w w' : World κ} {k : κ} {s : Session κ} {added : List Wrap}

theorem since_le (sound : s.Sound own w k) {x : Wrap} (reached : x.reached = w.now) :
    s.conn.since ≤ x.createdAt := by
  have := sound.base_le
  have := sound.floor_le
  have := sound.began_le
  have := x.jittered
  have := x.positive
  unfold Conn.since
  split_ifs <;> omega

theorem stored_later (sound : s.Sound own w k) (later : w.Later w' added)
    (isOpen : w.sessions k = some s) (hands : s.phase.handsOver = true) (stored : w'.Stored ev) :
    w.Stored ev ∨ w'.Got ev := by
  obtain ⟨x, inStore, rfl⟩ := stored
  rw [later.store] at inStore
  rcases mem_append.mp inStore with old | isNew
  · exact .inl ⟨x, old, rfl⟩
  · exact .inr (later.live x isNew
      ⟨k, s, isOpen, hands, sound.since_le (later.reached x isNew)⟩)

theorem tracked_later (sound : s.Sound own w k) (later : w.Later w' added)
    (isOpen : w.sessions k = some s) (hands : s.phase.handsOver = true) (m : Mark)
    (tracked : w'.Tracked s.conn m ev) : w.Tracked s.conn m ev ∨ w'.Got ev := by
  unfold World.Tracked at tracked ⊢
  split_ifs at tracked ⊢ with started
  · exact .inl (later.storedBefore sound.began_le tracked)
  · exact sound.stored_later later isOpen hands tracked

theorem phase_later (sound : s.Sound own w k) (later : w.Later w' added)
    (isOpen : w.sessions k = some s) : s.phase.Sound w' s := by
  have before := sound.phase
  have tracked := fun hands m ev (known : w'.Tracked s.conn m ev) =>
    sound.tracked_later later isOpen hands m known
  cases at_ : s.phase with
  | opened | caughtUp | stopped => trivial
  | asked answer brought held =>
    rw [at_] at before
    obtain ⟨inside, sorted, newest, got, since⟩ := before
    refine ⟨?_, sorted, ?_, fun ev member => later.got ev (got ev member), ?_⟩
    · rw [later.store, length_append]
      omega
    · rwa [World.window, later.store, take_append_of_le_length inside]
    · intro x member
      rw [later.store, drop_append_of_le_length inside] at member
      rcases mem_append.mp member with old | isNew
      · exact since x old
      · rw [later.reached x isNew]
        exact sound.began_le
  | walking m origin upto res left =>
    rw [at_] at before
    obtain ⟨above, walked, open_, resumes⟩ := before
    have known := tracked (by rw [at_]; rfl) m
    exact ⟨above.transfer later.got known,
      fun started => (walked started).transfer later.got known, open_, resumes⟩
  | walked m origin res =>
    rw [at_] at before
    refine ⟨?_, ?_⟩
    · intro complete
      exact (before.1 complete).transfer later.got
        (tracked (by rw [at_]; exact complete) m)
    · intro incomplete
      exact (before.2 incomplete).transfer later.got fun ev stored =>
        .inl (later.storedBefore sound.began_le stored)

theorem later (sound : s.Sound own w k) (later : w.Later w' added)
    (isOpen : w.sessions k = some s) : s.Sound own w' k :=
  { sound with
    began_le := le_trans sound.began_le later.now
    phase := sound.phase_later later isOpen
    passed := fun passed hands => (sound.passed passed hands).transfer later.got fun _ stored =>
      sound.stored_later later isOpen hands stored }

theorem move {phase : Phase} (sound : s.Sound own w k) (here : phase.Sound w s)
    (hands : phase.handsOver = true → s.passed = true → s.phase.handsOver = true) :
    ({ s with phase := phase } : Session κ).Sound own w k :=
  { sound with
    phase := by cases phase <;> exact here
    passed := fun passed handsNow => sound.passed passed (hands handsNow passed) }

theorem restart {phase : Phase} (sound : s.Sound own w k) (here : phase.Sound w s) :
    ({ s with passed := false, phase := phase } : Session κ).Sound own w k :=
  { sound with
    phase := by cases phase <;> exact here
    passed := fun isPassed => by simp at isPassed }

end Session.Sound

end Kryfo.Catchup
