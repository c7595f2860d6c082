import Kryfo.Library.Run
import Kryfo.Media.Slices

/-!
# What a send and the record of it say

A send that says ok has every slice across, and the record that is kept names only slices of the
present bytes that a route took.
-/

namespace Kryfo.Media

open Library List

namespace Send

structure Same (w : Nat) (s s' : Send) : Prop where
  asked : s'.asked = s.asked
  file : s'.file = s.file
  total : s'.total = s.total
  record : s'.record = s.record
  others : ∀ w', w' ≠ w → s'.phase w' = s.phase w'

namespace Same

variable {w i : Nat} {s s' s'' : Send} {a : Answer}

theorem trans (first : Same w s s') (second : Same w s' s'') : Same w s s'' where
  asked := second.asked.trans first.asked
  file := second.file.trans first.file
  total := second.total.trans first.total
  record := second.record.trans first.record
  others := fun w' other => (second.others w' other).trans (first.others w' other)

theorem put {s₁ : Send} {p : Phase} (asked : s₁.asked = s.asked) (file : s₁.file = s.file)
    (total : s₁.total = s.total) (record : s₁.record = s.record) (phase : s₁.phase = s.phase) :
    Same w s (s₁.put w p) :=
  ⟨asked, file, total, record, fun w' other =>
    (phase_put_of_ne other).trans (congrFun phase w')⟩

theorem atTop : Same w s (s.atTop w a) := by
  unfold Send.atTop
  repeat' split
  all_goals exact put rfl rfl rfl rfl rfl

theorem takeChunk : Same w s (s.takeChunk w) := by
  unfold Send.takeChunk
  dsimp only
  repeat' split
  all_goals exact put rfl rfl rfl rfl rfl

theorem sliceFailed {err : String} : Same w s (s.sliceFailed w i err) := by
  unfold Send.sliceFailed
  dsimp only
  split
  all_goals exact put rfl rfl rfl rfl rfl

theorem landed : Same w s (s.landed w i a) := by
  have top : Same w s ({ s with
      done := s.done.insert i
      stamp := if s.asked.only = none then some a.now else s.stamp }.put w .top) :=
    put rfl rfl rfl rfl rfl
  exact top.trans atTop

theorem byRelay {n : Nat} {err : String} : Same w s (s.byRelay w i n err a) := by
  unfold Send.byRelay
  dsimp only
  repeat' split
  all_goals exact put rfl rfl rfl rfl rfl

theorem withKey {n : Nat} {err : String} : Same w s (s.withKey w i n err a) := by
  unfold Send.withKey
  split
  · exact put rfl rfl rfl rfl rfl
  · exact byRelay

theorem attempt {n : Nat} {err : String} : Same w s (s.attempt w i n err a) := by
  unfold Send.attempt
  split
  · exact sliceFailed
  split
  · exact put rfl rfl rfl rfl rfl
  · exact withKey

theorem after (later : Same w s' s'') (asked : s'.asked = s.asked) (file : s'.file = s.file)
    (total : s'.total = s.total) (record : s'.record = s.record) (phase : s'.phase = s.phase) :
    Same w s s'' :=
  (⟨asked, file, total, record, fun w' _ => congrFun phase w'⟩ : Same w s s').trans later

theorem copiedLanded : Same w s ((s.copied i a).landed w i a) := by
  unfold Send.copied
  split
  · exact landed.after rfl rfl rfl rfl rfl
  · exact landed

theorem onRelay : Same w s (s.onRelay w i a) := by
  unfold Send.onRelay
  split
  · exact put rfl rfl rfl rfl rfl
  · exact landed.after rfl rfl rfl rfl rfl

theorem resume : Same w s (s.resume w a) := by
  have still : Same w s s := ⟨rfl, rfl, rfl, rfl, fun _ _ => rfl⟩
  cases here : s.phase w with
  | top | resting => rw [Send.resume, here]; exact atTop
  | asking =>
    rw [Send.resume, here]
    dsimp only
    split
    · split
      all_goals exact put rfl rfl rfl rfl rfl
    · exact takeChunk
  | askingHere | reading i =>
    rw [Send.resume, here]
    dsimp only
    split
    all_goals exact put rfl rfl rfl rfl rfl
  | sealing i =>
    rw [Send.resume, here]
    dsimp only
    split
    · exact attempt
    all_goals exact put rfl rfl rfl rfl rfl
  | onion i n err =>
    rw [Send.resume, here]
    dsimp only
    split
    · split
      · exact put rfl rfl rfl rfl rfl
      · exact copiedLanded.after rfl rfl rfl rfl rfl
    · exact withKey.after rfl rfl rfl rfl rfl
  | onionKey i => rw [Send.resume, here]; exact copiedLanded.after rfl rfl rfl rfl rfl
  | key i n err => rw [Send.resume, here]; exact byRelay.after rfl rfl rfl rfl rfl
  | firstContact i n err =>
    rw [Send.resume, here]
    dsimp only
    split
    · exact landed.after rfl rfl rfl rfl rfl
    · exact put rfl rfl rfl rfl rfl
  | relay i n err =>
    rw [Send.resume, here]
    dsimp only
    split
    · split
      · exact put rfl rfl rfl rfl rfl
      · exact onRelay
    · exact put rfl rfl rfl rfl rfl
  | pair i => rw [Send.resume, here]; exact onRelay.after rfl rfl rfl rfl rfl
  | pausing i n err => rw [Send.resume, here]; exact attempt
  | ended | threw => rw [Send.resume, here]; exact still

theorem throws : Same w s (s.throws w) := by
  unfold Send.throws
  split
  all_goals first
    | exact put rfl rfl rfl rfl rfl
    | exact ⟨rfl, rfl, rfl, rfl, fun _ _ => rfl⟩

end Same

/-- A send that is over and says ok: nothing stopped it, and every slice is across
or was there. -/
theorem Sound.complete {s : Send} (sound : Sound s) (isOver : s.isOver = true)
    (outside : ∀ w, s.pool ≤ w → s.phase w = .top) (ok : s.result = some .ok) :
    ∀ i < s.total, i ∈ s.began ∨ i ∈ taken s.takes := by
  have quiet : s.threwUp = false ∧ s.blocked = false ∧ s.parked = false ∧ s.failure = none := by
    unfold Send.result at ok
    split at ok
    · cases ok
    split at ok
    · cases ok
    split at ok
    · cases ok
    split at ok
    · cases ok
    next unthrown unblocked unparked _ unfailed =>
      exact ⟨by simpa using unthrown, by simpa using unblocked, by simpa using unparked, unfailed⟩
  obtain ⟨unthrown, unblocked, unparked, unfailed⟩ := quiet
  have ended (w : Nat) (inside : w < s.pool) : s.phase w = .ended := by
    have both := all_eq_true.mp isOver w (mem_range.mpr inside)
    have not := any_eq_false.mp unthrown w (mem_range.mpr inside)
    exact (of_decide_eq_true both).resolve_right (by simpa using not)
  have free (w : Nat) : s.phase w ≠ .threw ∧ (s.phase w).hand = none := by
    rcases Nat.lt_or_ge w s.pool with inside | past
    · rw [ended w inside]
      exact ⟨nofun, rfl⟩
    · rw [outside w past]
      exact ⟨nofun, rfl⟩
  have calm : s.Calm := ⟨unfailed, unparked, unblocked, fun w => (free w).1⟩
  obtain ⟨w, inside, runs⟩ | ⟨queue, past⟩ := sound.ends calm
  · exact absurd (ended w inside) runs
  · exact (sound.covers calm).complete queue (fun w => (free w).2) past

structure Sent (s : Send) (result : Option Result) : Prop where
  counted : s.total = mediaSliceCount s.file.length
  all : result = some .ok → ∀ i < s.total, i ∈ s.began ∨ i ∈ taken s.takes
  once : (taken s.takes).Nodup
  takes : s.takes.Nodup
  copies : ∀ i, (i, Route.copy) ∈ s.takes → (i, Route.onion) ∈ s.takes

end Send

namespace Row

structure Sound (row : Row) : Prop where
  record : ∀ i ∈ row.chunkDone.getD [], (row.file, i) ∈ row.takes
  sending : ∀ s ∈ row.sending, s.Sound ∧ s.file = row.file ∧
    s.total = mediaSliceCount s.file.length ∧ (∀ w, s.pool ≤ w → s.phase w = .top) ∧
    ∀ i ∈ s.record, (row.file, i) ∈ row.takes
  ended : ∀ e ∈ row.ended, e.1.Sent e.2

namespace Sound

variable {row : Row}

theorem refuse (sound : Sound row) (result : Result) : Sound (row.refuse result) :=
  ⟨sound.record, sound.sending, sound.ended⟩

theorem fresh {s : Send} (next : s.next = 0) (queue : s.retryQueue = []) (takes : s.takes = [])
    (done : s.done = s.began) (phase : s.phase = fun _ => .top) (some_ : 0 < s.total) :
    s.Sound where
  once := by
    have dealt : s.deal = ⟨0, [], fun _ => none, []⟩ := by
      simp [Send.deal, next, queue, takes, phase, Phase.hand, Send.taken]
    rw [dealt]
    exact Deal.Once.first
  takes := takes ▸ .nil
  copies := by simp [takes]
  done := fun i member => .inl (done ▸ member)
  landing := by simp [phase]
  covers := fun _ i _ => .inr (.inr (.inr (.inr (by simp [Send.deal, next]))))
  ends := fun _ => .inl ⟨0, Nat.lt_min.mpr ⟨by decide, some_⟩, by simp [phase]⟩

theorem spawn (sound : Sound row) {asked : Asked} {now : Int}
    (some_ : mediaSliceCount row.file.length ≠ 0) : Sound (row.spawn asked now) := by
  have positive : 0 < mediaSliceCount row.file.length := Nat.pos_of_ne_zero some_
  have trusted : ∀ i ∈ row.trusted now, (row.file, i) ∈ row.takes := by
    unfold Row.trusted
    split
    · nofun
    · exact sound.record
  unfold Row.spawn
  split
  next only given =>
    refine ⟨sound.record, fun s started => ?_, sound.ended⟩
    obtain rfl := Option.some.inj started
    refine ⟨fresh rfl rfl rfl ?_ rfl positive, rfl, rfl, fun _ _ => rfl, nofun⟩
    simp [Send.began, given]
  next given =>
    refine ⟨trusted, fun s started => ?_, sound.ended⟩
    obtain rfl := Option.some.inj started
    refine ⟨fresh rfl rfl rfl ?_ rfl positive, rfl, rfl, fun _ _ => rfl, trusted⟩
    simp [Send.began, given]

theorem counted (sound : Sound row) {asked : Asked} {found : Start} :
    Sound (row.counted asked found) := by
  unfold Row.counted
  split
  · exact sound.refuse .read
  split
  · exact sound.refuse .empty
  next some_ => exact sound.spawn some_

theorem start (sound : Sound row) {asked : Asked} {found : Start} :
    Sound (row.start asked found) := by
  unfold Row.start
  split
  · exact sound.refuse .busy
  next free =>
    split
    · exact sound.refuse .torNotReady
    split
    · exact sound.refuse .notClean
    next file _ _ =>
      have idle : row.sending = none := by simpa using free
      have cleaned : Sound { row with file, chunkDone := none } :=
        ⟨nofun, by simp [idle], sound.ended⟩
      split
      · exact cleaned.refuse .changed
      · exact cleaned.counted
    · exact sound.counted

theorem worker (sound : Sound row) {s s' : Send} {w : Nat} (running : row.sending = some s)
    (inside : w < s.pool) (same : Send.Same w s s') (kept : s.Sound → s'.Sound) :
    Sound { row with sending := some s' } := by
  obtain ⟨inner, file, total, outside, record⟩ := sound.sending s running
  refine ⟨sound.record, fun s'' now => ?_, sound.ended⟩
  obtain rfl := Option.some.inj now
  have pool : s'.pool = s.pool := by rw [Send.pool, same.total]; rfl
  refine ⟨kept inner, same.file.trans file, ?_, fun w' past => ?_, ?_⟩
  · rw [same.total, same.file]
    exact total
  · rw [pool] at past
    rw [same.others w' (by omega)]
    exact outside w' past
  · rw [same.record]
    exact record

theorem finish (sound : Sound row) {s : Send} (running : row.sending = some s)
    (isOver : s.isOver = true) : Sound (row.finish s) := by
  obtain ⟨inner, file, total, outside, record⟩ := sound.sending s running
  have sent : s.Sent s.result :=
    ⟨total, inner.complete isOver outside, inner.once.finished, inner.takes, inner.copies⟩
  have ended : ∀ e ∈ (s, s.result) :: row.ended, e.1.Sent e.2 := by
    intro e member
    rcases mem_cons.mp member with rfl | before
    · exact sent
    · exact sound.ended e before
  have earlier {t : Bytes × Nat} (before : t ∈ row.takes) : t ∈
      ((s.takes.filter fun t => t.2 ≠ .copy).map fun t => (s.file, t.1)) ++ row.takes :=
    mem_append_right _ before
  unfold Row.finish
  split
  · exact ⟨fun i member => earlier (sound.record i member), by simp, ended⟩
  next whole =>
    split
    · exact ⟨by simp, by simp, ended⟩
    · refine ⟨fun i member => ?_, by simp, ended⟩
      have began : s.began = s.record := by simp [Send.began, not_not.mp whole]
      rcases inner.done i member with old | new
      · exact earlier (record i (began ▸ old))
      · obtain ⟨r, route, took⟩ := Send.mem_taken.mp new
        refine mem_append_left _ (mem_map.mpr ⟨(i, r), ?_, by rw [file]⟩)
        exact mem_filter.mpr ⟨took, by simpa using route⟩

theorem next (sound : Sound row) (act : Act) : Sound (row.next act) := by
  cases act with
  | start asked found => exact sound.start
  | resume w a =>
    rw [Row.next]
    split
    next s running =>
      split
      next inside => exact sound.worker running inside .resume fun inner => inner.resume inside
      · exact sound
    · exact sound
  | throws w =>
    rw [Row.next]
    split
    next s running =>
      split
      next inside => exact sound.worker running inside .throws fun inner => inner.throws
      · exact sound
    · exact sound
  | finish =>
    rw [Row.next]
    split
    next s running =>
      split
      next isOver => exact sound.finish running isOver
      · exact sound
    · exact sound

end Sound

end Row

abbrev Sends (file : Bytes) : Row → Prop :=
  Run (fun row act row' => row' = row.next act) (fun _ _ => True) { file }

theorem Sends.sound {file : Bytes} {row : Row} (run : Sends file row) : row.Sound :=
  run.invariant Row.Sound ⟨by simp, by simp, by simp⟩
    fun {_ _ _} sound _ taken => taken ▸ sound.next _

/-- The slices of a file, one after another, are the file. -/
theorem flatMap_mediaSlice (file : Bytes) :
    (List.range (mediaSliceCount file.length)).flatMap (mediaSlice file) = file := by
  have upTo (n : Nat) : (List.range n).flatMap (mediaSlice file) = file.take (n * sliceBytes) := by
    induction n with
    | zero => simp
    | succ n ih =>
      rw [range_succ, flatMap_append, ih, flatMap_singleton, mediaSlice,
        Nat.succ_mul, List.take_add]
  rw [upTo, take_of_length_le]
  unfold mediaSliceCount sliceBytes
  omega

/-- In every run of sends: a send that says ok has every slice of the file taken by
a route, unless it was in the record the send began with or was not asked for; no
slice is taken twice, the copy behind a slice the onion took apart; and the record
that is kept names only slices a route took of the bytes the file has now. -/
theorem sends_everything {file : Bytes} {row : Row} (run : Sends file row) :
    (∀ s, (s, some Result.ok) ∈ row.ended →
      (List.range s.total).flatMap (mediaSlice s.file) = s.file ∧
      ∀ i < s.total, (∃ r, r ≠ Route.copy ∧ (i, r) ∈ s.takes) ∨ i ∈ s.record ∨
        ∃ only, s.asked.only = some only ∧ i ∉ only) ∧
    (∀ s result, (s, result) ∈ row.ended →
      ((s.takes.filter fun t => t.2 ≠ Route.copy).map Prod.fst).Nodup ∧ s.takes.Nodup ∧
      ∀ i, (i, Route.copy) ∈ s.takes → (i, Route.onion) ∈ s.takes) ∧
    ∀ i ∈ row.chunkDone.getD [], (row.file, i) ∈ row.takes := by
  have sound := run.sound
  refine ⟨fun s ended => ⟨?_, fun i small => ?_⟩, fun s result ended => ?_, sound.record⟩
  · rw [(sound.ended _ ended).counted]
    exact flatMap_mediaSlice s.file
  · rcases (sound.ended _ ended).all rfl i small with began | took
    · refine .inr ?_
      unfold Send.began at began
      split at began
      · exact .inl began
      next only given => exact .inr ⟨only, given, by simpa using (mem_filter.mp began).2⟩
    · exact .inl (Send.mem_taken.mp took)
  · have sent := sound.ended _ ended
    exact ⟨sent.once, sent.takes, sent.copies⟩

theorem sends_foldl (file : Bytes) (acts : List Act) : Sends file (acts.foldl Row.next { file }) :=
  Run.of_allowed Row.next _ (allowed_of_forall fun _ _ _ => trivial)

def stranger : Asked where
  backPaired := false
  hasOnion := true
  photo := false
  only := none
  asksBlockedHere := false
  peerXPub := some "key"

def oneSlice (answer : Answer) : List Act :=
  [.start stranger {}, .resume 0 {}, .resume 0 { yes := false }, .resume 0 {}, .resume 0 {},
    .resume 0 answer, .resume 0 { yes := false }, .finish]

/-- A send that is called off, and one that goes through. -/
def sentAgain : List Act :=
  [.start stranger {}, .resume 0 { cancelled := true }, .finish] ++ oneSlice {}

theorem sends_everything_sentAgain :
    let row := sentAgain.foldl Row.next { file := [7] }
    row.ended.map (fun e => (e.1.takes, e.2)) =
        [([(0, .onion)], some .ok), ([], some (.failed .cancelled))] ∧
      ∀ i ∈ row.chunkDone.getD [], (row.file, i) ∈ row.takes :=
  ⟨by decide, (sends_everything (sends_foldl [7] sentAgain)).2.2⟩

/-- The first-contact copy is a second route that takes the slice. -/
theorem slice_taken_twice :
    ∃ row, Sends [7] row ∧ row.ended.map (fun e => (e.1.takes, e.2)) =
        [([(0, Route.copy), (0, Route.onion)], some Result.ok)] :=
  ⟨_, sends_foldl [7] (oneSlice { peerFc := true, copyTaken := true }), by decide⟩

end Kryfo.Media
