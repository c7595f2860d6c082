import Kryfo.Door.Stream
import Kryfo.Library.Run
import Mathlib.Data.List.Nodup
import Mathlib.Data.List.TakeWhile

/-!
# A send succeeds only for its own line

Which line an ack is for rests on the order of the lines on the wire.  It is kept as long as no
line goes on a stream between a failed write and the moment the stream is marked for it.
-/

namespace Kryfo.Door

open Library List

variable {η : Type}

structure Plain (line : Text) : Prop where
  oneLine : '\n' ∉ line
  trimmed : trimSpace line = line

theorem Plain.trimSpace_newline {line : Text} (plain : Plain line) :
    trimSpace (line ++ ['\n']) = line := by
  have space : isSpace '\n' = true := by decide
  have same := plain.trimmed
  unfold trimSpace at same ⊢
  by_cases blank : ∀ c ∈ line, isSpace c = true
  · have none : line.dropWhile isSpace = [] := dropWhile_eq_nil_iff.mpr blank
    rw [none] at same
    rw [← same]
    decide
  · have some : line.dropWhile isSpace ≠ [] := fun none =>
      blank (dropWhile_eq_nil_iff.mp none)
    have ends : (line ++ ['\n']).dropWhile isSpace = line.dropWhile isSpace ++ ['\n'] := by
      rw [dropWhile_append, if_neg]
      rwa [List.isEmpty_iff]
    rw [ends, reverse_append]
    exact same

def wireText (begun : List (Nat × Text)) : Text := begun.flatMap fun p => p.2 ++ ['\n']

theorem first_line {a b rest rest' : Text} (plainA : '\n' ∉ a) (plainB : '\n' ∉ b)
    (same : a ++ '\n' :: rest = b ++ '\n' :: rest') : a = b ∧ rest = rest' := by
  induction a generalizing b with
  | nil =>
    cases b with
    | nil => exact ⟨rfl, (List.cons.inj same).2⟩
    | cons c b => exact absurd ((List.cons.inj same).1 ▸ mem_cons_self) plainB
  | cons c a ih =>
    cases b with
    | nil => exact absurd ((List.cons.inj same).1 ▸ mem_cons_self) plainA
    | cons c' b =>
      obtain ⟨rfl, tails⟩ := List.cons.inj same
      obtain ⟨rfl, rests⟩ := ih (fun inside => plainA (mem_cons_of_mem _ inside))
        (fun inside => plainB (mem_cons_of_mem _ inside)) tails
      exact ⟨rfl, rests⟩

namespace Stream

/-- The door is as far as the lines it took, and the wire has what was written after
them. -/
structure OnWire (s : Stream η) (unsent : Text) : Prop where
  text : wireText (s.begun.drop s.taken.length) = s.wire ++ unsent
  writing : ∀ id rest, s.phase id = .writing rest → unsent = rest
  stuck : unsent = [] ∨ s.err = true ∨ (∃ id rest, s.phase id = .writing rest) ∨
    ∃ id, s.phase id = .writeFailed

structure Sound (s : Stream η) : Prop where
  plain : ∀ p ∈ s.begun, Plain p.2
  ids : (s.begun.map Prod.fst).Nodup
  started : ∀ p ∈ s.begun, s.phase p.1 ≠ .fresh
  lock : ∀ i j r r', s.phase i = .writing r → s.phase j = .writing r' → i = j
  popped : ∃ q, q + s.acks ≤ s.taken.length ∧
    s.waiting = (if s.err then [] else (s.begun.drop q).map Prod.fst) ∧
    ∀ id, s.answer id = some true ∨ s.phase id = .returned true → id ∈ (s.begun.take q).map Prod.fst
  taken : s.taken = (s.begun.take s.taken.length).map Prod.snd
  wire : s.doorOpen = true → ∃ unsent, s.OnWire unsent
  refused : ∀ k, s.refused = some k → s.doorOpen = false ∧ s.taken.length = k

/-- No line goes on the stream while a write that failed has not marked it. -/
def Calm (s : Stream η) : Act → Prop
  | .start _ line => Plain line ∧ ∀ j, s.phase j ≠ .writeFailed
  | _ => True

theorem sound_first (box : Inbox η) : Sound { inbox := box : Stream η } where
  plain _ inside := absurd inside not_mem_nil
  ids := nodup_nil
  started _ inside := absurd inside not_mem_nil
  lock _ _ _ _ writing := by cases writing
  popped := ⟨0, Nat.le_refl 0, rfl, fun _ answered => by rcases answered with h | h <;> cases h⟩
  taken := rfl
  wire _ := ⟨[], rfl, (fun _ _ writing => by cases writing), .inl rfl⟩
  refused _ refused := by cases refused

variable {s : Stream η}

theorem phase_setPhase (id : Nat) (ph : Phase) (j : Nat) :
    (s.setPhase id ph).phase j = if j = id then ph else s.phase j := by
  exact Function.update_apply s.phase id ph j

theorem Sound.setPhase (sound : s.Sound) {id : Nat} {ph : Phase} (notFresh : ph ≠ .fresh)
    (notWriting : ∀ rest, ph ≠ .writing rest)
    (answered : ph = .returned true → s.answer id = some true)
    (leaves : ∀ rest, s.phase id = .writing rest → rest = [] ∨ ph = .writeFailed)
    (marked : s.phase id = .writeFailed → s.err = true) : (s.setPhase id ph).Sound where
  plain := sound.plain
  ids := sound.ids
  started p inside := by
    rw [phase_setPhase]
    split_ifs
    · exact notFresh
    · exact sound.started p inside
  lock i j r r' atI atJ := by
    rw [phase_setPhase] at atI atJ
    split_ifs at atI atJ with isI isJ isJ
    · rw [isI, isJ]
    · exact absurd atI (notWriting r)
    · exact absurd atJ (notWriting r')
    · exact sound.lock i j r r' atI atJ
  popped := by
    obtain ⟨q, enough, waiting, answers⟩ := sound.popped
    refine ⟨q, enough, waiting, ?_⟩
    rintro j (sent | returned)
    · exact answers j (.inl sent)
    · rw [phase_setPhase] at returned
      split_ifs at returned with same
      · rw [same]
        exact answers id (.inl (answered returned))
      · exact answers j (.inr returned)
  taken := sound.taken
  wire opened := by
    obtain ⟨unsent, text, writing, stuck⟩ := sound.wire opened
    refine ⟨unsent, text, ?_, ?_⟩
    · intro j rest atJ
      rw [phase_setPhase] at atJ
      split_ifs at atJ
      · exact absurd atJ (notWriting rest)
      · exact writing j rest atJ
    · rcases stuck with none | err | ⟨j, rest, atJ⟩ | ⟨j, atJ⟩
      · exact .inl none
      · exact .inr (.inl err)
      · by_cases same : j = id
        · subst same
          rcases leaves rest atJ with none | failed
          · exact .inl ((writing j rest atJ).trans none)
          · refine .inr (.inr (.inr ⟨j, ?_⟩))
            rw [phase_setPhase, if_pos rfl]
            exact failed
        · refine .inr (.inr (.inl ⟨j, rest, ?_⟩))
          rw [phase_setPhase, if_neg same]
          exact atJ
      · by_cases same : j = id
        · subst same
          exact .inr (.inl (marked atJ))
        · refine .inr (.inr (.inr ⟨j, ?_⟩))
          rw [phase_setPhase, if_neg same]
          exact atJ
  refused := sound.refused

theorem Sound.failAll (sound : s.Sound) : s.failAll.Sound where
  plain := sound.plain
  ids := sound.ids
  started := sound.started
  lock := sound.lock
  popped := by
    obtain ⟨q, enough, _, answers⟩ := sound.popped
    refine ⟨q, enough, rfl, ?_⟩
    rintro id (sent | returned)
    · simp only [Stream.failAll] at sent
      split_ifs at sent
      · cases sent
      · exact answers id (.inl sent)
    · exact answers id (.inr returned)
  taken := sound.taken
  wire opened := by
    obtain ⟨unsent, text, writing, _⟩ := sound.wire opened
    exact ⟨unsent, text, writing, .inr (.inl rfl)⟩
  refused := sound.refused

theorem Sound.popAck (sound : s.Sound) (some : 0 < s.acks) : s.popAck.Sound := by
  obtain ⟨q, enough, waiting, answers⟩ := sound.popped
  unfold Stream.popAck
  split
  · refine { sound with popped := ⟨q, ?_, waiting, answers⟩, wire := ?_ }
    · change q + (s.acks - 1) ≤ s.taken.length
      omega
    · intro opened
      obtain ⟨unsent, text, writing, stuck⟩ := sound.wire opened
      exact ⟨unsent, text, writing, stuck⟩
  · rename_i id rest isWaiting
    have live : s.err = false := by
      by_contra err
      rw [isWaiting, if_pos (eq_true_of_ne_false err)] at waiting
      cases waiting
    rw [isWaiting, live, if_neg (by decide)] at waiting
    have split := map_drop (f := Prod.fst) (l := s.begun) (i := q)
    rw [← waiting] at split
    have within : q < (s.begun.map Prod.fst).length := by
      by_contra beyond
      rw [drop_eq_nil_of_le (Nat.le_of_not_lt beyond)] at split
      cases split
    rw [drop_eq_getElem_cons within] at split
    obtain ⟨first, others⟩ := List.cons.inj split
    refine { sound with popped := ⟨q + 1, ?_, ?_, ?_⟩, wire := ?_ }
    · change q + 1 + (s.acks - 1) ≤ s.taken.length
      omega
    · rw [live, map_drop]
      exact others
    · intro j answered
      rw [map_take]
      rcases answered with sent | returned
      · change Function.update s.answer id (Option.some true) j = Option.some true at sent
        by_cases same : j = id
        · rw [same, first, take_succ_eq_append_getElem within]
          exact mem_append_right _ (mem_singleton_self _)
        · rw [Function.update_of_ne same] at sent
          have earlier := answers j (.inl sent)
          rw [map_take] at earlier
          exact take_subset_take_left _ (Nat.le_succ q) earlier
      · have earlier := answers j (.inr returned)
        rw [map_take] at earlier
        exact take_subset_take_left _ (Nat.le_succ q) earlier
    · intro opened
      obtain ⟨unsent, text, writing, stuck⟩ := sound.wire opened
      exact ⟨unsent, text, writing, stuck⟩

theorem Sound.start (sound : s.Sound) {id : Nat} {line : Text} (plain : Plain line)
    (calm : ∀ j, s.phase j ≠ .writeFailed) (fresh : s.phase id = .fresh)
    (free : ∀ j rest, s.phase j ≠ .writing rest) (live : s.err = false) :
    Sound { s.setPhase id (.writing (line ++ ['\n'])) with
      waiting := s.waiting ++ [id]
      begun := s.begun ++ [(id, line)] } := by
  have new : id ∉ s.begun.map Prod.fst := by
    intro inside
    obtain ⟨p, listed, rfl⟩ := mem_map.mp inside
    exact sound.started p listed fresh
  have bound : s.taken.length ≤ s.begun.length := by
    have length := congrArg List.length sound.taken
    rw [length_map, length_take] at length
    omega
  obtain ⟨q, enough, waiting, answers⟩ := sound.popped
  have within : q ≤ s.begun.length := by omega
  rw [live] at waiting
  constructor
  · intro p inside
    rcases mem_append.mp inside with earlier | last
    · exact sound.plain p earlier
    · obtain rfl := mem_singleton.mp last
      exact plain
  · rw [map_append, nodup_append]
    refine ⟨sound.ids, nodup_singleton id, ?_⟩
    intro a inside b last same
    obtain rfl := mem_singleton.mp last
    exact new (same ▸ inside)
  · intro p inside
    simp only [phase_setPhase]
    split_ifs with same
    · exact Phase.noConfusion
    · rcases mem_append.mp inside with earlier | last
      · exact sound.started p earlier
      · exact absurd (congrArg Prod.fst (mem_singleton.mp last)) same
  · intro i j r r' atI atJ
    simp only [phase_setPhase] at atI atJ
    split_ifs at atI atJ with isI isJ isJ
    · rw [isI, isJ]
    · exact absurd atJ (free j r')
    · exact absurd atI (free i r)
    · exact absurd atI (free i r)
  · refine ⟨q, enough, ?_, ?_⟩
    · change s.waiting ++ [id] = if s.err then [] else ((s.begun ++ [(id, line)]).drop q).map _
      rw [live, drop_append_of_le_length within, map_append, waiting]
      rfl
    · intro j answered
      rw [take_append_of_le_length within]
      refine answers j ?_
      rcases answered with sent | returned
      · exact .inl sent
      · simp only [phase_setPhase] at returned
        split_ifs at returned
        exact .inr returned
  · change s.taken = ((s.begun ++ [(id, line)]).take s.taken.length).map _
    rw [take_append_of_le_length bound]
    exact sound.taken
  · intro opened
    obtain ⟨unsent, text, writing, stuck⟩ := sound.wire opened
    have none : unsent = [] := by
      rcases stuck with none | err | ⟨j, rest, atJ⟩ | ⟨j, atJ⟩
      · exact none
      · rw [live] at err
        cases err
      · exact absurd atJ (free j rest)
      · exact absurd atJ (calm j)
    refine ⟨line ++ ['\n'], ?_, ?_, ?_⟩
    · change wireText ((s.begun ++ [(id, line)]).drop s.taken.length) = s.wire ++ _
      rw [drop_append_of_le_length bound, wireText, flatMap_append]
      rw [none] at text
      rw [← wireText, text]
      simp [List.flatMap]
    · intro j rest atJ
      simp only [phase_setPhase] at atJ
      split_ifs at atJ
      · exact Phase.writing.inj atJ
      · exact absurd atJ (free j rest)
    · refine .inr (.inr (.inl ⟨id, line ++ ['\n'], ?_⟩))
      simp only [phase_setPhase, if_true]
  · exact sound.refused

theorem Sound.write (sound : s.Sound) {id : Nat} {rest : Text} (here : s.phase id = .writing rest)
    (n : Nat) :
    Sound { s.setPhase id (.writing (rest.drop n)) with wire := s.wire ++ rest.take n } := by
  obtain ⟨q, enough, waiting, answers⟩ := sound.popped
  constructor
  · exact sound.plain
  · exact sound.ids
  · intro p inside
    simp only [phase_setPhase]
    split_ifs
    · exact Phase.noConfusion
    · exact sound.started p inside
  · intro i j r r' atI atJ
    simp only [phase_setPhase] at atI atJ
    split_ifs at atI atJ with isI isJ isJ
    · rw [isI, isJ]
    · rw [isI]
      exact sound.lock id j rest r' here atJ
    · rw [isJ]
      exact sound.lock i id r rest atI here
    · exact sound.lock i j r r' atI atJ
  · refine ⟨q, enough, waiting, ?_⟩
    rintro j (sent | returned)
    · exact answers j (.inl sent)
    · simp only [phase_setPhase] at returned
      split_ifs at returned
      exact answers j (.inr returned)
  · exact sound.taken
  · intro opened
    obtain ⟨unsent, text, writing, _⟩ := sound.wire opened
    obtain rfl := writing id rest here
    refine ⟨unsent.drop n, ?_, ?_, ?_⟩
    · change wireText (s.begun.drop s.taken.length) = s.wire ++ unsent.take n ++ unsent.drop n
      rw [text, append_assoc, take_append_drop]
    · intro j other atJ
      simp only [phase_setPhase] at atJ
      split_ifs at atJ with same
      · exact Phase.writing.inj atJ
      · exact absurd (sound.lock j id other unsent atJ here) same
    · refine .inr (.inr (.inl ⟨id, unsent.drop n, ?_⟩))
      simp only [phase_setPhase, if_true]
  · exact sound.refused

/-- The next line on the wire is the line of the first send the door has not read. -/
theorem Sound.nextLine_eq (sound : s.Sound) (opened : s.doorOpen = true) (ready : '\n' ∈ s.wire) :
    ∃ p more, s.begun.drop s.taken.length = p :: more ∧ s.nextLine = p.2 ∧
      ∃ unsent, s.OnWire unsent ∧ wireText more = s.restOfWire ++ unsent := by
  obtain ⟨unsent, onWire⟩ := sound.wire opened
  have split : s.wire = s.nextLine ++ '\n' :: s.restOfWire := by
    have parts := takeWhile_append_dropWhile (p := (· ≠ '\n')) (l := s.wire)
    have some : s.wire.dropWhile (· ≠ '\n') ≠ [] := by
      intro none
      have := dropWhile_eq_nil_iff.mp none '\n' ready
      simp at this
    obtain ⟨c, rest, shape⟩ := exists_cons_of_ne_nil some
    have newline : c = '\n' := by
      have := head_dropWhile_not (p := (· ≠ '\n')) (l := s.wire) some
      simp only [shape, head_cons] at this
      simpa using this
    subst newline
    have tail : s.restOfWire = rest := by
      rw [restOfWire, shape]
      rfl
    rw [tail, nextLine, ← shape, parts]
  have own : '\n' ∉ s.nextLine := by
    intro inside
    have := mem_takeWhile_imp inside
    simp at this
  have text := onWire.text
  rw [split, append_assoc] at text
  cases left : s.begun.drop s.taken.length with
  | nil =>
    rw [left] at text
    have := congrArg List.length text
    simp [wireText] at this
  | cons p more =>
    have listed : p ∈ s.begun := by
      refine mem_of_mem_drop (i := s.taken.length) ?_
      rw [left]
      exact mem_cons_self
    have first : wireText (p :: more) = p.2 ++ '\n' :: wireText more := by
      rw [wireText, flatMap_cons, append_assoc]
      rfl
    rw [left, first] at text
    obtain ⟨same, rest⟩ := first_line (sound.plain p listed).oneLine own text
    exact ⟨p, more, rfl, same.symm, unsent, onWire, rest⟩

theorem Sound.take (sound : s.Sound) (opened : s.doorOpen = true) (ready : '\n' ∈ s.wire)
    (box : Inbox η) :
    Sound { s with
      wire := s.restOfWire
      acks := s.acks + 1
      count := s.count + 1
      inbox := box
      taken := s.taken ++ [trimSpace (s.nextLine ++ ['\n'])] } := by
  obtain ⟨p, more, left, same, unsent, onWire, rest⟩ := sound.nextLine_eq opened ready
  obtain ⟨q, enough, waiting, answers⟩ := sound.popped
  have listed : p ∈ s.begun := by
    refine mem_of_mem_drop (i := s.taken.length) ?_
    rw [left]
    exact mem_cons_self
  have own : trimSpace (s.nextLine ++ ['\n']) = p.2 := by
    rw [same]
    exact (sound.plain p listed).trimSpace_newline
  have size : (s.taken ++ [trimSpace (s.nextLine ++ ['\n'])]).length = s.taken.length + 1 := by
    rw [length_append, length_singleton]
  refine { sound with popped := ⟨q, ?_, waiting, answers⟩, taken := ?_, wire := ?_, refused := ?_ }
  · change q + (s.acks + 1) ≤ (s.taken ++ [_]).length
    omega
  · rw [size, own]
    have within : s.taken.length < s.begun.length := by
      by_contra beyond
      rw [drop_eq_nil_of_le (Nat.le_of_not_lt beyond)] at left
      cases left
    rw [drop_eq_getElem_cons within] at left
    rw [take_succ_eq_append_getElem within, (List.cons.inj left).1, map_append, ← sound.taken]
    rfl
  · intro _
    refine ⟨unsent, ?_, onWire.writing, onWire.stuck⟩
    rw [size, ← drop_drop, left]
    exact rest
  · intro k refused
    have := (sound.refused k refused).1
    rw [opened] at this
    cases this

theorem Sound.shut (sound : s.Sound) (wire : Text) (box : Inbox η) {refused : Option Nat}
    (marked : refused = s.refused ∨ refused = some s.taken.length) :
    Sound { s with wire := wire, doorOpen := false, inbox := box, refused := refused } := by
  refine { sound with wire := fun opened => (by cases opened), refused := ?_ }
  intro k isRefused
  refine ⟨rfl, ?_⟩
  rcases marked with same | same
  · exact (sound.refused k (same.symm.trans isRefused)).2
  · exact Option.some.inj (same.symm.trans isRefused)

theorem Sound.withInbox (sound : s.Sound) (box : Inbox η) : Sound { s with inbox := box } := by
  refine { sound with wire := ?_ }
  intro opened
  obtain ⟨unsent, text, writing, stuck⟩ := sound.wire opened
  exact ⟨unsent, text, writing, stuck⟩

variable [DecidableEq η]

theorem Sound.next (hash : Text → η) (sound : s.Sound) {act : Act} (enabled : s.Enabled act)
    (calm : s.Calm act) : (s.next hash act).Sound := by
  cases act with
  | start id line =>
    obtain ⟨fresh, free⟩ := enabled
    cases live : s.err with
    | true =>
      rw [Stream.next, if_pos live]
      refine sound.setPhase (by simp) (by simp) (by simp) ?_ ?_
      · intro rest writing
        exact absurd (fresh.symm.trans writing) (by simp)
      · exact fun _ => live
    | false =>
      rw [Stream.next, live]
      exact sound.start calm.1 calm.2 fresh free live
  | write id n =>
    obtain ⟨rest, here⟩ := enabled
    simp only [Stream.next, here]
    exact sound.write here n
  | wrote id =>
    refine sound.setPhase (by simp) (by simp) (by simp) ?_ ?_
    · intro rest writing
      exact .inl (Phase.writing.inj (writing.symm.trans enabled))
    · intro failed
      exact absurd (failed.symm.trans enabled) (by simp)
  | writeError id =>
    obtain ⟨rest, here, _⟩ := enabled
    refine sound.setPhase (by simp) (by simp) (by simp) ?_ ?_
    · exact fun _ _ => .inr rfl
    · intro failed
      exact absurd (failed.symm.trans here) (by simp)
  | timeout id =>
    refine sound.setPhase (by simp) (by simp) (by simp) ?_ ?_
    · intro rest writing
      exact absurd (writing.symm.trans enabled) (by simp)
    · intro failed
      exact absurd (failed.symm.trans enabled) (by simp)
  | fail id =>
    refine sound.failAll.setPhase (by simp) (by simp) (by simp) ?_ ?_
    · intro rest writing
      rcases enabled with failed | late
      · exact absurd (writing.symm.trans failed) (by simp)
      · exact absurd (writing.symm.trans late) (by simp)
    · exact fun _ => rfl
  | receive id =>
    obtain ⟨waits, answered⟩ := enabled
    obtain ⟨ok, isAnswer⟩ := Option.isSome_iff_exists.mp answered
    refine sound.setPhase (by simp) (by simp) ?_ ?_ ?_
    · intro returned
      rw [isAnswer, Option.getD_some] at returned
      rw [isAnswer, Phase.returned.inj returned]
    · intro rest writing
      rcases waits with written | failed
      · exact absurd (writing.symm.trans written) (by simp)
      · exact absurd (writing.symm.trans failed) (by simp)
    · intro broken
      rcases waits with written | failed
      · exact absurd (broken.symm.trans written) (by simp)
      · exact absurd (broken.symm.trans failed) (by simp)
  | failStream => exact sound.failAll
  | readAck => exact sound.popAck enabled
  | doorRead now =>
    obtain ⟨opened, ready, _⟩ := enabled
    simp only [Stream.next]
    split
    · exact sound.take opened ready _
    · exact sound.shut _ _ (.inr rfl)
  | ackLost now | doorEnd now => exact sound.shut _ _ (.inl rfl)
  | drain | otherLine now line => exact sound.withInbox _

omit [DecidableEq η] in
theorem Sound.returned (sound : s.Sound) {id : Nat} (ok : s.phase id = .returned true) :
    ∃ (k : Nat) (line : Text), s.begun[k]? = some (id, line) ∧ s.taken[k]? = some line := by
  obtain ⟨q, enough, _, answers⟩ := sound.popped
  obtain ⟨⟨_, line⟩, listed, rfl⟩ := mem_map.mp (answers id (Or.inr ok))
  obtain ⟨k, found⟩ := mem_iff_getElem?.mp listed
  rw [getElem?_take] at found
  split_ifs at found with early
  refine ⟨k, line, found, ?_⟩
  have within : k < s.taken.length := by omega
  rw [sound.taken, getElem?_map, getElem?_take, if_pos within, found]
  rfl

omit [DecidableEq η] in
theorem Sound.position_unique (sound : s.Sound) {id j k : Nat} {line line' : Text}
    (first : s.begun[j]? = some (id, line)) (second : s.begun[k]? = some (id, line')) : j = k := by
  have bound : j < (s.begun.map Prod.fst).length := by
    rw [length_map]
    exact (List.getElem?_eq_some_iff.mp first).1
  refine (getElem?_inj bound sound.ids).mp ?_
  rw [getElem?_map, getElem?_map, first, second]
  rfl

structure Honest (s : Stream η) : Prop where
  own : ∀ id, s.phase id = .returned true →
    ∃ (k : Nat) (line : Text), s.begun[k]? = some (id, line) ∧ s.taken[k]? = some line
  inOrder : s.taken = (s.begun.take s.taken.length).map Prod.snd
  afterRefused : ∀ k, s.refused = some k → ∀ (j id : Nat) (line : Text), k ≤ j →
    s.begun[j]? = some (id, line) → s.phase id ≠ .returned true

theorem honest_of_run (hash : Text → η) (box : Inbox η) (s : Stream η)
    (run : Run (Step hash) Calm { inbox := box : Stream η } s) : s.Honest := by
  have sound : s.Sound := by
    refine run.invariant Sound (sound_first box) ?_
    rintro s s' act before calm ⟨enabled, rfl⟩
    exact before.next hash enabled calm
  refine ⟨fun id ok => sound.returned ok, sound.taken, ?_⟩
  intro k refused j id line late here ok
  obtain ⟨i, line', there, isTaken⟩ := sound.returned ok
  obtain rfl := sound.position_unique here there
  have := (List.getElem?_eq_some_iff.mp isTaken).1
  have := (sound.refused k refused).2
  omega

section Runs

def lineA : Text := "AgAAAAAA".toList

def lineB : Text := "AwAAAAAA".toList

theorem plain_lineA : Plain lineA := ⟨by decide, by decide⟩

theorem plain_lineB : Plain lineB := ⟨by decide, by decide⟩

def quiet : Stream Text := {}

def along (acts : List Act) : Stream Text := acts.foldl (Stream.next id) quiet

theorem run_along {rule : Stream Text → Act → Prop} {acts : List Act}
    (allowed : Allowed (Stream.next id) (fun s act => s.Enabled act ∧ rule s act) quiet acts) :
    Run (Step id) rule quiet (along acts) :=
  .of_acts id (fun _ _ may => ⟨⟨may.1, rfl⟩, may.2⟩) allowed

theorem quiet_free (j : Nat) (rest : Text) : quiet.phase j ≠ .writing rest := by
  simp [quiet]

def sentActs : List Act :=
  [.start 0 lineA, .write 0 9, .wrote 0, .doorRead 0, .readAck, .receive 0]

theorem run_sent : Run (Step id) Calm quiet (along sentActs) :=
  run_along ⟨⟨⟨rfl, quiet_free⟩, plain_lineA, fun _ => by simp [quiet]⟩,
    ⟨⟨lineA ++ ['\n'], by decide⟩, trivial⟩, ⟨rfl, trivial⟩,
    ⟨⟨by decide, by decide, by decide⟩, trivial⟩, ⟨Nat.one_pos, trivial⟩,
    ⟨⟨.inl (by decide), by decide⟩, trivial⟩, trivial⟩

theorem honest_of_run_sent :
    (along sentActs).phase 0 = .returned true ∧ (along sentActs).Honest :=
  ⟨by decide, honest_of_run id {} (along sentActs) run_sent⟩

/-- A line of one line only, with nothing around it, is all that is asked. -/
def PlainLines (_ : Stream Text) : Act → Prop
  | .start _ line => Plain line
  | _ => True

/-- The first write fails with nothing on the wire.  Before that marks the stream, a second send
puts its line there, and its ack goes to the first. -/
def mixedActs : List Act :=
  [.start 0 lineA, .writeError 0, .start 1 lineB, .write 1 9, .wrote 1, .doorRead 0, .readAck,
    .fail 0, .receive 0]

theorem run_mixed : Run (Step id) PlainLines quiet (along mixedActs) := by
  have free (j : Nat) (rest : Text) :
      ((quiet.next id (.start 0 lineA)).next id (.writeError 0)).phase j ≠ .writing rest := by
    change (Function.update (Function.update quiet.phase 0 (.writing (lineA ++ ['\n']))) 0
      .writeFailed) j ≠ _
    rw [Function.update_idem, Function.update_apply]
    split_ifs
    · exact Phase.noConfusion
    · exact quiet_free j rest
  exact run_along ⟨⟨⟨rfl, quiet_free⟩, plain_lineA⟩,
    ⟨⟨lineA ++ ['\n'], by decide, by decide⟩, trivial⟩, ⟨⟨by decide, free⟩, plain_lineB⟩,
    ⟨⟨lineB ++ ['\n'], by decide⟩, trivial⟩, ⟨rfl, trivial⟩,
    ⟨⟨by decide, by decide, by decide⟩, trivial⟩, ⟨Nat.one_pos, trivial⟩,
    ⟨.inl (by decide), trivial⟩, ⟨⟨.inr (by decide), by decide⟩, trivial⟩, trivial⟩

theorem not_honest_of_run :
    Run (Step id) PlainLines quiet (along mixedActs) ∧
      (along mixedActs).begun = [(0, lineA), (1, lineB)] ∧
      (along mixedActs).phase 0 = .returned true ∧ lineA ∉ (along mixedActs).taken ∧
      lineA ∉ (along mixedActs).inbox.lines ∧ ¬(along mixedActs).Honest := by
  have begun : (along mixedActs).begun = [(0, lineA), (1, lineB)] := by decide
  have ok : (along mixedActs).phase 0 = .returned true := by decide
  have absent : lineA ∉ (along mixedActs).taken := by decide
  refine ⟨run_mixed, begun, ok, absent, by decide, ?_⟩
  intro honest
  obtain ⟨k, line, here, isTaken⟩ := honest.own 0 ok
  have inside := mem_of_getElem? here
  rw [begun] at inside
  have own : line = lineA := by simpa using inside
  exact absent (own ▸ mem_of_getElem? isTaken)

end Runs

end Stream

end Kryfo.Door
