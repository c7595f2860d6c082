import Kryfo.Ballot.Phone

/-!
# A closed poll

The creator's close carries the votes the creator held, and a phone that has the poll takes them
as final.  A close that comes before its poll is dropped, so a phone ends with the poll closed
exactly when a copy of the close comes after the poll.
-/

namespace Kryfo.Ballot

open Library List

/-! ## The votes a close carries -/

def finalsOf (poll : PollSpec) (held : Dict Id PollVote) : Dict Id (List Nat) :=
  Dict.ofList (held.entries.filterMap fun e =>
    let picks := cleanChoices (e.2.choices.map Value.ofNat) poll
    if picks = [] then none else some (e.1, picks))

def wireFinals (finals : Dict Id (List Nat)) : RawFinal :=
  some
    { entries := finals.entries.map fun e => (e.1.val, some (e.2.map Value.ofNat))
      nodup := by
        rw [map_map]
        have keys : (Prod.fst ∘ fun e : Id × List Nat => (e.1.val, some (e.2.map Value.ofNat))) =
            Subtype.val ∘ Prod.fst := rfl
        rw [keys, ← map_map]
        exact finals.nodup.map Subtype.val_injective }

def closeOf {γ : Type*} (row : PollRow γ) (held : Dict Id PollVote) : PollCloseFrame γ :=
  ⟨row.creator, row.group, wireFinals (finalsOf row.spec held)⟩

theorem clean_of_finalsOf {poll : PollSpec} {held : Dict Id PollVote} {e : Id × List Nat}
    (inside : e ∈ (finalsOf poll held).entries) :
    e.2 ≠ [] ∧ cleanChoices (e.2.map Value.ofNat) poll = e.2 := by
  obtain ⟨voter, picks⟩ := e
  have listed := Dict.mem_of_lookup_ofList (Dict.mem_entries.mp inside)
  obtain ⟨e', -, kept⟩ := mem_filterMap.mp listed
  dsimp only at kept
  split at kept
  next => cases kept
  next some' =>
    cases kept
    exact ⟨some', cleanChoices_again⟩

theorem cleanFinal_wireFinals (poll : PollSpec) (held : Dict Id PollVote) :
    cleanFinal (wireFinals (finalsOf poll held)) poll = finalsOf poll held := by
  have each : ∀ e ∈ (finalsOf poll held).entries,
      cleanEntry poll (e.1.val, some (e.2.map Value.ofNat)) = some e := by
    intro e inside
    obtain ⟨some', clean⟩ := clean_of_finalsOf inside
    rw [cleanEntry, dif_neg e.1.property]
    dsimp only
    rw [clean, if_neg some']
  have entries : ((finalsOf poll held).entries.map
      fun e => (e.1.val, some (e.2.map Value.ofNat))).filterMap (cleanEntry poll) =
        (finalsOf poll held).entries := by
    rw [filterMap_map]
    conv => rhs; rw [← filterMap_some (l := (finalsOf poll held).entries)]
    exact filterMap_congr each
  rw [wireFinals, cleanFinal, entries, Dict.ofList_entries]

namespace Phone

variable {γ : Type*}

structure ClosedWith (row : PollRow γ) (finals : Dict Id (List Nat)) (p : Phone γ) : Prop where
  poll : p.poll = some { row with spec := row.spec.closedNow }
  votes : ∀ voter, (p.votes.lookup voter).map (·.vote.choices) = finals.lookup voter

theorem closedWith_closePollRow (now : Int) (row : PollRow γ) (finals : Dict Id (List Nat))
    (p : Phone γ) : (p.closePollRow now row finals).ClosedWith row finals := by
  refine ⟨rfl, ?_⟩
  intro voter
  refine Option.ext fun picks => ?_
  rw [Option.map_eq_some_iff]
  constructor
  · rintro ⟨r, found, rfl⟩
    obtain ⟨e, inside, same⟩ := mem_map.mp (Dict.mem_of_lookup_ofList found)
    cases same
    exact Dict.mem_entries.mp inside
  · intro found
    have inside := Dict.mem_entries.mpr found
    have has := Dict.has_ofList (mem_map.mpr ⟨(voter, picks), inside, rfl⟩ :
      (voter, (⟨⟨picks, kPollFinalSeq⟩, row.group, now⟩ : Row γ)) ∈
        finals.entries.map fun e => (e.1, ⟨⟨e.2, kPollFinalSeq⟩, row.group, now⟩))
    obtain ⟨r, isRow⟩ := Dict.has_iff.mp has
    refine ⟨r, isRow, ?_⟩
    obtain ⟨e, inside', same⟩ := mem_map.mp (Dict.mem_of_lookup_ofList isRow)
    cases same
    have again := Dict.mem_entries.mp inside'
    rw [found] at again
    exact (Option.some.inj again).symm

/-! ## Runs -/

variable [DecidableEq γ] {members : Members γ} {row : PollRow γ} {held : Dict Id PollVote}
  {p : Phone γ}

/-- What comes to a phone: the poll, the creator's close and any votes. -/
def Comes (row : PollRow γ) (held : Dict Id PollVote) (a : Arrival γ) : Prop :=
  a = .poll row ∨ (∃ f, a = .vote f) ∨ a = .close (closeOf row held) ∨ a = .sweep

def Stage (row : PollRow γ) (held : Dict Id PollVote) (p : Phone γ) : Prop :=
  p.poll = none ∨ p.poll = some { row with spec := { row.spec with closed := false } } ∨
    p.ClosedWith row (finalsOf row.spec held)

variable {finals : Dict Id (List Nat)}

theorem ClosedWith.vote (closed : p.ClosedWith row finals) (now : Int) (f : VoteFrame γ) :
    p.applyVote members now f = p := by
  rcases p.applyVote_cases members now f with same | ⟨choices, -, away | ⟨row', here, -, isOpen, -⟩⟩
  · exact same
  · rw [closed.poll] at away
    cases away.1
  · rw [closed.poll] at here
    cases here
    cases isOpen

theorem ClosedWith.close (closed : p.ClosedWith row finals) (now : Int) (c : PollCloseFrame γ) :
    p.applyPollClose now c = p := by
  rw [applyPollClose, closed.poll]
  dsimp only
  rw [if_neg (by simp [closeAccepted, PollSpec.closedNow])]

theorem ClosedWith.take (closed : p.ClosedWith row finals) (a : Int × Arrival γ) :
    (p.take members a).ClosedWith row finals := by
  obtain ⟨now, what⟩ := a
  cases what with
  | poll row' =>
    rw [Phone.take, filePoll_here (by rw [closed.poll]; nofun)]
    exact closed
  | vote f =>
    rw [Phone.take, closed.vote]
    exact closed
  | close c =>
    rw [Phone.take, closed.close]
    exact closed
  | sweep =>
    refine ⟨closed.poll, ?_⟩
    have here : p.poll.isSome = true := by
      rw [closed.poll]
      rfl
    intro voter
    show ((if p.poll.isSome then p.votes else _).lookup voter).map _ = _
    rw [if_pos here]
    exact closed.votes voter

theorem close_of_open (now : Int)
    (here : p.poll = some { row with spec := { row.spec with closed := false } }) :
    (p.applyPollClose now (closeOf row held)).ClosedWith row (finalsOf row.spec held) := by
  have same : cleanFinal (closeOf row held).finalVotes { row.spec with closed := false } =
      finalsOf row.spec held := cleanFinal_wireFinals row.spec held
  rw [applyPollClose, here]
  dsimp only
  rw [if_pos (by simp [closeAccepted, closeOf]), same]
  have closed := closedWith_closePollRow now { row with spec := { row.spec with closed := false } }
    (finalsOf row.spec held) p
  exact ⟨closed.poll, closed.votes⟩

theorem close_of_here (now : Int) (stage : p.Stage row held) (here : p.poll ≠ none) :
    (p.applyPollClose now (closeOf row held)).ClosedWith row (finalsOf row.spec held) := by
  rcases stage with away | isOpen | closed
  · exact absurd away here
  · exact close_of_open now isOpen
  · rw [closed.close]
    exact closed

variable {a : Int × Arrival γ}

/-- What an arrival does to a phone at one of the three stages. -/
inductive Turns (row : PollRow γ) (held : Dict Id PollVote) (p p' : Phone γ) (what : Arrival γ) :
    Prop
  | away (before : p.poll = none) (other : what ≠ .poll row) (after : p'.poll = none)
  | files (before : p.poll = none) (isPoll : what = .poll row)
      (after : p'.poll = some { row with spec := { row.spec with closed := false } })
  | stays (before : p.poll = some { row with spec := { row.spec with closed := false } })
      (after : p'.poll = some { row with spec := { row.spec with closed := false } })
  | closes (before : p.poll = some { row with spec := { row.spec with closed := false } })
      (isClose : what = .close (closeOf row held))
      (after : p'.ClosedWith row (finalsOf row.spec held))
  | closed (before : p.ClosedWith row (finalsOf row.spec held))
      (after : p'.ClosedWith row (finalsOf row.spec held))

theorem turns_take (inChat : ∃ ms, members row.group = some ms ∧ row.creator ∈ ms)
    (stage : p.Stage row held) (comes : Comes row held a.2) :
    Turns row held p (p.take members a) a.2 := by
  obtain ⟨now, what⟩ := a
  rcases stage with away | isOpen | closed
  · rcases comes with rfl | ⟨f, rfl⟩ | rfl | rfl
    · obtain ⟨ms, isGroup, creator⟩ := inChat
      refine .files away rfl ?_
      rw [Phone.take, filePoll, isGroup]
      dsimp only
      rw [if_pos ⟨creator, away⟩]
    · exact .away away nofun ((p.applyVote_poll members now f).trans away)
    · refine .away away nofun ?_
      rw [Phone.take, applyPollClose, away]
      exact away
    · exact .away away nofun away
  · rcases comes with rfl | ⟨f, rfl⟩ | rfl | rfl
    · refine .stays isOpen ?_
      rw [Phone.take, filePoll_here (by rw [isOpen]; nofun)]
      exact isOpen
    · exact .stays isOpen ((p.applyVote_poll members now f).trans isOpen)
    · exact .closes isOpen rfl (close_of_open now isOpen)
    · exact .stays isOpen isOpen
  · exact .closed closed (closed.take (now, what))

omit [DecidableEq γ] in
theorem Turns.stage {p' : Phone γ} {what : Arrival γ} (turns : Turns row held p p' what) :
    p'.Stage row held := by
  cases turns with
  | away _ _ after => exact .inl after
  | files _ _ after | stays _ after => exact .inr (.inl after)
  | closes _ _ after | closed _ after => exact .inr (.inr after)

omit [DecidableEq γ] in
theorem Turns.here_iff {p' : Phone γ} {what : Arrival γ} (turns : Turns row held p p' what) :
    p'.poll ≠ none ↔ p.poll ≠ none ∨ what = .poll row := by
  cases turns with
  | away before other after => simp [before, other, after]
  | files before isPoll after => simp [isPoll, after]
  | stays before after => simp [before, after]
  | closes before _ after => simp [before, after.poll]
  | closed before after => simp [before.poll, after.poll]

theorem run_concat (members : Members γ) (acts : List (Int × Arrival γ)) (a : Int × Arrival γ) :
    run members (acts ++ [a]) = (run members acts).take members a := by
  rw [run, foldl_append]
  rfl

theorem stage_run (inChat : ∃ ms, members row.group = some ms ∧ row.creator ∈ ms)
    {acts : List (Int × Arrival γ)} (comes : ∀ a ∈ acts, Comes row held a.2) :
    (run members acts).Stage row held := by
  induction acts using List.reverseRecOn with
  | nil => exact .inl rfl
  | append_singleton acts a ih =>
    rw [run_concat]
    exact (turns_take inChat (ih fun b inside => comes b (mem_append_left _ inside))
      (comes a (mem_append_right _ (mem_singleton.mpr rfl)))).stage

theorem here_run_iff (inChat : ∃ ms, members row.group = some ms ∧ row.creator ∈ ms)
    {acts : List (Int × Arrival γ)} (comes : ∀ a ∈ acts, Comes row held a.2) :
    (run members acts).poll ≠ none ↔ ∃ t, (t, .poll row) ∈ acts := by
  induction acts using List.reverseRecOn with
  | nil => simp [run, Phone.empty]
  | append_singleton acts a ih =>
    have comes' := fun b inside => comes b (mem_append_left [a] inside)
    have last := comes a (mem_append_right _ (mem_singleton.mpr rfl))
    rw [run_concat, (turns_take inChat (stage_run inChat comes') last).here_iff, ih comes']
    simp only [mem_append, mem_singleton, exists_or, Prod.ext_iff]
    simp [eq_comm]

theorem isClose_of_closed (inChat : ∃ ms, members row.group = some ms ∧ row.creator ∈ ms)
    (stage : p.Stage row held) (before : ¬p.ClosedWith row (finalsOf row.spec held))
    (comes : Comes row held a.2)
    (closed : (p.take members a).ClosedWith row (finalsOf row.spec held)) :
    a.2 = .close (closeOf row held) ∧ p.poll ≠ none := by
  have shut := closed.poll
  cases turns_take inChat stage comes with
  | away _ _ after => exact nomatch after.symm.trans shut
  | files _ _ after | stays _ after =>
    cases congrArg (·.spec.closed) (Option.some.inj (after.symm.trans shut))
  | closes isOpen isClose _ => exact ⟨isClose, by rw [isOpen]; nofun⟩
  | closed already _ => exact absurd already before

/-- A phone ends with the poll closed and the creator's votes exactly when a copy of the close
comes after the poll. -/
theorem closed_alike_iff (inChat : ∃ ms, members row.group = some ms ∧ row.creator ∈ ms)
    {acts : List (Int × Arrival γ)} (comes : ∀ a ∈ acts, Comes row held a.2) :
    (run members acts).ClosedWith row (finalsOf row.spec held) ↔
      ∃ before t behind t', acts = before ++ (t, .close (closeOf row held)) :: behind ∧
        (t', .poll row) ∈ before := by
  induction acts using List.reverseRecOn with
  | nil =>
    constructor
    · intro closed
      have away : (run members [] : Phone γ).poll = none := rfl
      rw [closed.poll] at away
      cases away
    · rintro ⟨before, t, behind, -, empty, -⟩
      simp at empty
  | append_singleton acts a ih =>
    have comes' := fun b inside => comes b (mem_append_left [a] inside)
    have last := comes a (mem_append_right _ (mem_singleton.mpr rfl))
    have stage := stage_run inChat comes'
    rw [run_concat]
    constructor
    · intro closed
      by_cases already : (run members acts).ClosedWith row (finalsOf row.spec held)
      · obtain ⟨before, t, behind, t', split, inside⟩ := (ih comes').mp already
        exact ⟨before, t, behind ++ [a], t', by rw [split]; simp, inside⟩
      · obtain ⟨isClose, here⟩ := isClose_of_closed inChat stage already last closed
        obtain ⟨now, what⟩ := a
        subst isClose
        obtain ⟨t', inside⟩ := (here_run_iff inChat comes').mp here
        exact ⟨acts, now, [], t', rfl, inside⟩
    · rintro ⟨before, t, behind, t', split, inside⟩
      rcases eq_nil_or_concat behind with rfl | ⟨behind', b, rfl⟩
      · obtain ⟨rfl, isLast⟩ := append_inj' split rfl
        rw [singleton_inj.mp isLast]
        exact close_of_here t stage ((here_run_iff inChat comes').mpr ⟨t', inside⟩)
      · have split' : acts ++ [a] = (before ++ (t, .close (closeOf row held)) :: behind') ++ [b] := by
          rw [split]
          simp
        obtain ⟨rest, -⟩ := append_inj' split' rfl
        exact ((ih comes').mpr ⟨before, t, behind', t', rest, inside⟩).take a

end Phone

/-! ## A close that comes first -/

def cara : Id := ⟨"cara", by decide⟩

def dinner : PollRow Unit := ⟨⟨["soup", "noodles"], false, false, by decide, by decide⟩, (), cara⟩

def dinnerVotes : Dict Id PollVote := Dict.empty.set cara ⟨[1], 5⟩

def dinnerMembers : Phone.Members Unit := fun _ => some [cara]

theorem dinner_closed :
    (Phone.run dinnerMembers [(0, .poll dinner), (0, .close (closeOf dinner dinnerVotes))]).ClosedWith dinner
      (finalsOf dinner.spec dinnerVotes) := by
  refine (Phone.closed_alike_iff ⟨[cara], rfl, mem_singleton.mpr rfl⟩ ?_).mpr
    ⟨[(0, .poll dinner)], 0, [], 0, rfl, mem_singleton.mpr rfl⟩
  intro a inside
  rcases mem_cons.mp inside with rfl | rest
  · exact .inl rfl
  · rw [mem_singleton.mp rest]
    exact .inr (.inr (.inl rfl))

/-- The poll stays open on a phone that gets the close before it. -/
theorem dinner_open :
    (∀ a ∈ [((0 : Int), Arrival.close (closeOf dinner dinnerVotes)), (0, .poll dinner)],
        Phone.Comes dinner dinnerVotes a.2) ∧
      (Phone.run dinnerMembers [(0, .close (closeOf dinner dinnerVotes)), (0, .poll dinner)]).poll =
        some dinner ∧ dinner.spec.closed = false := by
  refine ⟨?_, by decide, rfl⟩
  intro a inside
  rcases mem_cons.mp inside with rfl | rest
  · exact .inr (.inr (.inl rfl))
  · rw [mem_singleton.mp rest]
    exact .inl rfl

end Kryfo.Ballot
