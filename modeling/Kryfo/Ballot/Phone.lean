import Kryfo.Ballot.Votes

/-!
# What a phone does with a poll, its votes and its close

A vote that overtakes its poll waits as it came, an hour at most.  Later ones are cleaned and
kept if their number is higher than that of the one held.
-/

namespace Kryfo.Ballot

open Library

/-- How long a vote waits for its poll, in milliseconds. -/
def strayAfter : Int := 3600000

structure Row (γ : Type*) where
  vote : PollVote
  group : γ
  came : Int
deriving DecidableEq

structure PollRow (γ : Type*) where
  spec : PollSpec
  group : γ
  creator : Id
deriving DecidableEq

structure Phone (γ : Type*) where
  poll : Option (PollRow γ)
  gone : Option Int
  votes : Dict Id (Row γ)

def Phone.empty {γ : Type*} : Phone γ := ⟨none, none, Dict.empty⟩

structure VoteFrame (γ : Type*) where
  voter : Id
  group : γ
  choices : List Value
  seq : Int
deriving DecidableEq

/-- The votes of a close as they come: a map of lists, or something else. -/
abbrev RawFinal := Option (Dict String (Option (List Value)))

structure PollCloseFrame (γ : Type*) where
  sender : Id
  group : γ
  finalVotes : RawFinal

inductive Arrival (γ : Type*) where
  | poll (row : PollRow γ)
  | vote (f : VoteFrame γ)
  | close (c : PollCloseFrame γ)
  | sweep

inductive VoteFate where
  | count
  | hold
  | drop
deriving DecidableEq

def voteFate (member pollHere pollGone sameChat closed : Bool) : VoteFate :=
  if !member then .drop
  else if !pollHere then if pollGone then .drop else .hold
  else if !sameChat || closed then .drop
  else .count

def closeAccepted (pollHere fromCreator sameChat closed : Bool) : Bool :=
  pollHere && fromCreator && sameChat && !closed

def cleanEntry (poll : PollSpec) (e : String × Option (List Value)) : Option (Id × List Nat) :=
  if known : e.1 = "" then none
  else
    match e.2 with
    | none => none
    | some raw =>
      if cleanChoices raw poll = [] then none else some (⟨e.1, known⟩, cleanChoices raw poll)

def cleanFinal (raw : RawFinal) (poll : PollSpec) : Dict Id (List Nat) :=
  match raw with
  | none => Dict.empty
  | some votes => Dict.ofList (votes.entries.filterMap (cleanEntry poll))

namespace Phone

variable {γ : Type*} [DecidableEq γ]

def putPollVote (now : Int) (voter : Id) (group : γ) (choices : List Nat) (seq : Int)
    (p : Phone γ) : Phone γ :=
  if voteIsNewer ((p.votes.lookup voter).map (·.vote.seq)) seq then
    { p with votes := p.votes.set voter ⟨⟨choices, seq⟩, group, now⟩ }
  else p

def closePollRow (now : Int) (row : PollRow γ) (finals : Dict Id (List Nat)) (p : Phone γ) : Phone γ :=
  { p with
    poll := some { row with spec := row.spec.closedNow }
    votes := Dict.ofList (finals.entries.map fun e => (e.1, ⟨⟨e.2, kPollFinalSeq⟩, row.group, now⟩)) }

abbrev Members (γ : Type*) := γ → Option (List Id)

def applyVote (members : Members γ) (now : Int) (f : VoteFrame γ) (p : Phone γ) : Phone γ :=
  match members f.group with
  | none => p
  | some ms =>
    match voteFate (f.voter ∈ ms) p.poll.isSome (p.poll.isNone && p.gone.isSome)
        (p.poll.map (·.group) = some f.group) (p.poll.any (·.spec.closed)) with
    | .drop => p
    | .hold => p.putPollVote now f.voter f.group (sortedIn kPollMaxOptions f.choices) f.seq
    | .count =>
      match p.poll with
      | none => p
      | some row => p.putPollVote now f.voter f.group (cleanChoices f.choices row.spec) f.seq

def applyPollClose (now : Int) (c : PollCloseFrame γ) (p : Phone γ) : Phone γ :=
  match p.poll with
  | none => p
  | some row =>
    if closeAccepted true (row.creator = c.sender) (row.group = c.group) row.spec.closed then
      p.closePollRow now row (cleanFinal c.finalVotes row.spec)
    else p

/-- A poll is never closed on arrival, and a copy of it changes nothing. -/
def filePoll (members : Members γ) (row : PollRow γ) (p : Phone γ) : Phone γ :=
  match members row.group with
  | none => p
  | some ms =>
    if row.creator ∈ ms ∧ p.poll = none then
      { p with poll := some { row with spec := { row.spec with closed := false } } }
    else p

def purgeStrayVotes (now : Int) (p : Phone γ) : Phone γ :=
  { p with
    votes := if p.poll.isSome then p.votes else p.votes.keep fun _ r => now - strayAfter ≤ r.came
    gone := p.gone.filter fun t => now - strayAfter ≤ t }

def take (members : Members γ) (p : Phone γ) : Int × Arrival γ → Phone γ
  | (_, .poll row) => p.filePoll members row
  | (now, .vote f) => p.applyVote members now f
  | (now, .close c) => p.applyPollClose now c
  | (now, .sweep) => p.purgeStrayVotes now

def run (members : Members γ) (acts : List (Int × Arrival γ)) : Phone γ :=
  acts.foldl (take members) Phone.empty

omit [DecidableEq γ] in
def pollVotesFor (p : Phone γ) : Dict Id PollVote where
  entries := p.votes.entries.map fun e => (e.1, e.2.vote)
  nodup := by
    rw [List.map_map]
    exact p.votes.nodup

omit [DecidableEq γ] in
theorem lookup_pollVotesFor (p : Phone γ) (voter : Id) :
    p.pollVotesFor.lookup voter = (p.votes.lookup voter).map (·.vote) := by
  refine Option.ext fun v => ?_
  rw [← Dict.mem_entries, Option.map_eq_some_iff]
  simp only [pollVotesFor, List.mem_map, Prod.mk.injEq, Prod.exists]
  constructor
  · rintro ⟨voter', r, inside, rfl, rfl⟩
    exact ⟨r, Dict.mem_entries.mp inside, rfl⟩
  · rintro ⟨r, found, rfl⟩
    exact ⟨voter, r, Dict.mem_entries.mpr found, rfl, rfl⟩

/-! ## What an arrival does -/

section

variable {members : Members γ} {now : Int} {p : Phone γ}

omit [DecidableEq γ] in
theorem putPollVote_cases (now : Int) (voter : Id) (group : γ) (choices : List Nat) (seq : Int)
    (p : Phone γ) :
    ((∀ r, p.votes.lookup voter = some r → r.vote.seq < seq) ∧
        p.putPollVote now voter group choices seq =
          { p with votes := p.votes.set voter ⟨⟨choices, seq⟩, group, now⟩ }) ∨
      (∃ r, p.votes.lookup voter = some r ∧ seq ≤ r.vote.seq) ∧
        p.putPollVote now voter group choices seq = p := by
  unfold putPollVote voteIsNewer
  cases found : p.votes.lookup voter with
  | none => exact Or.inl ⟨nofun, rfl⟩
  | some r =>
    by_cases newer : r.vote.seq < seq
    · refine Or.inl ⟨?_, if_pos (by simpa using newer)⟩
      intro r' same
      rwa [← Option.some.inj same]
    · exact Or.inr ⟨⟨r, rfl, by omega⟩, if_neg (by simpa using newer)⟩

theorem applyVote_cases (members : Members γ) (now : Int) (f : VoteFrame γ) (p : Phone γ) :
    p.applyVote members now f = p ∨
      ∃ choices, p.applyVote members now f = p.putPollVote now f.voter f.group choices f.seq ∧
        (p.poll = none ∧ choices = sortedIn kPollMaxOptions f.choices ∨
          ∃ row, p.poll = some row ∧ row.group = f.group ∧ row.spec.closed = false ∧
            choices = cleanChoices f.choices row.spec) := by
  unfold applyVote
  cases members f.group with
  | none => exact .inl rfl
  | some ms =>
    dsimp only
    cases here : p.poll with
    | none =>
      split
      next => exact .inl rfl
      next => exact .inr ⟨_, rfl, .inl ⟨rfl, rfl⟩⟩
      next => exact .inl rfl
    | some row =>
      split
      next => exact .inl rfl
      next held =>
        simp only [voteFate, Option.isSome_some, Bool.not_true, Bool.false_eq_true,
          if_false] at held
        split_ifs at held
      next counted =>
        refine .inr ⟨_, rfl, .inr ⟨row, rfl, ?_⟩⟩
        simp only [voteFate, Option.isSome_some, Bool.not_true, Bool.false_eq_true,
          if_false, Option.map_some] at counted
        split_ifs at counted with outside shut
        simp only [Bool.or_eq_true, Bool.not_eq_true', decide_eq_false_iff_not, not_or,
          not_not, Bool.not_eq_true, Option.some.injEq] at shut
        exact ⟨shut.1, shut.2, rfl⟩

theorem applyVote_hold {f : VoteFrame γ} {ms : List Id} (inGroup : members f.group = some ms)
    (member : f.voter ∈ ms) (away : p.poll = none) (notGone : p.gone = none) :
    p.applyVote members now f =
      p.putPollVote now f.voter f.group (sortedIn kPollMaxOptions f.choices) f.seq := by
  unfold applyVote
  rw [inGroup]
  rw [away, notGone]
  simp [voteFate, member]

theorem applyVote_count {f : VoteFrame γ} {ms : List Id} {row : PollRow γ}
    (inGroup : members f.group = some ms) (member : f.voter ∈ ms) (here : p.poll = some row)
    (sameChat : row.group = f.group) (isOpen : row.spec.closed = false) :
    p.applyVote members now f =
      p.putPollVote now f.voter f.group (cleanChoices f.choices row.spec) f.seq := by
  unfold applyVote
  rw [inGroup]
  rw [here]
  simp [voteFate, member, sameChat, isOpen]

omit [DecidableEq γ] in
@[simp] theorem putPollVote_poll (now : Int) (voter : Id) (group : γ) (choices : List Nat) (seq : Int)
    (p : Phone γ) : (p.putPollVote now voter group choices seq).poll = p.poll := by
  unfold putPollVote
  split <;> rfl

@[simp] theorem applyVote_poll (members : Members γ) (now : Int) (f : VoteFrame γ) (p : Phone γ) :
    (p.applyVote members now f).poll = p.poll := by
  rcases p.applyVote_cases members now f with same | ⟨choices, eq, -⟩
  · rw [same]
  · rw [eq, putPollVote_poll]

omit [DecidableEq γ] in
theorem filePoll_here {row : PollRow γ} (here : p.poll ≠ none) : p.filePoll members row = p := by
  unfold filePoll
  cases members row.group with
  | none => rfl
  | some ms => exact if_neg fun both => here both.2

end

end Phone

end Kryfo.Ballot
