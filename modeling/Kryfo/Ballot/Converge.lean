import Kryfo.Ballot.Phone

/-!
# Votes count the same in any order

Phones get a poll and its votes in any order and any number of times.  Each then counts every
voter's highest-numbered vote, exactly when that vote names the chat of the poll: one that names
another chat is counted only when it comes before the poll.
-/

namespace Kryfo.Ballot

open Library List

variable {γ : Type*} [DecidableEq γ]

def Highest (frames : List (VoteFrame γ)) (f : VoteFrame γ) : Prop :=
  f ∈ frames ∧ ∀ g ∈ frames, g.voter = f.voter → g.seq ≤ f.seq

def Numbered (frames : List (VoteFrame γ)) : Prop :=
  ∀ f ∈ frames, ∀ g ∈ frames, f.voter = g.voter → f.seq = g.seq → f = g

instance (frames : List (VoteFrame γ)) : Decidable (Numbered frames) :=
  inferInstanceAs (Decidable (∀ f ∈ frames, ∀ g ∈ frames, _ → _ → _))

/-- What comes to a phone: the poll, each of the frames once or more, those before the poll within
the hour they wait, and sweeps. -/
structure Delivery (members : Phone.Members γ) (row : PollRow γ) (frames : List (VoteFrame γ))
    (early : List (Int × Arrival γ)) (now : Int) (late : List (Int × Arrival γ)) : Prop where
  inChat : ∃ ms, members row.group = some ms ∧ row.creator ∈ ms ∧ ∀ f ∈ frames, f.voter ∈ ms
  clock : ∀ a ∈ early, a.1 ≤ now
  waits : ∀ a ∈ early, (∃ f ∈ frames, a.2 = .vote f ∧ now ≤ a.1 + strayAfter) ∨ a.2 = .sweep
  after : ∀ a ∈ late, (∃ f ∈ frames, a.2 = .vote f) ∨ a.2 = .sweep ∨ a.2 = .poll row
  all : ∀ f ∈ frames, ∃ t, (t, .vote f) ∈ early ∨ (t, .vote f) ∈ late

def outcome (members : Phone.Members γ) (row : PollRow γ) (early : List (Int × Arrival γ)) (now : Int)
    (late : List (Int × Arrival γ)) : Phone γ :=
  Phone.run members (early ++ (now, .poll row) :: late)

structure HoldsHighest (row : PollRow γ) (frames : List (VoteFrame γ)) (p : Phone γ) : Prop where
  highest : ∀ f, Highest frames f → ∃ r, p.votes.lookup f.voter = some r ∧ r.vote.seq = f.seq ∧
    cleanChoices (r.vote.choices.map Value.ofNat) row.spec = cleanChoices f.choices row.spec
  voters : ∀ voter r, p.votes.lookup voter = some r → ∃ f ∈ frames, f.voter = voter

/-! ## What holds along a run -/

/-- What the rows are, after some frames have come, with the poll due at `due`. -/
structure Kept (row : PollRow γ) (frames got : List (VoteFrame γ)) (due : Int) (p : Phone γ) :
    Prop where
  gone : p.gone = none
  cast : ∀ voter r, p.votes.lookup voter = some r → ∃ f ∈ frames, f.voter = voter ∧
    r.group = f.group ∧ r.vote.seq = f.seq ∧
    cleanChoices (r.vote.choices.map Value.ofNat) row.spec = cleanChoices f.choices row.spec
  reached : ∀ f ∈ got, f.group = row.group →
    ∃ r, p.votes.lookup f.voter = some r ∧ f.seq ≤ r.vote.seq
  fresh : p.poll = none → ∀ voter r, p.votes.lookup voter = some r → due ≤ r.came + strayAfter

section

variable {members : Phone.Members γ} {row : PollRow γ} {frames got : List (VoteFrame γ)} {due now : Int}
  {p : Phone γ}

omit [DecidableEq γ] in
theorem kept_empty (row : PollRow γ) (frames : List (VoteFrame γ)) (due : Int) :
    Kept row frames [] due Phone.empty :=
  ⟨rfl, nofun, nofun, nofun⟩

variable {f : VoteFrame γ}

omit [DecidableEq γ] in
theorem Kept.put (kept : Kept row frames got due p) (isFrame : f ∈ frames)
    (soon : p.poll = none → due ≤ now + strayAfter) {choices : List Nat}
    (clean : cleanChoices (choices.map Value.ofNat) row.spec = cleanChoices f.choices row.spec) :
    Kept row frames (f :: got) due (p.putPollVote now f.voter f.group choices f.seq) := by
  rcases p.putPollVote_cases now f.voter f.group choices f.seq with
    ⟨newer, eq⟩ | ⟨⟨r, found, older⟩, eq⟩
  · rw [eq]
    refine ⟨kept.gone, ?_, ?_, ?_⟩
    · intro voter r found
      rw [Dict.lookup_set] at found
      split at found
      next same =>
        cases found
        exact ⟨f, isFrame, same.symm, rfl, rfl, clean⟩
      next => exact kept.cast voter r found
    · intro g inside sameChat
      rw [Dict.lookup_set]
      by_cases same : g.voter = f.voter
      · rw [if_pos same]
        refine ⟨_, rfl, ?_⟩
        rcases mem_cons.mp inside with rfl | before
        · exact Int.le_refl _
        · obtain ⟨r, found, below⟩ := kept.reached g before sameChat
          rw [same] at found
          exact Int.le_trans below (Int.le_of_lt (newer r found))
      · rw [if_neg same]
        rcases mem_cons.mp inside with rfl | before
        · exact absurd rfl same
        · exact kept.reached g before sameChat
    · intro away voter r found
      rw [Dict.lookup_set] at found
      split at found
      next =>
        cases found
        exact soon away
      next => exact kept.fresh away voter r found
  · rw [eq]
    refine ⟨kept.gone, kept.cast, ?_, kept.fresh⟩
    intro g inside sameChat
    rcases mem_cons.mp inside with rfl | before
    · exact ⟨r, found, older⟩
    · exact kept.reached g before sameChat

omit [DecidableEq γ] in
theorem Kept.other (kept : Kept row frames got due p) (otherChat : f.group ≠ row.group) :
    Kept row frames (f :: got) due p := by
  refine ⟨kept.gone, kept.cast, ?_, kept.fresh⟩
  intro g inside sameChat
  rcases mem_cons.mp inside with rfl | before
  · exact absurd sameChat otherChat
  · exact kept.reached g before sameChat

def PollRow.filed (row : PollRow γ) : PollRow γ := { row with spec := { row.spec with closed := false } }

theorem Kept.vote (kept : Kept row frames got due p) {ms : List Id}
    (inChat : members row.group = some ms) (isFrame : f ∈ frames) (member : f.voter ∈ ms)
    (here : p.poll = none ∨ p.poll = some row.filed)
    (soon : p.poll = none → due ≤ now + strayAfter) :
    Kept row frames (f :: got) due (p.applyVote members now f) := by
  by_cases sameChat : f.group = row.group
  · have inGroup : members f.group = some ms := sameChat ▸ inChat
    rcases here with away | here
    · rw [Phone.applyVote_hold inGroup member away kept.gone]
      exact kept.put isFrame soon cleanChoices_held
    · rw [Phone.applyVote_count inGroup member here sameChat.symm rfl]
      exact kept.put isFrame soon cleanChoices_again
  · rcases p.applyVote_cases members now f with same | ⟨choices, eq, held | ⟨row', here', group, -⟩⟩
    · rw [same]
      exact kept.other sameChat
    · rw [eq, held.2]
      exact kept.put isFrame soon cleanChoices_held
    · rcases here with away | here
      · rw [away] at here'
        cases here'
      · rw [here] at here'
        cases here'
        exact absurd group.symm sameChat

omit [DecidableEq γ] in
theorem Kept.sweep (kept : Kept row frames got due p) (early : p.poll = none → now ≤ due) :
    Kept row frames got due (p.purgeStrayVotes now) := by
  have votes : ∀ voter r, p.votes.lookup voter = some r →
      (p.purgeStrayVotes now).votes.lookup voter = some r := by
    intro voter r found
    unfold Phone.purgeStrayVotes
    dsimp only
    split
    next => exact found
    next away =>
      have away' : p.poll = none := by simpa using away
      have := kept.fresh away' voter r found
      have := early away'
      rw [Dict.lookup_keep, Option.filter_eq_some_iff]
      exact ⟨found, decide_eq_true (by omega)⟩
  have back : ∀ voter r, (p.purgeStrayVotes now).votes.lookup voter = some r →
      p.votes.lookup voter = some r := by
    intro voter r found
    unfold Phone.purgeStrayVotes at found
    dsimp only at found
    split at found
    next => exact found
    next =>
      rw [Dict.lookup_keep, Option.filter_eq_some_iff] at found
      exact found.1
  refine ⟨?_, ?_, ?_, ?_⟩
  · show p.gone.filter _ = none
    rw [kept.gone]
    rfl
  · exact fun voter r found => kept.cast voter r (back voter r found)
  · intro f inside sameChat
    obtain ⟨r, found, below⟩ := kept.reached f inside sameChat
    exact ⟨r, votes _ r found, below⟩
  · exact fun away voter r found => kept.fresh away voter r (back voter r found)

/-- What may come to a phone that has the poll, or waits for it until `due`. -/
def Comes (row : PollRow γ) (frames : List (VoteFrame γ)) (due : Int) (poll : Option (PollRow γ))
    (a : Int × Arrival γ) : Prop :=
  (∃ f ∈ frames, a.2 = .vote f ∧ (poll = none → due ≤ a.1 + strayAfter)) ∨
    (a.2 = .sweep ∧ (poll = none → a.1 ≤ due)) ∨ (a.2 = .poll row ∧ poll ≠ none)

theorem Kept.run (kept : Kept row frames got due p) {ms : List Id}
    (inChat : members row.group = some ms) (voters : ∀ f ∈ frames, f.voter ∈ ms)
    (here : p.poll = none ∨ p.poll = some row.filed) {acts : List (Int × Arrival γ)}
    (comes : ∀ a ∈ acts, Comes row frames due p.poll a) :
    (acts.foldl (Phone.take members) p).poll = p.poll ∧
      ∃ got', (∀ f ∈ got, f ∈ got') ∧ (∀ t f, (t, Arrival.vote f) ∈ acts → f ∈ got') ∧
        Kept row frames got' due (acts.foldl (Phone.take members) p) := by
  induction acts generalizing p got with
  | nil => exact ⟨rfl, got, fun _ inside => inside, nofun, kept⟩
  | cons a acts ih =>
    obtain ⟨t, what⟩ := a
    have rest := fun a inside => comes a (mem_cons_of_mem _ inside)
    rcases comes _ mem_cons_self with ⟨f, isFrame, rfl, soon⟩ | ⟨rfl, early⟩ | ⟨rfl, came⟩
    · have samePoll := p.applyVote_poll members t f
      have first := kept.vote inChat isFrame (voters f isFrame) here soon
      obtain ⟨poll, got', sub, all, kept'⟩ := ih first (samePoll ▸ here) (samePoll ▸ rest)
      refine ⟨poll.trans samePoll, got', fun g inside => sub g (mem_cons_of_mem _ inside),
        ?_, kept'⟩
      intro t' g inside
      rcases mem_cons.mp inside with same | later
      · cases same
        exact sub f mem_cons_self
      · exact all t' g later
    · obtain ⟨poll, got', sub, all, kept'⟩ := ih (kept.sweep early) here rest
      refine ⟨poll, got', sub, ?_, kept'⟩
      intro t' g inside
      rcases mem_cons.mp inside with same | later
      · cases same
      · exact all t' g later
    · have same := @Phone.filePoll_here γ members p row came
      rw [foldl_cons, Phone.take, same]
      obtain ⟨poll, got', sub, all, kept'⟩ := ih kept here rest
      refine ⟨poll, got', sub, ?_, kept'⟩
      intro t' g inside
      rcases mem_cons.mp inside with same | later
      · cases same
      · exact all t' g later

variable {early late : List (Int × Arrival γ)}

/-- After a delivery the phone has the poll, and rows of all the frames. -/
theorem Delivery.kept (delivery : Delivery members row frames early now late) :
    ∃ got, (∀ f ∈ frames, f ∈ got) ∧ Kept row frames got now (outcome members row early now late) := by
  obtain ⟨ms, inChat, creator, voters⟩ := delivery.inChat
  have comesEarly : ∀ a ∈ early, Comes row frames now (Phone.empty : Phone γ).poll a := by
    intro a inside
    rcases delivery.waits a inside with ⟨f, isFrame, isVote, soon⟩ | isSweep
    · exact .inl ⟨f, isFrame, isVote, fun _ => soon⟩
    · exact .inr (.inl ⟨isSweep, fun _ => delivery.clock a inside⟩)
  obtain ⟨away, got, -, allEarly, kept⟩ :=
    (kept_empty row frames now).run inChat voters (.inl rfl) comesEarly
  rw [outcome, Phone.run, foldl_append, foldl_cons]
  generalize early.foldl (Phone.take members) Phone.empty = p at away kept ⊢
  have filed : Phone.take members p (now, .poll row) = { p with poll := some row.filed } := by
    rw [Phone.take, Phone.filePoll, inChat]
    exact if_pos ⟨creator, away⟩
  rw [filed]
  have kept' : Kept row frames got now { p with poll := some row.filed } :=
    ⟨kept.gone, kept.cast, kept.reached, nofun⟩
  have comesLate : ∀ a ∈ late, Comes row frames now (some row.filed) a := by
    intro a inside
    rcases delivery.after a inside with ⟨f, isFrame, isVote⟩ | isSweep | isPoll
    · exact .inl ⟨f, isFrame, isVote, nofun⟩
    · exact .inr (.inl ⟨isSweep, nofun⟩)
    · exact .inr (.inr ⟨isPoll, nofun⟩)
  obtain ⟨-, got', sub, allLate, keptLate⟩ := kept'.run inChat voters (.inr rfl) comesLate
  refine ⟨got', ?_, keptLate⟩
  intro f isFrame
  obtain ⟨t, isEarly | isLate⟩ := delivery.all f isFrame
  · exact sub f (allEarly t f isEarly)
  · exact allLate t f isLate

omit [DecidableEq γ] in
/-- Rows of all the frames are rows of the highest ones. -/
theorem Kept.holdsHighest (kept : Kept row frames got due p) (all : ∀ f ∈ frames, f ∈ got)
    (numbered : Numbered frames)
    (sameChat : ∀ f, Highest frames f → f.group = row.group) : HoldsHighest row frames p := by
  refine ⟨?_, ?_⟩
  · intro f highest
    obtain ⟨r, found, below⟩ := kept.reached f (all f highest.1) (sameChat f highest)
    obtain ⟨g, isFrame, sameVoter, -, seq, clean⟩ := kept.cast f.voter r found
    have above := highest.2 g isFrame sameVoter
    have same : g = f := numbered g isFrame f highest.1 sameVoter (by omega)
    subst same
    exact ⟨r, found, seq, clean⟩
  · intro voter r found
    obtain ⟨f, isFrame, sameVoter, -⟩ := kept.cast voter r found
    exact ⟨f, isFrame, sameVoter⟩

omit [DecidableEq γ] in
theorem exists_highest (isFrame : f ∈ frames) : ∃ g, Highest frames g ∧ g.voter = f.voter := by
  have some' : (frames.filter (·.voter = f.voter)) ≠ [] :=
    ne_nil_of_mem (mem_filter.mpr ⟨isFrame, decide_eq_true rfl⟩)
  have top : (frames.filter (·.voter = f.voter)).argmax (·.seq) ≠ none := by
    rw [Ne, argmax_eq_none]
    exact some'
  obtain ⟨g, isTop⟩ := Option.ne_none_iff_exists'.mp top
  obtain ⟨inside, sameVoter⟩ := mem_filter.mp (argmax_mem isTop)
  have sameVoter' : g.voter = f.voter := of_decide_eq_true sameVoter
  refine ⟨g, ⟨inside, ?_⟩, sameVoter'⟩
  intro h isFrame' same
  have listed : h ∈ frames.filter (·.voter = f.voter) :=
    mem_filter.mpr ⟨isFrame', decide_eq_true (same.trans sameVoter')⟩
  exact le_of_mem_argmax listed isTop

omit [DecidableEq γ] in
theorem HoldsHighest.same {p p' : Phone γ} (holds : HoldsHighest row frames p)
    (holds' : HoldsHighest row frames p') (me me' : Id) :
    (tallyPoll row.spec p.pollVotesFor me).Same (tallyPoll row.spec p'.pollVotesFor me') := by
  have picks : ∀ {p : Phone γ}, HoldsHighest row frames p → ∀ {f}, Highest frames f →
      (p.pollVotesFor.lookup f.voter).map
        (fun v => cleanChoices (v.choices.map Value.ofNat) row.spec) =
          some (cleanChoices f.choices row.spec) := by
    intro p holds f highest
    obtain ⟨r, found, -, clean⟩ := holds.highest f highest
    rw [Phone.lookup_pollVotesFor, found]
    exact congrArg some clean
  have none' : ∀ {p : Phone γ}, HoldsHighest row frames p → ∀ {voter},
      (∀ f ∈ frames, f.voter ≠ voter) → p.pollVotesFor.lookup voter = none := by
    intro p holds voter silent
    rw [Phone.lookup_pollVotesFor, Option.map_eq_none_iff]
    by_contra held
    obtain ⟨r, found⟩ := Option.ne_none_iff_exists'.mp held
    obtain ⟨f, isFrame, sameVoter⟩ := holds.voters voter r found
    exact silent f isFrame sameVoter
  apply tallyPoll_same
  intro voter
  by_cases voted : ∃ f ∈ frames, f.voter = voter
  · obtain ⟨f, isFrame, rfl⟩ := voted
    obtain ⟨g, highest, sameVoter⟩ := exists_highest isFrame
    rw [← sameVoter, picks holds highest, picks holds' highest]
  · have silent : ∀ f ∈ frames, f.voter ≠ voter := fun f isFrame same => voted ⟨f, isFrame, same⟩
    rw [none' holds silent, none' holds' silent]

/-! ## Votes that name another chat -/

theorem group_of_late (inRow : ∀ voter r, p.votes.lookup voter = some r → r.group = row.group)
    (here : p.poll = some row.filed) (fs : List (VoteFrame γ)) :
    ∀ voter r, ((fs.map fun f => ((0 : Int), Arrival.vote f)).foldl (Phone.take members) p).votes.lookup
      voter = some r → r.group = row.group := by
  induction fs generalizing p with
  | nil => exact inRow
  | cons f fs ih =>
    apply @ih (p.applyVote members 0 f)
    · rcases p.applyVote_cases members 0 f with same | ⟨choices, eq, away | ⟨row', here', group, -⟩⟩
      · rw [same]
        exact inRow
      · rw [here] at away
        cases away.1
      · rw [here] at here'
        cases here'
        rcases p.putPollVote_cases 0 f.voter f.group choices f.seq with ⟨-, eq'⟩ | ⟨-, eq'⟩
        · rw [eq, eq']
          intro voter r found
          rw [Dict.lookup_set] at found
          split at found
          next =>
            cases found
            exact group.symm
          next => exact inRow voter r found
        · rw [eq, eq']
          exact inRow
    · rw [Phone.applyVote_poll, here]

def onlyChat (row : PollRow γ) (frames : List (VoteFrame γ)) : Phone.Members γ :=
  fun g => if g = row.group then some (row.creator :: frames.map (·.voter)) else none

theorem delivery_pollFirst (row : PollRow γ) (frames : List (VoteFrame γ)) :
    Delivery (onlyChat row frames) row frames [] 0 (frames.map fun f => (0, .vote f)) := by
  have isChat : onlyChat row frames row.group = some (row.creator :: frames.map (·.voter)) := if_pos rfl
  refine ⟨⟨_, isChat, mem_cons_self, ?_⟩, nofun, nofun, ?_, ?_⟩
  · intro f isFrame
    exact mem_cons_of_mem _ (mem_map.mpr ⟨f, isFrame, rfl⟩)
  · intro a inside
    obtain ⟨f, isFrame, rfl⟩ := mem_map.mp inside
    exact .inl ⟨f, isFrame, rfl⟩
  · intro f isFrame
    exact ⟨0, .inr (mem_map.mpr ⟨f, isFrame, rfl⟩)⟩

theorem sameChat_of_holdsHighest (numbered : Numbered frames)
    (holds : HoldsHighest row frames (outcome (onlyChat row frames) row [] 0
      (frames.map fun f => (0, .vote f))))
    (highest : Highest frames f) : f.group = row.group := by
  obtain ⟨got, -, kept⟩ := (delivery_pollFirst row frames).kept
  obtain ⟨r, found, seq, -⟩ := holds.highest f highest
  obtain ⟨g, isFrame, sameVoter, sameGroup, seq', -⟩ := kept.cast f.voter r found
  have same : g = f := numbered g isFrame f highest.1 sameVoter (seq'.symm.trans seq)
  subst same
  rw [← sameGroup]
  have filed : Phone.take (onlyChat row frames) Phone.empty (0, .poll row) =
      { (Phone.empty : Phone γ) with poll := some row.filed } := by
    rw [Phone.take, Phone.filePoll, onlyChat, if_pos rfl]
    exact if_pos ⟨mem_cons_self, rfl⟩
  rw [outcome, Phone.run, nil_append, foldl_cons, filed] at found
  exact @group_of_late _ _ _ row { (Phone.empty : Phone γ) with poll := some row.filed } nofun rfl
    frames g.voter r found

/-- Any two phones end with the highest vote of each voter and with the same count exactly when
those votes name the chat of the poll. -/
theorem votes_alike_iff (numbered : Numbered frames) :
    (∀ members early now late, Delivery members row frames early now late →
        ∀ members' early' now' late', Delivery members' row frames early' now' late' →
          ∀ me me', HoldsHighest row frames (outcome members row early now late) ∧
            HoldsHighest row frames (outcome members' row early' now' late') ∧
            (tallyPoll row.spec (outcome members row early now late).pollVotesFor me).Same
              (tallyPoll row.spec (outcome members' row early' now' late').pollVotesFor me')) ↔
      ∀ f, Highest frames f → f.group = row.group := by
  constructor
  · intro alike f highest
    have delivery := delivery_pollFirst row frames
    have holds := (alike _ _ _ _ delivery _ _ _ _ delivery row.creator row.creator).1
    exact sameChat_of_holdsHighest numbered holds highest
  · intro sameChat members early now late delivery members' early' now' late' delivery' me me'
    obtain ⟨got, all, kept⟩ := delivery.kept
    obtain ⟨got', all', kept'⟩ := delivery'.kept
    have holds := kept.holdsHighest all numbered sameChat
    have holds' := kept'.holdsHighest all' numbered sameChat
    exact ⟨holds, holds', holds.same holds' me me'⟩

end

/-! ## Two phones that differ -/

def ana : Id := ⟨"ana", by decide⟩

def ben : Id := ⟨"ben", by decide⟩

def lunch : PollRow Bool := ⟨⟨["pizza", "noodles"], false, false, by decide, by decide⟩, true, ana⟩

def lunchVote (group : Bool) : VoteFrame Bool := ⟨ben, group, [.int 1], 5⟩

def bothChats : Phone.Members Bool := fun _ => some [ana, ben]

theorem delivery_voteFirst (group : Bool) :
    Delivery bothChats lunch [lunchVote group] [(0, .vote (lunchVote group))] 0 [] := by
  refine ⟨⟨[ana, ben], rfl, by decide, ?_⟩, ?_, ?_, nofun, ?_⟩
  · intro f isFrame
    rw [mem_singleton.mp isFrame]
    exact mem_cons_of_mem _ mem_cons_self
  · intro a inside
    rw [mem_singleton.mp inside]
  · intro a inside
    rw [mem_singleton.mp inside]
    have soon : (0 : Int) ≤ 0 + strayAfter := by decide
    exact .inl ⟨_, mem_singleton.mpr rfl, rfl, soon⟩
  · intro f isFrame
    rw [mem_singleton.mp isFrame]
    exact ⟨0, .inl (mem_singleton.mpr rfl)⟩

theorem delivery_voteLast (group : Bool) :
    Delivery bothChats lunch [lunchVote group] [] 0 [(0, .vote (lunchVote group))] := by
  refine ⟨⟨[ana, ben], rfl, by decide, ?_⟩, nofun, nofun, ?_, ?_⟩
  · intro f isFrame
    rw [mem_singleton.mp isFrame]
    exact mem_cons_of_mem _ mem_cons_self
  · intro a inside
    rw [mem_singleton.mp inside]
    exact .inl ⟨_, mem_singleton.mpr rfl, rfl⟩
  · intro f isFrame
    rw [mem_singleton.mp isFrame]
    exact ⟨0, .inr (mem_singleton.mpr rfl)⟩

/-- Two phones that get a vote in the chat of the poll, one before it and one after it. -/
theorem votes_alike_lunch :
    Numbered [lunchVote true] ∧ HoldsHighest lunch [lunchVote true]
        (outcome bothChats lunch [(0, .vote (lunchVote true))] 0 []) ∧
      HoldsHighest lunch [lunchVote true]
        (outcome bothChats lunch [] 0 [(0, .vote (lunchVote true))]) := by
  have numbered : Numbered [lunchVote true] := by decide
  have sameChat : ∀ f, Highest [lunchVote true] f → f.group = lunch.group := by
    intro f highest
    rw [mem_singleton.mp highest.1]
    rfl
  have alike := (votes_alike_iff numbered).mpr sameChat _ _ _ _ (delivery_voteFirst true) _ _ _ _
    (delivery_voteLast true) ana ana
  exact ⟨numbered, alike.1, alike.2.1⟩

/-- A vote that names another chat counts on the phone it reached before the poll, and not on
the other. -/
theorem votes_differ_otherChat :
    Numbered [lunchVote false] ∧
      Delivery bothChats lunch [lunchVote false] [(0, .vote (lunchVote false))] 0 [] ∧
      Delivery bothChats lunch [lunchVote false] [] 0 [(0, .vote (lunchVote false))] ∧
      (tallyPoll lunch.spec
        (outcome bothChats lunch [(0, .vote (lunchVote false))] 0 []).pollVotesFor ana).counts =
          [0, 1] ∧
      (tallyPoll lunch.spec
        (outcome bothChats lunch [] 0 [(0, .vote (lunchVote false))]).pollVotesFor ana).counts =
          [0, 0] :=
  ⟨by decide, delivery_voteFirst false, delivery_voteLast false, by decide +kernel,
    by decide +kernel⟩

end Kryfo.Ballot
