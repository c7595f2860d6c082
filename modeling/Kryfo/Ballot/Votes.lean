import Mathlib
import Kryfo.Library.Dict

/-!
# Polls, votes and their count

A vote is cleaned against its poll, and a count cleans what it reads again, so a vote that was
kept as it came counts as one that was cleaned on the way in.
-/

namespace Kryfo.Ballot

open Library List

def kPollMinOptions : Nat := 2

def kPollMaxOptions : Nat := 12

/-- The number the final votes of a closed poll are held at. -/
def kPollFinalSeq : Int := 2 ^ 52

/-- The id of a member, which is never empty. -/
abbrev Id := { name : String // name ≠ "" }

structure PollSpec where
  options : List String
  multi : Bool
  closed : Bool
  least : kPollMinOptions ≤ options.length
  most : options.length ≤ kPollMaxOptions
deriving DecidableEq

def PollSpec.closedNow (poll : PollSpec) : PollSpec := { poll with closed := true }

/-- What may stand in the list of choices of a frame. -/
inductive Value where
  | int (n : Int)
  | other
deriving DecidableEq

def inRange (n : Nat) : Value → Option Nat
  | .int c => if c < 0 ∨ n ≤ c then none else some c.toNat
  | .other => none

def Value.ofNat (c : Nat) : Value := .int c

def sortedIn (n : Nat) (raw : List Value) : List Nat := (raw.filterMap (inRange n)).toFinset.sort

def cleanChoices (raw : List Value) (poll : PollSpec) : List Nat :=
  let sorted := sortedIn poll.options.length raw
  if !poll.multi && decide (1 < sorted.length) then sorted.take 1 else sorted

structure PollVote where
  choices : List Nat
  seq : Int
deriving DecidableEq

def voteIsNewer (held : Option Int) (incoming : Int) : Bool := held.all (· < incoming)

/-! ## Cleaning twice -/

section

variable {n m c : Nat} {raw raw' : List Value}

theorem inRange_ofNat : inRange n (Value.ofNat c) = if c < n then some c else none := by
  have cast : ((c : Int)).toNat = c := Int.toNat_natCast c
  rw [Value.ofNat, inRange, cast]
  by_cases small : c < n
  · rw [if_pos small, if_neg (by omega)]
  · rw [if_neg small, if_pos (by omega)]

theorem mem_sortedIn : c ∈ sortedIn n raw ↔ c < n ∧ Value.ofNat c ∈ raw := by
  rw [sortedIn, Finset.mem_sort, mem_toFinset, mem_filterMap]
  constructor
  · rintro ⟨v, inside, kept⟩
    cases v with
    | other => cases kept
    | int k =>
      rw [inRange] at kept
      split at kept
      next => cases kept
      next within =>
        have isC : k.toNat = c := Option.some.inj kept
        have same : Value.int k = Value.ofNat c := by
          congr 1
          omega
        exact ⟨by omega, same ▸ inside⟩
  · rintro ⟨small, inside⟩
    exact ⟨_, inside, by rw [inRange_ofNat, if_pos small]⟩

theorem sortedIn_congr (same : ∀ c, c < n → (Value.ofNat c ∈ raw ↔ Value.ofNat c ∈ raw')) :
    sortedIn n raw = sortedIn n raw' := by
  have sets : (raw.filterMap (inRange n)).toFinset = (raw'.filterMap (inRange n)).toFinset := by
    ext c
    rw [← Finset.mem_sort (· ≤ ·), ← Finset.mem_sort (· ≤ ·)]
    exact mem_sortedIn.trans ((and_congr_right (same c)).trans mem_sortedIn.symm)
  rw [sortedIn, sets, sortedIn]

theorem sortedIn_of_sortedIn (wide : n ≤ m) :
    sortedIn n ((sortedIn m raw).map Value.ofNat) = sortedIn n raw := by
  apply sortedIn_congr
  intro c small
  have injective : Function.Injective Value.ofNat := by
    intro a b same
    have := Value.int.inj same
    omega
  rw [mem_map_of_injective injective, mem_sortedIn]
  exact and_iff_right (by omega)

variable {poll : PollSpec}

theorem cleanChoices_again :
    cleanChoices ((cleanChoices raw poll).map Value.ofNat) poll = cleanChoices raw poll := by
  unfold cleanChoices
  generalize size : poll.options.length = n
  by_cases several : (!poll.multi && decide (1 < (sortedIn n raw).length)) = true
  · rw [if_pos several]
    cases sorted : sortedIn n raw with
    | nil =>
      rw [sorted] at several
      simp at several
    | cons c rest =>
      have small : c < n := (mem_sortedIn.mp (sorted ▸ mem_cons_self)).1
      have one : sortedIn n [Value.ofNat c] = [c] := by
        have only : ([Value.ofNat c].filterMap (inRange n)) = [c] := by
          rw [filterMap_cons, inRange_ofNat, if_pos small]
          rfl
        rw [sortedIn, only, toFinset_cons, toFinset_nil, insert_empty_eq, Finset.sort_singleton]
      show (if _ then (sortedIn n [Value.ofNat c]).take 1 else sortedIn n [Value.ofNat c]) = [c]
      rw [one]
      split <;> rfl
  · rw [if_neg several, sortedIn_of_sortedIn (Nat.le_refl n), if_neg several]

theorem cleanChoices_held :
    cleanChoices ((sortedIn kPollMaxOptions raw).map Value.ofNat) poll = cleanChoices raw poll := by
  unfold cleanChoices
  rw [sortedIn_of_sortedIn poll.most]

end

/-! ## The count -/

structure PollTally where
  counts : List Nat
  voters : Nat
  mine : List Nat
  who : List (List Id)
deriving DecidableEq

def PollTally.add (me : Id) (t : PollTally) (voter : Id) (picks : List Nat) : PollTally :=
  if picks = [] then t
  else
    { counts := picks.foldl (fun counts c => counts.modify c (· + 1)) t.counts
      voters := t.voters + 1
      mine := if voter = me then picks else t.mine
      who := picks.foldl (fun who c => who.modify c (· ++ [voter])) t.who }

def tallyPoll (poll : PollSpec) (votes : Dict Id PollVote) (me : Id) : PollTally :=
  votes.entries.foldl
    (fun t e => t.add me e.1 (cleanChoices (e.2.choices.map Value.ofNat) poll))
    ⟨List.replicate poll.options.length 0, 0, [], List.replicate poll.options.length []⟩

/-- Two counts that say the same, the choosers in any order. -/
structure PollTally.Same (t t' : PollTally) : Prop where
  counts : t.counts = t'.counts
  voters : t.voters = t'.voters
  who : List.Forall₂ List.Perm t.who t'.who

theorem getElem?_foldl_modify {α : Type*} (f : α → α) {picks : List Nat} (once : picks.Nodup)
    (xs : List α) (i : Nat) :
    (picks.foldl (fun xs c => xs.modify c f) xs)[i]? =
      if i ∈ picks then xs[i]?.map f else xs[i]? := by
  induction picks generalizing xs with
  | nil => rw [foldl_nil, if_neg not_mem_nil]
  | cons c picks ih =>
    obtain ⟨first, once'⟩ := nodup_cons.mp once
    rw [foldl_cons, ih once']
    by_cases here : i = c
    · subst here
      rw [if_neg first]
      simp
    · have elsewhere : ¬c = i := fun same => here same.symm
      simp [here, elsewhere]

theorem length_foldl_modify {α : Type*} (f : α → α) (picks : List Nat) (xs : List α) :
    (picks.foldl (fun xs c => xs.modify c f) xs).length = xs.length := by
  induction picks generalizing xs with
  | nil => rfl
  | cons c picks ih => rw [foldl_cons, ih, length_modify]

theorem cleanChoices_nodup (raw : List Value) (poll : PollSpec) : (cleanChoices raw poll).Nodup := by
  have sorted : (sortedIn poll.options.length raw).Nodup := Finset.sort_nodup ..
  unfold cleanChoices
  dsimp only
  split
  · exact sorted.sublist (take_sublist 1 _)
  · exact sorted

section

variable {me : Id} {ballots ballots' : List (Id × List Nat)}

def addAll (me : Id) (t : PollTally) (ballots : List (Id × List Nat)) : PollTally :=
  ballots.foldl (fun t e => t.add me e.1 e.2) t

theorem addAll_at (once : ∀ e ∈ ballots, e.2.Nodup) (t : PollTally) (i : Nat) :
    (addAll me t ballots).counts[i]? =
        t.counts[i]?.map (· + ballots.countP fun e => decide (i ∈ e.2)) ∧
      (addAll me t ballots).who[i]? =
        t.who[i]?.map (· ++ (ballots.filter fun e => decide (i ∈ e.2)).map Prod.fst) := by
  induction ballots generalizing t with
  | nil => simp [addAll]
  | cons e rest ih =>
    have rest' := ih (fun e inside => once e (mem_cons_of_mem _ inside)) (t.add me e.1 e.2)
    refine ⟨rest'.1.trans ?_, rest'.2.trans ?_⟩
    all_goals
      unfold PollTally.add
      split
      next nothing => simp [nothing]
      next =>
        rw [getElem?_foldl_modify _ (once e mem_cons_self)]
        by_cases picked : i ∈ e.2
        · simp [picked, Function.comp_def, Nat.add_assoc, Nat.add_comm 1]
        · simp [picked]

theorem addAll_voters (t : PollTally) :
    (addAll me t ballots).voters = t.voters + ballots.countP fun e => decide (e.2 ≠ []) := by
  induction ballots generalizing t with
  | nil => rfl
  | cons e rest ih =>
    refine (ih (t.add me e.1 e.2)).trans ?_
    unfold PollTally.add
    split
    next nothing => simp [nothing]
    next some' =>
      simp [some']
      omega

theorem length_addAll_who (t : PollTally) : (addAll me t ballots).who.length = t.who.length := by
  induction ballots generalizing t with
  | nil => rfl
  | cons e rest ih =>
    refine (ih (t.add me e.1 e.2)).trans ?_
    unfold PollTally.add
    split
    next => rfl
    next => exact length_foldl_modify _ _ _

/-- The order of the voters changes nothing but the order of the choosers. -/
theorem addAll_same {me' : Id} (once : ∀ e ∈ ballots, e.2.Nodup) (perm : ballots.Perm ballots')
    (t : PollTally) : (addAll me t ballots).Same (addAll me' t ballots') := by
  have once' : ∀ e ∈ ballots', e.2.Nodup := fun e inside => once e (perm.mem_iff.mpr inside)
  refine ⟨?_, ?_, ?_⟩
  · apply ext_getElem?
    intro i
    rw [(addAll_at once t i).1, (addAll_at once' t i).1, perm.countP_eq]
  · rw [addAll_voters, addAll_voters, perm.countP_eq]
  · rw [List.forall₂_iff_get]
    refine ⟨by rw [length_addAll_who, length_addAll_who], ?_⟩
    intro i inside inside'
    have first := (@addAll_at me ballots once t i).2
    have second := (@addAll_at me' ballots' once' t i).2
    have start : i < t.who.length := by rwa [length_addAll_who] at inside
    rw [getElem?_eq_getElem inside, getElem?_eq_getElem start] at first
    rw [getElem?_eq_getElem inside', getElem?_eq_getElem start] at second
    rw [get_eq_getElem, get_eq_getElem, Option.some.inj first, Option.some.inj second]
    exact ((perm.filter _).map _).append_left _

end

def ballotsOf (poll : PollSpec) (votes : Dict Id PollVote) : List (Id × List Nat) :=
  votes.entries.map fun e => (e.1, cleanChoices (e.2.choices.map Value.ofNat) poll)

theorem mem_ballotsOf {poll : PollSpec} {votes : Dict Id PollVote} {e : Id × List Nat} :
    e ∈ ballotsOf poll votes ↔
      (votes.lookup e.1).map (fun v => cleanChoices (v.choices.map Value.ofNat) poll) = some e.2 := by
  obtain ⟨voter, picks⟩ := e
  rw [ballotsOf, mem_map, Option.map_eq_some_iff]
  constructor
  · rintro ⟨⟨voter', vote⟩, inside, same⟩
    obtain ⟨rfl, rfl⟩ := Prod.mk.inj same
    exact ⟨vote, Dict.mem_entries.mp inside, rfl⟩
  · rintro ⟨vote, found, rfl⟩
    exact ⟨(voter, vote), Dict.mem_entries.mpr found, rfl⟩

theorem ballotsOf_nodup (poll : PollSpec) (votes : Dict Id PollVote) :
    (ballotsOf poll votes).Nodup := by
  apply List.Nodup.of_map Prod.fst
  rw [ballotsOf, map_map]
  exact votes.nodup

theorem tallyPoll_same {poll : PollSpec} {votes votes' : Dict Id PollVote} (me me' : Id)
    (same : ∀ voter,
      (votes.lookup voter).map (fun v => cleanChoices (v.choices.map Value.ofNat) poll) =
        (votes'.lookup voter).map fun v => cleanChoices (v.choices.map Value.ofNat) poll) :
    (tallyPoll poll votes me).Same (tallyPoll poll votes' me') := by
  have asFold : ∀ (votes : Dict Id PollVote) (me : Id), tallyPoll poll votes me =
      addAll me ⟨List.replicate poll.options.length 0, 0, [],
        List.replicate poll.options.length []⟩ (ballotsOf poll votes) := by
    intro votes me
    rw [tallyPoll, addAll, ballotsOf, foldl_map]
  rw [asFold, asFold]
  apply addAll_same
  · intro e inside
    obtain ⟨vote, -, rfl⟩ := mem_map.mp inside
    exact cleanChoices_nodup _ _
  · rw [perm_ext_iff_of_nodup (ballotsOf_nodup _ _) (ballotsOf_nodup _ _)]
    intro e
    rw [mem_ballotsOf, mem_ballotsOf, same]

end Kryfo.Ballot
