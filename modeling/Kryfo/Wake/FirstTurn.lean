import Kryfo.Library.Run
import Mathlib.Data.List.Nodup

/-!
# Turns after a wake

Every socket waits a turn before it subscribes; only the first to ask after a kick goes at once.  A
call of `take` can be preempted between the two locks it takes.
-/

namespace Kryfo.Wake

open Library

/-- The kick someone was added under, and until when their free turn holds.  Kicks are counted in
the order their channels are made. -/
structure FreshMark where
  kick : Nat
  expires : Int
  deriving DecidableEq

def FreshMark.holds (m : Option FreshMark) (kc : Nat) (now : Int) : Bool :=
  m.any fun m => kc = m.kick ∧ now < m.expires

structure SubTurn where
  tag : String
  fresh : Option FreshMark
  free : Bool
  kick : Option Nat
  up : Bool

/-- How a call of `take` goes on: it had its turn under this kick, it has not got through since its
last, it was just added, it is the open chat's, it is the first, or it draws a delay. -/
inductive Going where
  | had
  | again
  | fresh
  | openChat
  | first
  | drew
  deriving DecidableEq

/-- Where a call of `take` is. -/
inductive Phase where
  | rest
  | read (kc : Nat)
  | judged (kc : Nat) (again first : Bool)
  | asking (kc : Nat)
  deriving DecidableEq

structure Call where
  socket : Nat
  kick : Nat
  going : Going
  deriving DecidableEq

structure Engine where
  kick : Nat
  firstTurn : Option Nat
  firstTag : String
  now : Int
  turns : Nat → SubTurn
  phase : Nat → Phase
  calls : List Call

inductive Act where
  | kick
  | chatOpened (tag : String)
  | tick (d : Nat)
  | begin (i : Nat) (tag : String) (fresh : Option FreshMark)
  | park (i : Nat)
  | take (i : Nat)
  | judge (i : Nat)
  | look (i : Nat)
  | ask (i : Nat)
  | dialed (i : Nat) (ok : Bool)
  | skip (i : Nat)

namespace Engine

variable (s : Engine) (i : Nat)

def setTurn (t : SubTurn) : Engine := { s with turns := Function.update s.turns i t }

def setPhase (p : Phase) : Engine := { s with phase := Function.update s.phase i p }

def goes (kc : Nat) (going : Going) : Engine :=
  { s.setPhase i .rest with calls := ⟨i, kc, going⟩ :: s.calls }

def isFirstTag (tag : String) : Bool := tag ≠ "" ∧ s.firstTag = tag

def judge (kc : Nat) : Engine :=
  let t := s.turns i
  if t.kick = some kc then s.goes i kc .had
  else
    let again := t.kick.isSome && !t.up && !t.free
    let first := t.kick.isNone && FreshMark.holds t.fresh kc s.now
    (s.setTurn i { t with kick := some kc, free := first }).setPhase i (.judged kc again first)

def look (kc : Nat) (again first : Bool) : Engine :=
  if again then s.goes i kc .again
  else if first then s.goes i kc .fresh
  else if s.isFirstTag (s.turns i).tag then s.goes i kc .openChat
  else (s.setTurn i { s.turns i with up := false }).setPhase i (.asking kc)

/-- `takeFirstTurn`, and what follows it. -/
def ask (kc : Nat) : Engine :=
  if s.firstTurn = some kc then s.goes i kc .drew
  else { s.goes i kc .first with firstTurn := some kc }

def next (s : Engine) : Act → Engine
  | .kick => { s with kick := s.kick + 1 }
  | .chatOpened tag => { s with firstTag := tag }
  | .tick d => { s with now := s.now + d }
  | .begin i tag fresh => if s.phase i = .rest then s.setTurn i ⟨tag, fresh, false, none, false⟩ else s
  | .park i => if s.phase i = .rest then s.setTurn i { s.turns i with fresh := none } else s
  | .take i => if s.phase i = .rest then s.setPhase i (.read s.kick) else s
  | .judge i => match s.phase i with
    | .read kc => s.judge i kc
    | _ => s
  | .look i => match s.phase i with
    | .judged kc again first => s.look i kc again first
    | _ => s
  | .ask i => match s.phase i with
    | .asking kc => s.ask i kc
    | _ => s
  | .dialed i ok =>
    if s.phase i = .rest then s.setTurn i { s.turns i with up := ok || (s.turns i).up } else s
  | .skip i => if s.phase i = .rest then s.setTurn i { s.turns i with kick := some s.kick } else s

/-- The kicks of the calls that went at once as the first, newest first. -/
def firsts : List Nat := s.calls.filterMap fun c => if c.going = .first then some c.kick else none

def start (firstTag : String) (now : Int) (turns : Nat → SubTurn) : Engine :=
  ⟨0, none, firstTag, now, turns, fun _ => .rest, []⟩

/-- A call asks for the first turn only while no newer kick has had one. -/
def InOrder (s : Engine) : Act → Prop
  | .ask i => ∀ kc, s.phase i = .asking kc → ∀ noted ∈ s.firstTurn, noted ≤ kc
  | _ => True

variable {s} {i}

/-- What a step leaves of the first turns there were. -/
def Same (s s' : Engine) : Prop := s'.firstTurn = s.firstTurn ∧ s'.firsts = s.firsts

theorem same_goes {kc : Nat} {going : Going} (other : going ≠ .first) : s.Same (s.goes i kc going) :=
  ⟨rfl, by simp [firsts, goes, setPhase, other]⟩

theorem same_judge (kc : Nat) : s.Same (s.judge i kc) := by
  simp only [judge]
  split_ifs
  · exact same_goes (by decide)
  · exact ⟨rfl, rfl⟩

theorem same_look (kc : Nat) (again first : Bool) : s.Same (s.look i kc again first) := by
  unfold look
  split_ifs
  · exact same_goes (by decide)
  · exact same_goes (by decide)
  · exact same_goes (by decide)
  · exact ⟨rfl, rfl⟩

theorem next_cases (a : Act) :
    s.Same (s.next a) ∨ ∃ i kc, a = .ask i ∧ s.phase i = .asking kc ∧ s.firstTurn ≠ some kc ∧
      (s.next a).firstTurn = some kc ∧ (s.next a).firsts = kc :: s.firsts := by
  cases a with
  | kick | chatOpened | tick => exact .inl ⟨rfl, rfl⟩
  | begin i | park i | take i | dialed i | skip i =>
    simp only [next]
    split_ifs <;> exact .inl ⟨rfl, rfl⟩
  | judge i =>
    simp only [next]
    split
    · exact .inl (same_judge _)
    · exact .inl ⟨rfl, rfl⟩
  | look i =>
    simp only [next]
    split
    · exact .inl (same_look _ _ _)
    · exact .inl ⟨rfl, rfl⟩
  | ask i =>
    simp only [next]
    split
    · next kc asks =>
      unfold ask
      split_ifs with noted
      · exact .inl (same_goes (by decide))
      · exact .inr ⟨i, kc, rfl, asks, noted, rfl, by simp [firsts, goes, setPhase]⟩
    · exact .inl ⟨rfl, rfl⟩

/-- The kicks that had a first turn, each newer than the one before, up to the one noted. -/
structure Ordered (s : Engine) : Prop where
  newer : s.firsts.Pairwise (· > ·)
  noted : ∀ kc ∈ s.firsts, ∃ noted, s.firstTurn = some noted ∧ kc ≤ noted

theorem Ordered.next {a : Act} (ordered : s.Ordered) (inOrder : s.InOrder a) :
    (s.next a).Ordered := by
  obtain ⟨noted, firsts⟩ | ⟨i, kc, rfl, asks, other, noted, firsts⟩ := next_cases (s := s) a
  · exact ⟨firsts ▸ ordered.newer, firsts ▸ noted ▸ ordered.noted⟩
  · have older : ∀ k ∈ s.firsts, k < kc := by
      intro k hadFirst
      obtain ⟨last, isLast, upTo⟩ := ordered.noted k hadFirst
      have last_le := inOrder kc asks last isLast
      have last_ne : last ≠ kc := fun same => other (same ▸ isLast)
      omega
    refine ⟨?_, ?_⟩
    · rw [firsts]
      exact List.pairwise_cons.mpr ⟨older, ordered.newer⟩
    · rw [firsts, noted]
      intro k hadFirst
      refine ⟨kc, rfl, ?_⟩
      obtain rfl | hadFirst := List.mem_cons.mp hadFirst
      · exact Nat.le_refl _
      · exact Nat.le_of_lt (older k hadFirst)

/-- In a run in which the calls ask for the first turn in the order of their kicks, each kick
gives it to one call at most. -/
theorem one_first {firstTag : String} {now : Int} {turns : Nat → SubTurn}
    (run : Run (fun s a s' => s' = s.next a) InOrder (start firstTag now turns) s) (kc : Nat) :
    s.firsts.count kc ≤ 1 := by
  have ordered : s.Ordered := by
    refine run.invariant Ordered ⟨List.Pairwise.nil, by simp [firsts, start]⟩ ?_
    intro s s' a before inOrder step
    exact step ▸ before.next inOrder
  exact List.nodup_iff_count_le_one.mp (ordered.newer.imp Nat.ne_of_gt) kc

def newTurn : SubTurn := ⟨"", none, false, none, false⟩

def atStart : Engine := start "" 0 fun _ => newTurn

def upToAsk (i : Nat) : List Act := [.take i, .judge i, .look i]

/-- Two calls ask with one kick and a third with the next. -/
def threeCalls : List Act :=
  upToAsk 0 ++ upToAsk 1 ++ [Act.ask 0, .ask 1, .kick] ++ upToAsk 2 ++ [Act.ask 2]

theorem one_first_threeCalls :
    (threeCalls.foldl next atStart).firsts = [1, 0] ∧
      ∀ kc, (threeCalls.foldl next atStart).firsts.count kc ≤ 1 := by
  have allowed : Allowed next InOrder atStart threeCalls := by
    refine ⟨trivial, trivial, trivial, trivial, trivial, trivial, ?_, ?_, trivial, trivial, trivial,
      trivial, ?_, trivial⟩
    all_goals
      intro kc asks noted isNoted
      cases asks
      cases isNoted <;> decide
  exact ⟨by decide, one_first (.of_allowed next InOrder allowed)⟩

/-- The first call reads its kick and is preempted, another has the next kick's first turn, the
first asks with the old kick, and a third has the next kick's first turn again. -/
def staleKick : List Act :=
  upToAsk 0 ++ [Act.kick] ++ upToAsk 1 ++ [Act.ask 1, Act.ask 0] ++ upToAsk 2 ++ [Act.ask 2]

theorem staleKick_twoFirsts : (staleKick.foldl next atStart).firsts.count 1 = 2 := by
  decide

end Engine

end Kryfo.Wake
