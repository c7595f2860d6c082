import Kryfo.Library.JsonText
import Mathlib.Tactic.NormNum
import Mathlib.Tactic.Positivity

/-!
# The counters of the lock

One record counts the misses since any unlock and since the last everyday unlock, and keeps the
hold, measured on the uptime clock of one boot.
-/

namespace Kryfo.Lock

open Library

abbrev Text := List Char

@[ext]
structure LockCounters where
  run : Int := 0
  budget : Int := 0
  holdStart : Int := 0
  holdLen : Int := 0
  holdBoot : Int := -1
  quiet : Bool := false
deriving DecidableEq

namespace LockCounters

/-! ## As text -/

/-- A number of the object, none where it is missing; fails on anything else. -/
def number (j : Json) (key : Text) : Option (Option Int) :=
  match j.field key with
  | none => some none
  | some .null => some none
  | some (.num n) => some (some n)
  | some _ => none

def isTrue : Option Json → Bool
  | some (.bool b) => b
  | _ => false

def parseObject (j : Json) : Option LockCounters := do
  let run ← number j ['r']
  let budget ← number j ['b']
  let holdStart ← number j ['h', 's']
  let holdLen ← number j ['h', 'l']
  let holdBoot ← number j ['h', 'b']
  return {
    run := run.getD 0
    budget := budget.getD 0
    holdStart := holdStart.getD 0
    holdLen := holdLen.getD 0
    holdBoot := holdBoot.getD (-1)
    quiet := isTrue (j.field ['q']) }

def parseText (text : Text) : Option LockCounters :=
  match Json.read text with
  | some (.obj fields) => parseObject (.obj fields)
  | _ => none

/-- What a text that cannot be read counts as: a hold rather than none. -/
def unreadable : LockCounters := { budget := 20, holdLen := 5 * 60000 }

def parse : Option Text → LockCounters
  | none => {}
  | some text => (parseText text).getD unreadable

variable (c : LockCounters)

def object : List (Text × Json) :=
  [(['r'], .num c.run), (['b'], .num c.budget), (['h', 's'], .num c.holdStart),
    (['h', 'l'], .num c.holdLen), (['h', 'b'], .num c.holdBoot), (['q'], .bool c.quiet)]

def encode : Text := Json.write (.obj c.object)

theorem proper_object : (Json.obj c.object).Proper := by
  refine Json.proper_obj.mpr ⟨?_, ?_⟩
  · simp only [object, List.map_cons]
    decide
  · intro field inside
    simp only [object, List.mem_cons, List.not_mem_nil, or_false] at inside
    rcases inside with rfl | rfl | rfl | rfl | rfl | rfl <;> trivial

theorem parse_encode : parse (some c.encode) = c := by
  have read : Json.read c.encode = some (.obj c.object) := Json.read_write c.proper_object
  simp only [parse, parseText, read]
  rfl

/-! ## The hold -/

/-- After a reboot the whole hold starts again from the first check that sees the boot. -/
def rebased (uptime boot : Int) : LockCounters :=
  if c.holdLen ≤ 0 ∨ boot = c.holdBoot then c
  else { c with holdStart := uptime, holdBoot := boot }

def holdLeft (uptime boot : Int) : Int :=
  if c.holdLen ≤ 0 then 0
  else if boot ≠ c.holdBoot ∨ uptime < c.holdStart then c.holdLen
  else max 0 (c.holdStart + c.holdLen - uptime)

def clamp (n low high : Int) : Int := max low (min n high)

def runHold (run : Int) : Int :=
  if run % 5 = 0 then 30000 * 2 ^ (clamp (run.tdiv 5 - 1) 0 6).toNat else 0

/-- What the misses since the last everyday unlock hold the pad for. -/
def budgetHold (budget : Int) : Int :=
  if 20 ≤ budget ∧ budget % 5 = 0 then
    min (5 * 60000 * 2 ^ (clamp ((budget - 20).tdiv 5) 0 7).toNat) (8 * 3600000)
  else 0

/-- How long the next miss holds the pad, zero for not at all. -/
def missHold : Int := max (runHold (c.run + 1)) (budgetHold (c.budget + 1))

def miss (uptime boot : Int) : LockCounters :=
  if 0 < c.missHold then
    { c with
      run := c.run + 1
      budget := c.budget + 1
      holdStart := uptime
      holdLen := c.missHold
      holdBoot := boot }
  else { c with run := c.run + 1, budget := c.budget + 1 }

@[simp]
theorem budget_miss (uptime boot : Int) : (c.miss uptime boot).budget = c.budget + 1 := by
  unfold miss
  split <;> rfl

@[simp]
theorem budget_rebased (uptime boot : Int) : (c.rebased uptime boot).budget = c.budget := by
  unfold rebased
  split <;> rfl

@[simp]
theorem holdLen_rebased (uptime boot : Int) : (c.rebased uptime boot).holdLen = c.holdLen := by
  unfold rebased
  split <;> rfl

/-- The least hold of the `n`th miss since the last everyday unlock. -/
def leastHold (n : Nat) : Int := min (5 * 60000 * 2 ^ ((n - 20) / 5)) (8 * 3600000)

theorem min_clamped (k : Nat) :
    min (5 * 60000 * (2 : Int) ^ min k 7) (8 * 3600000)
      = min (5 * 60000 * 2 ^ k) (8 * 3600000) := by
  rcases Nat.le_total k 7 with few | many
  · rw [min_eq_left few]
  · have grown : (2 : Int) ^ 7 ≤ 2 ^ k := pow_le_pow_right₀ (by norm_num) many
    rw [min_eq_right many, min_eq_right (by norm_num), min_eq_right (by omega)]

theorem budgetHold_eq {n : Nat} (many : 20 ≤ n) (fifth : 5 ∣ n) :
    budgetHold n = leastHold n := by
  have counted : 20 ≤ (n : Int) ∧ (n : Int) % 5 = 0 := by omega
  have quotient : (((n : Int) - 20).tdiv 5) = ((n - 20) / 5 : Nat) := by
    rw [Int.tdiv_eq_ediv_of_nonneg (by omega)]
    omega
  have clamped : (clamp (((n : Int) - 20).tdiv 5) 0 7).toNat = min ((n - 20) / 5) 7 := by
    unfold clamp
    omega
  rw [budgetHold, if_pos counted, clamped, min_clamped, leastHold]

theorem leastHold_pos (n : Nat) : 0 < leastHold n :=
  lt_min (by positivity) (by norm_num)

/-- A miss the budget counts as a fifth starts a hold, as long as its count asks for. -/
theorem miss_of_fifth {c : LockCounters} {n : Nat} (counted : c.budget + 1 = n) (many : 20 ≤ n)
    (fifth : 5 ∣ n) (uptime boot : Int) :
    (c.miss uptime boot).holdStart = uptime ∧ (c.miss uptime boot).holdBoot = boot ∧
      leastHold n ≤ (c.miss uptime boot).holdLen := by
  have least : leastHold n ≤ c.missHold := by
    rw [missHold, counted, budgetHold_eq many fifth]
    exact le_max_right _ _
  have starts : 0 < c.missHold := lt_of_lt_of_le (leastHold_pos n) least
  rw [miss, if_pos starts]
  exact ⟨rfl, rfl, least⟩

end LockCounters

end Kryfo.Lock
