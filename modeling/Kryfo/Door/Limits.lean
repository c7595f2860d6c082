import Mathlib.Tactic.Linarith
import Kryfo.Door.Stream
import Kryfo.Library.Run

/-!
# How much the door takes

Whoever sends lines, over any number of streams: the inbox is held to its lines and bytes, and in
any stretch of time the door takes no more lines than the burst and what the budget gains in it.
-/

namespace Kryfo.Door

open Library List

variable {η : Type}

/-! ## The budget -/

/-- What the budget has come to at a time. -/
def Inbox.budget (box : Inbox η) (now : ℚ) : ℚ :=
  match box.filled with
  | none => box.tokens
  | some filled => min (box.tokens + (now - filled) * inboxPerSec) inboxBurst

section Budget

variable {box : Inbox η} {clock now : ℚ}

theorem budget_le (tokens : box.tokens ≤ inboxBurst) : box.budget now ≤ inboxBurst := by
  unfold Inbox.budget
  split
  · exact tokens
  · exact min_le_right _ _

theorem budget_nonneg (tokens : 0 ≤ box.tokens) (filled : ∀ filled ∈ box.filled, filled ≤ now) :
    0 ≤ box.budget now := by
  unfold Inbox.budget inboxPerSec inboxBurst
  split
  · exact tokens
  next before isFilled =>
    have := filled before isFilled
    exact le_min (by linarith) (by norm_num)

theorem budget_later (onward : clock ≤ now) :
    box.budget now ≤ box.budget clock + (now - clock) * inboxPerSec := by
  unfold Inbox.budget inboxPerSec
  split
  · linarith
  · rw [← min_add_add_right]
    exact min_le_min (by linarith) (by linarith)

theorem budget_le_tokens (filled : box.filled = some now) : box.budget now ≤ box.tokens := by
  simp [Inbox.budget, filled]

end Budget

variable [DecidableEq η] (hash : Text → η)

/-! ## Runs -/

/-- The inbox, the time a line last came to it, and every line it took. -/
structure Intake (η : Type) where
  clock : ℚ
  inbox : Inbox η := {}
  took : List Text := []

inductive Offer
  | line (now : ℚ) (text : Text)
  | drain

namespace Intake

def next (d : Intake η) : Offer → Intake η
  | .line now text =>
    match Stream.doorTakes hash d.inbox now text with
    | (true, inbox) => ⟨now, inbox, trimSpace text :: d.took⟩
    | (false, inbox) => ⟨now, inbox, d.took⟩
  | .drain => { d with inbox := inboxDrained d.inbox }

/-- The clock does not go back. -/
def Onward (d : Intake η) : Offer → Prop
  | .line now _ => d.clock ≤ now
  | .drain => True

structure Sound (d : Intake η) : Prop where
  lines : d.inbox.lines.length ≤ inboxMaxLines
  bytes : d.inbox.bytes = (d.inbox.lines.map size).sum
  room : d.inbox.bytes ≤ inboxMaxBytes
  recent : d.inbox.recent = (d.inbox.lines.map hash).reverse
  once : d.inbox.recent.Nodup
  shape : ∀ line ∈ d.inbox.lines, inboxShapeOK line = true
  tokens : 0 ≤ d.inbox.tokens ∧ d.inbox.tokens ≤ inboxBurst
  filled : ∀ filled ∈ d.inbox.filled, filled ≤ d.clock

variable {hash} {d d' first : Intake η} {now : ℚ}

/-- All that a line can do. -/
theorem next_line (hash : Text → η) (d : Intake η) (now : ℚ) (text : Text) :
    d.next hash (.line now text) = { d with clock := now } ∨
    d.next hash (.line now text) = { d with
      clock := now
      inbox := { d.inbox with tokens := d.inbox.budget now, filled := some now } } ∨
    inboxShapeOK (trimSpace text) = true ∧ hash (trimSpace text) ∉ d.inbox.recent ∧
      d.inbox.lines.length < inboxMaxLines ∧
      d.inbox.bytes + size (trimSpace text) ≤ inboxMaxBytes ∧ 1 ≤ d.inbox.budget now ∧
      d.next hash (.line now text) = {
        clock := now
        took := trimSpace text :: d.took
        inbox := {
          lines := d.inbox.lines ++ [trimSpace text]
          bytes := d.inbox.bytes + size (trimSpace text)
          recent := hash (trimSpace text) :: d.inbox.recent
          tokens := d.inbox.budget now - 1
          filled := some now } } := by
  have budget : inboxBudgetTake d.inbox now = if d.inbox.budget now < 1 then
      (false, { d.inbox with tokens := d.inbox.budget now, filled := some now })
      else (true, { d.inbox with tokens := d.inbox.budget now - 1, filled := some now }) := rfl
  unfold next Stream.doorTakes inboxPut
  dsimp only
  rw [budget]
  split_ifs with long shape dup full low
  iterate 4 exact .inl rfl
  · exact .inr (.inl rfl)
  · exact .inr (.inr ⟨by simpa using shape, dup, by omega, by omega, not_lt.mp low, rfl⟩)

theorem Sound.next (sound : d.Sound hash) {offer : Offer} (onward : d.Onward offer) :
    (d.next hash offer).Sound hash := by
  cases offer with
  | drain => exact ⟨Nat.zero_le _, rfl, Nat.zero_le _, rfl, nodup_nil, nofun, sound.tokens,
      sound.filled⟩
  | line now text =>
    have filled : ∀ filled ∈ d.inbox.filled, filled ≤ now := fun f isFilled =>
      (sound.filled f isFilled).trans onward
    have tokens := budget_nonneg sound.tokens.1 filled
    have tokens' : d.inbox.budget now ≤ inboxBurst := budget_le sound.tokens.2
    obtain same | low | ⟨shape, new, few, fits, one, taken⟩ := next_line hash d now text
    · rw [same]
      exact { sound with filled }
    · rw [low]
      exact { sound with tokens := ⟨tokens, tokens'⟩, filled := by simp }
    · rw [taken]
      exact {
        lines := by simpa using Nat.succ_le_of_lt few
        bytes := by simp [sound.bytes]
        room := fits
        recent := by simp [sound.recent]
        once := nodup_cons.mpr ⟨new, sound.once⟩
        shape := by simpa [or_imp, forall_and] using ⟨sound.shape, shape⟩
        tokens := ⟨sub_nonneg.mpr one, (sub_le_self _ zero_le_one).trans tokens'⟩
        filled := by simp }

/-- The lines taken since `first` and the budget left, against the burst and the time. -/
def Paced (first d : Intake η) : Prop :=
  d.took.length + d.inbox.budget d.clock ≤
    first.took.length + inboxBurst + (d.clock - first.clock) * inboxPerSec

theorem Paced.next (paced : first.Paced d) {offer : Offer}
    (onward : d.Onward offer) : first.Paced (d.next hash offer) := by
  cases offer with
  | drain => exact paced
  | line now text =>
    have later : d.inbox.budget now ≤ _ := budget_later onward
    unfold Paced inboxPerSec at *
    obtain same | low | ⟨-, -, -, -, -, taken⟩ := next_line hash d now text
    · rw [same]
      dsimp only
      linarith
    · rw [low]
      refine (add_le_add_right (budget_le_tokens rfl) _).trans ?_
      dsimp only
      linarith
    · rw [taken]
      refine (add_le_add_right (budget_le_tokens rfl) _).trans ?_
      dsimp only
      rw [length_cons, Nat.cast_succ]
      linarith

/-- In any stretch of a run the door takes at most the burst and what the budget gains, and the
inbox is within its limits, with no line waiting twice and each of the right shape. -/
theorem took_le_of_run {start : ℚ}
    (before : Run (fun d offer d' => d' = d.next hash offer) Onward { clock := start } d)
    (run : Run (fun d offer d' => d' = d.next hash offer) Onward d d') :
    d'.Sound hash ∧ (d'.took.length : ℚ) ≤
      d.took.length + inboxBurst + (d'.clock - d.clock) * inboxPerSec := by
  have fresh : Sound hash { clock := start } :=
    ⟨Nat.zero_le _, rfl, Nat.zero_le _, rfl, nodup_nil, nofun, ⟨by norm_num [inboxBurst], le_rfl⟩,
      nofun⟩
  have sound := before.invariant (Sound hash) fresh fun sound onward step =>
    step ▸ sound.next onward
  obtain ⟨sound', paced⟩ := run.invariant (fun d' => d'.Sound hash ∧ d.Paced d')
    ⟨sound, by simpa [Paced] using budget_le sound.tokens.2⟩
    fun both onward step => step ▸ ⟨both.1.next onward, both.2.next onward⟩
  refine ⟨sound', ?_⟩
  have left := budget_nonneg sound'.tokens.1 sound'.filled
  unfold Paced at paced
  linarith

/-- A line comes twice before the inbox is drained and once after, when another follows. -/
theorem took_le_of_run_lines :
    let d : Intake Text := { clock := 0 }
    let line (now : ℚ) : Offer := .line now "AgICAgIC".toList
    let d' := [line 0, line 0, .drain, line 1, .line 2 "AwMDAwMD".toList].foldl (next id) d
    d'.took.length = 3 ∧
      (d'.took.length : ℚ) ≤ d.took.length + inboxBurst + (d'.clock - d.clock) * inboxPerSec := by
  intro d line d'
  have clock (d : Intake Text) : (d.next id (line 1)).clock = 1 := by
    simp only [next, line]
    split <;> rfl
  have run : Run (fun d offer d' => d' = d.next id offer) Onward d d' :=
    .of_allowed (next id) Onward ⟨le_refl (0 : ℚ), le_refl (0 : ℚ), trivial, zero_le_one,
      (clock _).trans_le one_le_two, trivial⟩
  exact ⟨by decide +kernel, (took_le_of_run .refl run).2⟩

end Intake

end Kryfo.Door
