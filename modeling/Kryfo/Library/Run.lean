import Mathlib.Logic.Basic

/-!
# Runs of a labelled step relation

A `Run` takes acts one after another, each allowed by a rule on the state before it.  What a step
keeps holds of a whole run.
-/

namespace Kryfo.Library

universe u v

variable {σ : Type u} {α : Type v}

/-- The states reached from `first` by steps whose acts all meet `rule`. -/
inductive Run (step : σ → α → σ → Prop) (rule : σ → α → Prop) (first : σ) : σ → Prop
  | refl : Run step rule first first
  | snoc {s s' : σ} {act : α} (before : Run step rule first s)
      (taken : step s act s') (allowed : rule s act) : Run step rule first s'

namespace Run

variable {step : σ → α → σ → Prop} {rule weaker : σ → α → Prop} {first s s' : σ}

/-- What holds at first and is kept by every allowed step holds along a run. -/
theorem invariant (property : σ → Prop) (run : Run step rule first s) (start : property first)
    (keeps : ∀ {s s' : σ} {act : α}, property s → rule s act → step s act s' → property s') :
    property s := by
  induction run with
  | refl => exact start
  | snoc before taken allowed ih => exact keeps ih allowed taken

theorem mono (run : Run step rule first s)
    (implies : ∀ s act, rule s act → weaker s act) : Run step weaker first s := by
  induction run with
  | refl => exact .refl
  | snoc before taken allowed ih => exact .snoc ih taken (implies _ _ allowed)

theorem trans (run : Run step rule first s) (onward : Run step rule s s') :
    Run step rule first s' := by
  induction onward with
  | refl => exact run
  | snoc before taken allowed ih => exact .snoc ih taken allowed

end Run

section Deterministic

variable (next : σ → α → σ) (rule : σ → α → Prop)

/-- Each of some acts meets the rule at the state it is taken at. -/
def Allowed : σ → List α → Prop
  | _, [] => True
  | s, act :: acts => rule s act ∧ Allowed (next s act) acts

instance Allowed.decidable [∀ s act, Decidable (rule s act)] :
    ∀ (s : σ) (acts : List α), Decidable (Allowed next rule s acts)
  | _, [] => .isTrue trivial
  | s, act :: acts =>
    haveI := Allowed.decidable (next s act) acts
    inferInstanceAs (Decidable (rule s act ∧ Allowed next rule (next s act) acts))

variable {next rule} in
/-- A list of orders, each for an act that may be taken where it comes, is a run. -/
theorem Run.of_acts {β : Type*} {step : σ → α → σ → Prop} {next : σ → β → σ} {may : σ → β → Prop}
    {s : σ} {acts : List β} (label : β → α)
    (takes : ∀ s act, may s act → step s (label act) (next s act) ∧ rule s (label act))
    (allowed : Allowed next may s acts) : Run step rule s (acts.foldl next s) := by
  induction acts generalizing s with
  | nil => exact .refl
  | cons act acts ih =>
    obtain ⟨taken, meets⟩ := takes s act allowed.1
    have first : Run step rule s (next s act) := .snoc .refl taken meets
    exact first.trans (ih allowed.2)

theorem Run.of_allowed {s : σ} {acts : List α} (allowed : Allowed next rule s acts) :
    Run (fun s act s' => s' = next s act) rule s (acts.foldl next s) :=
  .of_acts id (fun _ _ meets => ⟨rfl, meets⟩) allowed

theorem allowed_of_forall {next : σ → α → σ} {rule : σ → α → Prop} {s : σ} {acts : List α}
    (allowed : ∀ act ∈ acts, ∀ s, rule s act) : Allowed next rule s acts := by
  induction acts generalizing s with
  | nil => trivial
  | cons act acts ih =>
    exact ⟨allowed act (.head _) s, ih fun act inside => allowed act (.tail _ inside)⟩

end Deterministic

end Kryfo.Library
