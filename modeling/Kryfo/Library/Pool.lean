import Mathlib.Data.List.Basic
import Mathlib.Data.List.GetD

/-!
# Tasks that share a state

One task at a time takes a step, which changes the state and where that task is.  What holds of the
state and of each task is kept by a step that keeps it for that task and for every other.
-/

namespace Kryfo.Library

universe u v

structure Pool (σ : Type u) (τ : Type v) where
  shared : σ
  tasks : List τ

namespace Pool

variable {σ : Type u} {τ : Type v} {p : Pool σ τ} {i : Nat} {step : σ → τ → σ × τ}
  {inv : σ → Prop} {good : σ → τ → Prop}

def spawn (t : τ) (p : Pool σ τ) : Pool σ τ := { p with tasks := p.tasks ++ [t] }

def turn (step : σ → τ → σ × τ) (i : Nat) (p : Pool σ τ) : Pool σ τ :=
  match p.tasks[i]? with
  | some t => ⟨(step p.shared t).1, p.tasks.set i (step p.shared t).2⟩
  | none => p

/-- What holds of the state, and of every task at it. -/
structure Holds (inv : σ → Prop) (good : σ → τ → Prop) (p : Pool σ τ) : Prop where
  shared : inv p.shared
  tasks : ∀ t ∈ p.tasks, good p.shared t

theorem Holds.spawn (holds : p.Holds inv good) {t : τ} (new : good p.shared t) :
    (p.spawn t).Holds inv good := by
  refine ⟨holds.shared, fun u inside => ?_⟩
  obtain old | same := List.mem_append.mp inside
  · exact holds.tasks u old
  · rw [List.mem_singleton.mp same]
    exact new

theorem Holds.turn (holds : p.Holds inv good) (own : ∀ t, p.tasks[i]? = some t →
      inv (step p.shared t).1 ∧ good (step p.shared t).1 (step p.shared t).2)
    (others : ∀ t, p.tasks[i]? = some t → ∀ u ∈ p.tasks, good (step p.shared t).1 u) :
    (p.turn step i).Holds inv good := by
  unfold Pool.turn
  cases found : p.tasks[i]? with
  | none => exact holds
  | some t =>
    refine ⟨(own t found).1, fun u inside => ?_⟩
    obtain old | same := List.mem_or_eq_of_mem_set inside
    · exact others t found u old
    · rw [same]
      exact (own t found).2

theorem mem_turn {t : τ} (found : p.tasks[i]? = some t) :
    (step p.shared t).2 ∈ (p.turn step i).tasks ∧
      ∀ u ∈ p.tasks, u = t ∨ u ∈ (p.turn step i).tasks := by
  obtain ⟨bound, atIndex⟩ := List.getElem?_eq_some_iff.mp found
  have tasks : (p.turn step i).tasks = p.tasks.set i (step p.shared t).2 := by
    rw [Pool.turn, found]
  rw [tasks]
  refine ⟨List.mem_set bound _, fun u inside => ?_⟩
  obtain ⟨j, bound', rfl⟩ := List.mem_iff_getElem.mp inside
  by_cases same : j = i
  · subst same
    exact .inl atIndex
  · refine .inr (List.mem_iff_getElem.mpr ⟨j, by simpa using bound', ?_⟩)
    exact List.getElem_set_ne (fun h => same h.symm) _

theorem shared_turn {t : τ} (found : p.tasks[i]? = some t) :
    (p.turn step i).shared = (step p.shared t).1 := by
  rw [Pool.turn, found]

end Pool

end Kryfo.Library
