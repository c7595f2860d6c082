/-!
# Computations that may throw

What it takes for a sequence of them to come through.
-/

namespace Kryfo.Library

universe u v

variable {ε : Type u} {α β : Type v}

theorem bind_eq_ok {attempt : Except ε α} {next : α → Except ε β} {b : β} :
    attempt >>= next = .ok b ↔ ∃ a, attempt = .ok a ∧ next a = .ok b := by
  cases attempt with
  | error e | ok a => simp [bind, Except.bind]

theorem pure_eq_ok {a b : α} : (pure a : Except ε α) = .ok b ↔ a = b :=
  Except.ok.injEq a b ▸ .rfl

theorem guard_eq_ok {p : Prop} [Decidable p] {e : ε} {after : α → Except ε β}
    {rest : Except ε β} {b : β} :
    (if p then throw e >>= after else rest) = .ok b ↔ ¬p ∧ rest = .ok b := by
  by_cases holds : p
  · simp [holds, bind, Except.bind]
  · simp [holds]

end Kryfo.Library
