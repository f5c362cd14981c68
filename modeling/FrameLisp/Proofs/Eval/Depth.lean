import Mathlib
import FrameLisp.Proofs.Eval.Congruence

/-!
# Depth

A greater bound on the depth of calls changes nothing about what ended without reaching the bound:
neither the outcome nor the session that is left.
-/
namespace FrameLisp

open Source Store

namespace Action

variable {α β : Type}

/-- The second action ends as the first one does, if the first one ends. -/
def Below (a b : Action α) : Prop :=
  ∀ s, (a.runFrom s).1 = .error .exhausted ∨ b.runFrom s = a.runFrom s

theorem Below.refl (a : Action α) : Below a a := fun _ => .inr rfl

theorem Below.bind {a b : Action α} {f g : α → Action β} (hab : Below a b)
    (hfg : ∀ x, Below (f x) (g x)) : Below (a >>= f) (b >>= g) := by
  intro s
  rw [runFrom_bind, runFrom_bind]
  rcases hab s with he | hab
  · generalize a.runFrom s = x at he ⊢
    obtain ⟨x, t⟩ := x
    obtain rfl : x = .error .exhausted := he
    exact .inl rfl
  · rw [hab]
    obtain ⟨x | x, t⟩ := a.runFrom s
    · exact .inr rfl
    · exact hfg x t

theorem Below.evaluating {a b : Action α} (hab : Below a b) :
    Below (Action.evaluating a) (Action.evaluating b) := by
  intro s
  rw [runFrom_evaluating, runFrom_evaluating]
  rcases hab { s with depth := s.depth + 1 } with he | hab
  · exact .inl he
  · exact .inr (by rw [hab])

/-- What ended without reaching a bound goes on in the same way. -/
theorem congruence_below : Congruence fun _ => Below where
  step {_ a} _ := .refl a
  bind := .bind
  evaluating := .evaluating

end Action

/-- Calls end as they do under a lower bound, if they end there. -/
theorem below_call {n m : Nat} (hnm : n ≤ m) :
    (call n).Related (fun _ => Action.Below) (call m) := by
  induction n generalizing m with
  | zero => exact fun procedure arguments s => .inl rfl
  | succ n ih =>
    obtain ⟨m, rfl⟩ : ∃ k, m = k + 1 := ⟨m - 1, by omega⟩
    exact Action.congruence_below.applyWith (ih (Nat.le_of_succ_le_succ hnm))

theorem Datum.below_evalIn {n m : Nat} (hnm : n ≤ m) (env : Handle) (d : Datum) :
    Action.Below (Datum.evalIn (call n) env d) (Datum.evalIn (call m) env d) :=
  Action.congruence_below.evalIn (below_call hnm) env d

end FrameLisp
