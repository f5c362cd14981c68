/-!
# Outcomes

An outcome is a value or an error. What is said of one, or of two at once, is said of both cases
apart.
-/
namespace FrameLisp

/-- An outcome that is a value with the one property or an error with the other. -/
inductive Ends {ε α : Type} (onError : ε → Prop) (onValue : α → Prop) : Except ε α → Prop
  | ok {x} : onValue x → Ends onError onValue (.ok x)
  | error {e} : onError e → Ends onError onValue (.error e)

theorem Ends.imp {ε α : Type} {p p' : ε → Prop} {u u' : α → Prop} {x : Except ε α}
    (h : Ends p u x) (hp : ∀ e, p e → p' e) (hu : ∀ y, u y → u' y) : Ends p' u' x := by
  cases h with
  | ok hx => exact .ok (hu _ hx)
  | error he => exact .error (hp _ he)

/-- Two outcomes of the same kind: both results, or both errors, each related as given. -/
inductive Parallel {ε ε' α β : Type} (onError : ε → ε' → Prop) (onResult : α → β → Prop) :
    Except ε α → Except ε' β → Prop
  | ok {a b} : onResult a b → Parallel onError onResult (.ok a) (.ok b)
  | error {e e'} : onError e e' → Parallel onError onResult (.error e) (.error e')

namespace Parallel

variable {ε ε' α β γ δ : Type} {onError : ε → ε' → Prop} {onResult : α → β → Prop}
  {onNext : γ → δ → Prop}

theorem exists_or {x : Except ε α} {y : Except ε' β} (h : Parallel onError onResult x y) :
    (∃ a b, x = .ok a ∧ y = .ok b ∧ onResult a b) ∨
      ∃ e e', x = .error e ∧ y = .error e' ∧ onError e e' := by
  cases h with
  | ok h => exact .inl ⟨_, _, rfl, rfl, h⟩
  | error h => exact .inr ⟨_, _, rfl, rfl, h⟩

theorem bind {x : Except ε α} {y : Except ε' β} {f : α → Except ε γ} {g : β → Except ε' δ}
    (hxy : Parallel onError onResult x y)
    (hfg : ∀ a b, onResult a b → Parallel onError onNext (f a) (g b)) :
    Parallel onError onNext (x >>= f) (y >>= g) := by
  cases hxy with
  | ok h => exact hfg _ _ h
  | error h => exact .error h

end Parallel

end FrameLisp
