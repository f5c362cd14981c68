import FrameLisp.Proofs.Code.Renaming
import FrameLisp.Eval.Arithmetic
import FrameLisp.Eval.Failure

/-!
# Errors and arithmetic under other handles

An error may show a datum, whose text is the same under all handles, so that kinds and messages
are too. Arithmetic sees the numbers among its arguments and nothing else.
-/
namespace FrameLisp

open Store Numeric

variable {σ : Handle → Handle} {p : Handle → Prop} {q : Primitive → Prop}

namespace EvalError

/-- The same error with other handles in the datum it shows. -/
def rename (σ : Handle → Handle) : EvalError → EvalError
  | .wrongType procedure expected got => .wrongType procedure expected (got.rename σ)
  | .notApplicable got => .notApplicable (got.rename σ)
  | .form error => .form (error.rename σ)
  | e => e

@[simp] theorem kind_rename (e : EvalError) : (e.rename σ).kind = e.kind := by
  cases e <;> rfl

@[simp] theorem message_rename (e : EvalError) : (e.rename σ).message = e.message := by
  cases e with
  | wrongType procedure expected got =>
    unfold rename message
    dsimp only
    rw [Datum.text_rename]
  | notApplicable got =>
    unfold rename message
    dsimp only
    rw [Datum.text_rename]
  | form error => exact FormError.message_rename error
  | _ => rfl

/-- The error of the renamed data, which is not that a handle outlived its frame. -/
structure Renamed (σ : Handle → Handle) (e e' : EvalError) : Prop where
  kind_ne : e.kind ≠ .reclaimedEnvironment
  eq_rename : e' = e.rename σ

theorem Renamed.arity (e : ArityError) : Renamed σ (.arity e) (.arity e) :=
  ⟨by simp [kind], rfl⟩

theorem Renamed.wrongType (procedure : Primitive) (expected : Expectation) (got : Datum) :
    Renamed σ (.wrongType procedure expected got) (.wrongType procedure expected (got.rename σ)) :=
  ⟨by simp [kind], rfl⟩

theorem kind_ofEval (e : EvalError) : (Failure.ofEval e).kind = e.kind := by
  cases e <;> rfl

theorem kind_ofEval_rename (e : EvalError) :
    (Failure.ofEval (e.rename σ)).kind = (Failure.ofEval e).kind := by
  rw [kind_ofEval, kind_ofEval, kind_rename]

theorem message_ofEval_rename (e : EvalError) :
    (Failure.ofEval (e.rename σ)).message = (Failure.ofEval e).message := by
  cases e with
  | wrongType procedure expected got => exact message_rename (.wrongType procedure expected got)
  | notApplicable got => exact message_rename (.notApplicable got)
  | form error => exact FormError.message_rename error
  | _ => rfl

end EvalError

namespace Arithmetic

/-- The results of arithmetic hold no handles. -/
abbrev Computes (σ : Handle → Handle) :
    Except EvalError Datum → Except EvalError Datum → Prop :=
  Parallel (EvalError.Renamed σ) fun d d' => d.Plain ∧ d' = d

theorem parallel_numbersFrom (primitive : Primitive) (read : List Number) (ds : List Datum) :
    Parallel (EvalError.Renamed σ) Eq (numbersFrom primitive read ds)
      (numbersFrom primitive read (ds.map (Datum.rename σ))) := by
  induction ds generalizing read with
  | nil => exact .ok rfl
  | cons d ds ih =>
    simp only [List.map_cons, numbersFrom, Datum.asNumber?_rename]
    split
    · exact ih _
    · exact .error (.wrongType _ _ _)

theorem computes_onNumbers (primitive : Primitive) (arguments : List Datum)
    {f : List Number → Datum} (hf : ∀ ns, (f ns).Plain) :
    Computes σ (onNumbers primitive arguments f)
      (onNumbers primitive (arguments.map (Datum.rename σ)) f) := by
  have hn := parallel_numbersFrom (σ := σ) primitive [] arguments
  rw [onNumbers, onNumbers, numbers, numbers]
  rcases hn.exists_or with ⟨ns, _, hns, hns', rfl⟩ | ⟨e, e', he, he', h⟩
  · rw [hns, hns']
    exact .ok ⟨hf ns, rfl⟩
  · rw [he, he']
    exact .error h

variable (arguments : List Datum)

theorem computes_add : Computes σ (add arguments) (add (arguments.map (Datum.rename σ))) :=
  computes_onNumbers _ arguments fun _ => trivial

theorem computes_sub : Computes σ (sub arguments) (sub (arguments.map (Datum.rename σ))) :=
  computes_onNumbers _ arguments fun _ => trivial

theorem computes_mul : Computes σ (mul arguments) (mul (arguments.map (Datum.rename σ))) :=
  computes_onNumbers _ arguments fun _ => trivial

theorem computes_compare (primitive : Primitive) (holds : Ordering → Bool) :
    Computes σ (compare primitive holds arguments)
      (compare primitive holds (arguments.map (Datum.rename σ))) :=
  computes_onNumbers _ arguments fun _ => trivial

theorem computes_div : Computes σ (div arguments) (div (arguments.map (Datum.rename σ))) := by
  have hn := parallel_numbersFrom (σ := σ) .div [] arguments
  rw [div, div, numbers, numbers]
  rcases hn.exists_or with ⟨ns, _, hns, hns', rfl⟩ | ⟨e, e', he, he', h⟩
  · rw [hns, hns']
    dsimp only
    split
    · exact .ok ⟨trivial, rfl⟩
    · exact .error ⟨by simp [EvalError.kind], rfl⟩
  · rw [he, he']
    exact .error h

end Arithmetic

end FrameLisp
