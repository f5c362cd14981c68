import FrameLisp.Proofs.Eval.Settings

/-!
# What the steps of an evaluation fail with

Only loading finds errors of syntax, and what it fails with holds the text that was being read. So
errors of syntax are those of the texts that come with them.
-/
namespace FrameLisp

open Source Store

/-- An error of syntax is that of the text that comes with it. -/
def EvalError.Sourced : EvalError → Prop
  | .unreadable _ source e => Program.ofString source = .error e
  | _ => True

/-- A chunk that cannot be read holds the error of its text. -/
def Source.Chunk.Sourced : Chunk → Prop
  | .unreadable source e => Program.ofString source = .error e
  | _ => True

theorem Source.Chunk.sourced_of_ofLines {pending : List Char} {lines : List (List UInt8)} :
    ∀ chunk ∈ ofLines pending lines, chunk.Sourced := by
  have hpiece : ∀ {cs : List Char} {e : SyntaxError}, Program.ofChars cs = .error e →
      ∀ chunk ∈ [Chunk.unreadable (String.ofList cs) e], chunk.Sourced := by
    rintro cs e he chunk hm
    obtain rfl := List.mem_singleton.1 hm
    rw [Chunk.Sourced, Program.ofString, String.toList_ofList, he]
  fun_induction ofLines pending lines with
  | case1 => simp
  | case2 pending e he => exact hpiece he
  | case3 => simp [Chunk.Sourced]
  | case4 pending line lines cs hline hskip ih => exact ih
  | case5 pending line lines cs hline hskip pending' p hp ih =>
    exact List.forall_mem_cons.2 ⟨trivial, ih⟩
  | case6 pending line lines cs hline hskip pending' e he hopen ih => exact ih
  | case7 pending line lines cs hline hskip pending' e he hfinal => exact hpiece he

theorem Source.Chunk.sourced_of_ofBytes (bytes : List UInt8) :
    ∀ chunk ∈ ofBytes bytes, chunk.Sourced := sourced_of_ofLines

namespace Arithmetic

variable {p : Primitive} {arguments : List Datum} {e : EvalError}

theorem sourced_of_numbersFrom {read : List Numeric.Number}
    (h : numbersFrom p read arguments = .error e) : e.Sourced := by
  fun_induction numbersFrom p read arguments with
  | case1 => cases h
  | case2 read d ds n hn ih => exact ih h
  | case3 read d ds hn =>
    cases h
    trivial

theorem sourced_of_onNumbers {f : List Numeric.Number → Datum}
    (h : onNumbers p arguments f = .error e) : e.Sourced := by
  rw [onNumbers] at h
  split at h
  · cases h
  · next hnumbers =>
    cases h
    exact sourced_of_numbersFrom hnumbers

theorem sourced_of_div (h : div arguments = .error e) : e.Sourced := by
  rw [div] at h
  split at h
  · next hnumbers =>
    cases h
    exact sourced_of_numbersFrom hnumbers
  · split at h
    · cases h
    · cases h
      trivial

end Arithmetic

namespace Store.Environments

variable {s : Environments} {env : Handle} {name : String} {e : EvalError}

theorem sourced_of_nearestFrom {steps : Nat} (h : s.nearestFrom name steps env = .error e) :
    e.Sourced := by
  fun_induction nearestFrom s name steps env with
  | case1 | case2 | case5 =>
    cases h
    trivial
  | case3 => cases h
  | case4 steps env f hf hfind parent hparent ih => exact ih h

theorem sourced_of_lookup (h : s.lookup env name = .error e) : e.Sourced := by
  rw [lookup] at h
  split at h
  · cases h
  · next hnearest =>
    cases h
    exact sourced_of_nearestFrom hnearest

theorem sourced_of_define {value : Datum} (h : (s.define env name value).1 = .error e) :
    e.Sourced := by
  rw [define] at h
  split at h
  · cases h
  · cases h
    trivial

theorem sourced_of_assign {value : Datum} (h : (s.assign env name value).1 = .error e) :
    e.Sourced := by
  rw [assign] at h
  split at h
  · cases h
  · next hnearest =>
    cases h
    exact sourced_of_nearestFrom hnearest

theorem sourced_of_extendFault? {p : Parameters} {count : Nat}
    (h : s.extendFault? env p count = some e) : e.Sourced := by
  rw [extendFault?] at h
  split at h
  · obtain ⟨fault, -, rfl⟩ := Option.map_eq_some_iff.1 h
    trivial
  · cases h
    trivial

end Store.Environments

namespace Action

variable {α β : Type}

/-- Wherever the action fails with an error of syntax, it is that of the text that comes with
it. -/
def Sourced (a : Action α) : Prop := ∀ s e, (a.runFrom s).1 = .error (.failed e) → e.Sourced

theorem Sourced.pure (x : α) : Sourced (pure x) := fun _ _ h => by cases h

theorem Sourced.fail {e : EvalError} (he : e.Sourced) : Sourced (fail e : Action α) := by
  rintro s _ ⟨⟩
  exact he

theorem Sourced.exhausted : Sourced (throw .exhausted : Action α) := fun _ _ h => by cases h

theorem Sourced.get : Sourced (MonadState.get : Action Session) := fun _ _ h => by cases h

theorem Sourced.bind {a : Action α} {f : α → Action β} (ha : Sourced a)
    (hf : ∀ x, Sourced (f x)) : Sourced (a >>= f) := by
  intro s e h
  have hs := ha s e
  rw [runFrom_bind] at h
  generalize a.runFrom s = x at h hs
  obtain ⟨x | x, t⟩ := x
  · obtain rfl : x = .failed e := Except.error.inj h
    exact hs rfl
  · exact hf x t e h

theorem Sourced.evaluating {a : Action α} (ha : Sourced a) : Sourced (evaluating a) :=
  fun s e h => ha { s with depth := s.depth + 1 } e h

theorem Sourced.ofExcept {x : Except EvalError α} (h : ∀ e, x = .error e → e.Sourced) :
    Sourced (ofExcept x) := by
  cases x with
  | ok a => exact .pure a
  | error e => exact .fail (h e rfl)

theorem sourced_lookup (env : Handle) (name : String) : Sourced (lookup env name) := by
  intro s e h
  change (lookup env name s).1 = _ at h
  rw [lookup] at h
  split at h
  · cases h
  · next hlookup =>
    cases h
    exact Environments.sourced_of_lookup hlookup

theorem sourced_onEnvironments {f : Environments → Except EvalError α × Environments}
    (hf : ∀ s e, (f s).1 = .error e → e.Sourced) : Sourced (onEnvironments f) := by
  intro s e h
  have hs := hf s.environments
  change (onEnvironments f s).1 = _ at h
  simp only [onEnvironments] at h
  generalize f s.environments = x at h hs
  obtain ⟨x | x, environments'⟩ := x
  · cases h
    exact hs _ rfl
  · cases h

theorem sourced_define (env : Handle) (name : String) (value : Datum) :
    Sourced (define env name value) :=
  sourced_onEnvironments fun _ _ => Environments.sourced_of_define

theorem sourced_assign (env : Handle) (name : String) (value : Datum) :
    Sourced (assign env name value) :=
  sourced_onEnvironments fun _ _ => Environments.sourced_of_assign

theorem sourced_freshMark : Sourced freshMark := fun _ _ h => by cases h

theorem sourced_list (items : List Datum) : Sourced (list items) := fun _ _ h => by cases h

theorem sourced_cons (head tail : Datum) : Sourced (cons head tail) :=
  sourced_freshMark.bind fun _ => .pure _

theorem sourced_extend (parent : Handle) (p : Parameters) (arguments : List Datum) :
    Sourced (extend parent p arguments) := by
  intro s e h
  change (extend parent p arguments s).1 = _ at h
  rw [extend] at h
  cases hfault : s.environments.extendFault? parent p arguments.length with
  | some fault =>
    rw [hfault] at h
    cases h
    exact Environments.sourced_of_extendFault? hfault
  | none =>
    rw [hfault] at h
    cases h

end Action

namespace Primitive

theorem sourced_reclaim (collect : Session → Option Nat × Session) :
    (reclaim collect).Sourced := by
  intro s e h
  change (reclaim collect s).1 = _ at h
  rw [reclaim] at h
  split at h <;> cases h

theorem sourced_ofPair (p : Primitive) (part : Datum → Datum → Datum) (d : Datum) :
    (ofPair p part d).Sourced := by
  cases d with
  | pair mark head tail => exact .pure _
  | _ => exact .fail trivial

theorem sourced_host (call : Caller) (evaluate : Evaluator) (p : HostPrimitive)
    (arguments : List Datum) : (perform call evaluate (.host p) arguments).Sourced := by
  cases p with
  | tryCollect | collectIfNeeded => exact sourced_reclaim _
  | frameCount | allocatedCount | isEvaluating => exact .bind .get fun _ => .pure _

end Primitive

end FrameLisp
