import FrameLisp.Proofs.Eval.Failures

/-!
# Relations that evaluation respects

Evaluations under two callers stay in a relation if calls do, when the relation holds of each step
with itself and is kept by what evaluation is composed of. What calls leave alone, what they fail
with, and what a greater bound on their depth changes, are relations of this kind.
-/
namespace FrameLisp

open Store Source

namespace Action

variable {α β : Type}

/-- What is common to the steps of an evaluation. -/
structure IsStep (a : Action α) : Prop where
  settings : a.KeepsSettings
  sourced : a.Sourced

theorem IsStep.pure (x : α) : IsStep (pure x) := ⟨.pure x, .pure x⟩

theorem IsStep.fail {e : EvalError} (he : e.Sourced) : IsStep (fail e : Action α) :=
  ⟨.throw _, .fail he⟩

theorem IsStep.get : IsStep (MonadState.get : Action Session) := ⟨.get, .get⟩

theorem IsStep.bind {a : Action α} {f : α → Action β} (ha : IsStep a)
    (hf : ∀ x, IsStep (f x)) : IsStep (a >>= f) :=
  ⟨ha.settings.bind fun x => (hf x).settings, ha.sourced.bind fun x => (hf x).sourced⟩

theorem IsStep.ofExcept {x : Except EvalError α} (h : ∀ e, x = .error e → e.Sourced) :
    IsStep (ofExcept x) :=
  ⟨.ofExcept x, .ofExcept h⟩

end Action

/-- A relation between actions that holds of the steps of an evaluation with themselves, and of
actions that are composed of related ones. -/
structure Action.Congruence (R : ∀ α : Type, Action α → Action α → Prop) : Prop where
  step : ∀ {α : Type} {a : Action α}, a.IsStep → R α a a
  bind : ∀ {α β : Type} {a b : Action α} {f g : α → Action β}, R α a b →
    (∀ x, R β (f x) (g x)) → R β (a >>= f) (b >>= g)
  evaluating : ∀ {α : Type} {a b : Action α}, R α a b → R α (evaluating a) (evaluating b)

section Related

variable (R : ∀ α : Type, Action α → Action α → Prop)

/-- Calls are related, whatever is called. -/
def Caller.Related (call call' : Caller) : Prop :=
  ∀ procedure arguments, R Datum (call procedure arguments) (call' procedure arguments)

def Evaluator.Related (evaluate evaluate' : Evaluator) : Prop :=
  ∀ env d, R Datum (evaluate env d) (evaluate' env d)

end Related

namespace Action.Congruence

variable {R : ∀ α : Type, Action α → Action α → Prop} (h : Congruence R) {call call' : Caller}
  {evaluate evaluate' : Evaluator}

section Code

open Code

include h

mutual

theorem run (hcall : call.Related R call') : ∀ (c : Code) (env : Handle),
    R Datum (c.run call env) (c.run call' env)
  | .constant _, _ => by
    rw [Code.run, Code.run]
    exact h.step (.pure _)
  | .variable name, env => by
    rw [Code.run, Code.run]
    exact h.step ⟨keepsSettings_lookup env name, sourced_lookup env name⟩
  | .lambda _, _ => by
    rw [Code.run, Code.run]
    exact h.step (.bind ⟨keepsSettings_freshMark, sourced_freshMark⟩ fun _ => .pure _)
  | .assignment name value, env => by
    rw [Code.run, Code.run]
    refine h.bind (run hcall value env) fun v => h.step ?_
    exact .bind ⟨keepsSettings_assign env name v, sourced_assign env name v⟩ fun _ => .pure _
  | .definition name value, env => by
    rw [Code.run, Code.run]
    refine h.bind (run hcall value env) fun v => h.step ?_
    exact .bind ⟨keepsSettings_define env name v, sourced_define env name v⟩ fun _ => .pure _
  | .conditional test consequent alternative, env => by
    rw [Code.run, Code.run]
    refine h.bind (run hcall test env) fun v => ?_
    split
    · exact run hcall alternative env
    · exact run hcall consequent env
  | .sequence units, env => by
    rw [Code.run, Code.run]
    exact runAll hcall units env .nil
  | .application operator operands, env => by
    rw [Code.run, Code.run]
    refine h.bind (run hcall operator env) fun procedure => ?_
    exact h.bind (runEach hcall operands env []) fun arguments => hcall procedure arguments

theorem runAll (hcall : call.Related R call') : ∀ (units : List Code)
    (env : Handle) (last : Datum),
    R Datum (Code.runAll call env last units) (Code.runAll call' env last units)
  | [], _, _ => by
    rw [Code.runAll, Code.runAll]
    exact h.step (.pure _)
  | unit :: units, env, _ => by
    rw [Code.runAll, Code.runAll]
    exact h.bind (run hcall unit env) fun v => runAll hcall units env v

theorem runEach (hcall : call.Related R call') : ∀ (units : List Code)
    (env : Handle) (values : List Datum),
    R (List Datum) (Code.runEach call env values units) (Code.runEach call' env values units)
  | [], _, _ => by
    rw [Code.runEach, Code.runEach]
    exact h.step (.pure _)
  | unit :: units, env, values => by
    rw [Code.runEach, Code.runEach]
    exact h.bind (run hcall unit env) fun v => runEach hcall units env (v :: values)

end

theorem evalIn (hcall : call.Related R call') :
    (Datum.evalIn call).Related R (Datum.evalIn call') := by
  intro env d
  rw [Datum.evalIn, Datum.evalIn]
  split
  · exact h.evaluating (h.run hcall _ env)
  · exact h.step (.fail trivial)

end Code

section Files

include h

theorem evalAll (he : evaluate.Related R evaluate') (env : Handle)
    (data : List Datum) : R Unit (evalAll evaluate env data) (evalAll evaluate' env data) := by
  induction data with
  | nil => exact h.step (.pure _)
  | cons d data ih => exact h.bind (he env d) fun _ => ih

theorem loadChunks (he : evaluate.Related R evaluate') (env : Handle)
    (path : String) {chunks : List Chunk} (hchunks : ∀ chunk ∈ chunks, chunk.Sourced) :
    R Unit (loadChunks evaluate env path chunks) (loadChunks evaluate' env path chunks) := by
  induction chunks with
  | nil => exact h.step (.pure _)
  | cons chunk chunks ih =>
    obtain ⟨hchunk, hrest⟩ := List.forall_mem_cons.1 hchunks
    cases chunk with
    | forms data => exact h.bind (h.evalAll he env data) fun _ => ih hrest
    | unreadable source error => exact h.step (.fail hchunk)
    | fault f => exact h.step (.fail trivial)

theorem loadFile (he : evaluate.Related R evaluate') (env : Handle)
    (path : String) : R Unit (loadFile evaluate env path) (loadFile evaluate' env path) := by
  refine h.bind (h.step .get) fun s => ?_
  split
  · exact h.step (.fail trivial)
  · exact h.loadChunks he env path (Chunk.sourced_of_ofBytes _)

end Files

section Procedures

open Primitive

include h

theorem perform (hcall : call.Related R call')
    (he : evaluate.Related R evaluate') (p : Primitive)
    (arguments : List Datum) :
    R Datum (p.perform call evaluate arguments) (p.perform call' evaluate' arguments) := by
  cases p with
  | eval =>
    cases arguments with
    | nil => exact h.step (.pure _)
    | cons d arguments => exact h.bind (h.step .get) fun s => he s.root _
  | apply =>
    cases arguments with
    | nil => exact h.step (.pure _)
    | cons procedure arguments =>
      simp only [Primitive.perform]
      split
      · exact hcall procedure _
      · exact h.step (.fail trivial)
  | load =>
    cases arguments with
    | nil => exact h.step (.pure _)
    | cons d arguments =>
      simp only [Primitive.perform]
      split
      · refine h.bind (h.step .get) fun s => ?_
        exact h.bind (h.loadFile he s.root _) fun _ => h.step (.pure _)
      · exact h.step (.fail trivial)
  | car | cdr =>
    cases arguments with
    | nil => exact h.step (.pure _)
    | cons d arguments => exact h.step ⟨keepsSettings_ofPair _ _ d, sourced_ofPair _ _ d⟩
  | cons =>
    match arguments with
    | [] | [_] => exact h.step (.pure _)
    | head :: tail :: _ => exact h.step ⟨keepsSettings_cons head tail, sourced_cons head tail⟩
  | list => exact h.step ⟨keepsSettings_list arguments, sourced_list arguments⟩
  | isPair | isNull | not => cases arguments <;> exact h.step (.pure _)
  | isEqual =>
    match arguments with
    | [] | [_] | _ :: _ :: _ => exact h.step (.pure _)
  | div => exact h.step (.ofExcept fun _ => Arithmetic.sourced_of_div)
  | add | sub | mul | equal | less | greater | lessOrEqual | greaterOrEqual =>
    exact h.step (.ofExcept fun _ => Arithmetic.sourced_of_onNumbers)
  | host p =>
    cases p <;> exact h.step ⟨keepsSettings_host call evaluate _ arguments,
      sourced_host call evaluate _ arguments⟩

theorem applyWith (hcall : call.Related R call') :
    (applyWith call).Related R (applyWith call') := by
  intro procedure arguments
  cases procedure with
  | primitive p =>
    simp only [FrameLisp.applyWith, Primitive.invoke]
    split
    · exact h.step (.fail trivial)
    · exact h.perform hcall (h.evalIn hcall) p arguments
  | closure mark l frame =>
    refine h.bind (h.step ⟨keepsSettings_extend frame l.parameters arguments,
      sourced_extend frame l.parameters arguments⟩) fun env => ?_
    exact h.run hcall l.body env
  | _ => exact h.step (.fail trivial)

end Procedures

end Action.Congruence

/-- What a composed action leaves alone is what all of its steps leave alone. -/
theorem Action.congruence_keepsSettings : Congruence fun _ a _ => a.KeepsSettings where
  step ha := ha.settings
  bind ha hf := ha.bind hf
  evaluating ha := ha.evaluating

/-- Calls leave the settings alone, whatever the bound on their depth. -/
theorem keepsSettings_call (n : Nat) :
    (call n).Related (fun _ a _ => a.KeepsSettings) (call n) := by
  induction n with
  | zero => exact fun procedure arguments => .throw _
  | succ n ih => exact Action.congruence_keepsSettings.applyWith ih

theorem Datum.keepsSettings_evalIn (depth : Nat) (env : Handle) (d : Datum) :
    (Datum.evalIn (call depth) env d).KeepsSettings :=
  Action.congruence_keepsSettings.evalIn (keepsSettings_call depth) env d

/-- A composed action hands the errors of its steps on. -/
theorem Action.congruence_sourced : Congruence fun _ a _ => a.Sourced where
  step ha := ha.sourced
  bind ha hf := ha.bind hf
  evaluating ha := ha.evaluating

theorem sourced_call (n : Nat) : (call n).Related (fun _ a _ => a.Sourced) (call n) := by
  induction n with
  | zero => exact fun procedure arguments => .exhausted
  | succ n ih => exact Action.congruence_sourced.applyWith ih

theorem Datum.sourced_evalIn (depth : Nat) (env : Handle) (d : Datum) :
    (Datum.evalIn (call depth) env d).Sourced :=
  Action.congruence_sourced.evalIn (sourced_call depth) env d

theorem sourced_loadFile (depth : Nat) (env : Handle) (path : String) :
    (loadFile (Datum.evalIn (call depth)) env path).Sourced := by
  have heval : (Datum.evalIn (call depth)).Related (fun _ a _ => a.Sourced)
      (Datum.evalIn (call depth)) := Datum.sourced_evalIn depth
  exact Action.congruence_sourced.loadFile heval env path

end FrameLisp
