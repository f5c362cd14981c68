import FrameLisp.Eval.Run

/-!
# Counting frames

Evaluations that count the frames they are given: an application of a closure counts if the frame of
the closure is live and its arity accepts the arguments, and nothing else does. What such an
evaluation does is what the same evaluation does without counting.
-/
namespace FrameLisp

open Store Source

/-- An action, and how many frames it is given when it begins in a session. -/
structure Tallied (α : Type) where
  action : Action α
  tally : Session → Nat

namespace Tallied

variable {α β : Type}

/-- An action that is given no frames. -/
def quiet (a : Action α) : Tallied α := ⟨a, fun _ => 0⟩

/-- What follows counts in the session that is left, unless the action failed. -/
def bind (a : Tallied α) (f : α → Tallied β) : Tallied β where
  action := a.action >>= fun x => (f x).action
  tally s :=
    a.tally s + match a.action.runFrom s with
      | (.ok x, s) => (f x).tally s
      | (.error _, _) => 0

instance : Monad Tallied where
  pure x := quiet (pure x)
  bind := bind

def evaluating (a : Tallied α) : Tallied α where
  action := Action.evaluating a.action
  tally s := a.tally { s with depth := s.depth + 1 }

/-- A new frame below `parent`, if it is live and the number of arguments fits. -/
def extend (parent : Handle) (p : Parameters) (arguments : List Datum) : Tallied Handle where
  action := Action.extend parent p arguments
  tally s :=
    if s.environments.frames.contains parent && p.arity.accepts arguments.length then 1 else 0

/-- How a procedure is called. -/
abbrev Caller := Datum → List Datum → Tallied Datum

/-- How a datum is evaluated in a frame. -/
abbrev Evaluator := Handle → Datum → Tallied Datum

def Caller.action (call : Caller) : FrameLisp.Caller := fun procedure arguments =>
  (call procedure arguments).action

def Evaluator.action (evaluate : Evaluator) : FrameLisp.Evaluator := fun env d =>
  (evaluate env d).action

mutual

/-- Runs code in a frame. -/
def run (call : Caller) (env : Handle) : Code → Tallied Datum
  | .constant d => pure d
  | .variable name => quiet (Action.lookup env name)
  | .assignment name value => do
    let v ← run call env value
    quiet (Action.assign env name v)
    return .acknowledgement
  | .definition name value => do
    let v ← run call env value
    quiet (Action.define env name v)
    return .acknowledgement
  | .conditional test consequent alternative => do
    let v ← run call env test
    if v.isFalse then run call env alternative else run call env consequent
  | .lambda l => do
    let mark ← quiet Action.freshMark
    return .closure mark l env
  | .sequence units => runAll call env .nil units
  | .application operator operands => do
    let procedure ← run call env operator
    let arguments ← runEach call env [] operands
    call procedure arguments

/-- Runs units one after the other; the value is that of the last one, or `last`. -/
def runAll (call : Caller) (env : Handle) (last : Datum) : List Code → Tallied Datum
  | [] => pure last
  | unit :: units => do
    let v ← run call env unit
    runAll call env v units

/-- The values of units after those in `values`, the last one first. -/
def runEach (call : Caller) (env : Handle) (values : List Datum) :
    List Code → Tallied (List Datum)
  | [] => pure values.reverse
  | unit :: units => do
    let v ← run call env unit
    runEach call env (v :: values) units

end

def evalIn (call : Caller) : Evaluator := fun env d =>
  match Code.ofDatum d with
  | .ok unit => evaluating (run call env unit)
  | .error e => quiet (Action.fail (.form e))

def evalAll (evaluate : Evaluator) (env : Handle) : List Datum → Tallied Unit
  | [] => pure ()
  | d :: ds => do
    let _ ← evaluate env d
    evalAll evaluate env ds

/-- Evaluates the chunks of a file up to the first one at fault. -/
def loadChunks (evaluate : Evaluator) (env : Handle) (path : String) : List Chunk → Tallied Unit
  | [] => pure ()
  | .forms data :: chunks => do
    evalAll evaluate env data
    loadChunks evaluate env path chunks
  | .unreadable source error :: _ => quiet (Action.fail (.unreadable path source error))
  | .fault f :: _ => quiet (Action.fail (.file path f))

def loadFile (evaluate : Evaluator) (env : Handle) (path : String) : Tallied Unit := do
  match (← quiet get).files path with
  | .error f => quiet (Action.fail (.file path f))
  | .ok bytes => loadChunks evaluate env path (Chunk.ofBytes bytes)

/-- Runs a primitive; only these three lead to evaluations. -/
def perform (call : Caller) (evaluate : Evaluator) (p : Primitive) (arguments : List Datum) :
    Tallied Datum :=
  match p, arguments with
  | .eval, d :: _ => do evaluate (← quiet get).root (Primitive.unquoted d)
  | .apply, procedure :: arguments =>
    let last := arguments.getLast?.getD .nil
    match last.toList? with
    | some spread => call procedure (arguments.dropLast ++ spread)
    | none => quiet (Action.fail (.wrongType .apply .list last))
  | .load, d :: _ =>
    match d.asString? with
    | some path => do
      loadFile evaluate (← quiet get).root path
      return .acknowledgement
    | none => quiet (Action.fail (.wrongType .load .string d))
  | p, arguments => quiet (p.perform call.action evaluate.action arguments)

def invoke (call : Caller) (evaluate : Evaluator) (p : Primitive) (arguments : List Datum) :
    Tallied Datum :=
  match p.arity.mismatch? arguments.length with
  | some e => quiet (Action.fail (.arity e))
  | none => perform call evaluate p arguments

def applyWith (call : Caller) : Caller := fun procedure arguments =>
  match procedure with
  | .primitive p => invoke call (evalIn call) p arguments
  | .closure _ l frame => do
    let env ← extend frame l.parameters arguments
    run call env l.body
  | d => quiet (Action.fail (.notApplicable d))

/-- Calls a procedure, with at most `depth` calls inside each other. -/
def call : Nat → Caller
  | 0, _, _ => quiet (throw .exhausted)
  | depth + 1, procedure, arguments => applyWith (call depth) procedure arguments

section Erasure

@[simp] theorem action_quiet (a : Action α) : (quiet a).action = a := rfl

@[simp] theorem action_pure (x : α) : (pure x : Tallied α).action = pure x := rfl

@[simp] theorem action_bind (a : Tallied α) (f : α → Tallied β) :
    (a >>= f).action = a.action >>= fun x => (f x).action := rfl

theorem tally_bind (a : Tallied α) (f : α → Tallied β) (s : Session) :
    (a >>= f).tally s = a.tally s + match a.action.runFrom s with
      | (.ok x, s) => (f x).tally s
      | (.error _, _) => 0 := rfl

variable (call : Caller) (evaluate : Evaluator)

mutual

theorem action_run : ∀ (c : Code) (env : Handle),
    (run call env c).action = c.run call.action env
  | .constant _, _ => by
    rw [run, Code.run]
    rfl
  | .variable _, _ => by
    rw [run, Code.run]
    rfl
  | .assignment name value, env => by
    rw [run, Code.run, ← action_run value env]
    rfl
  | .definition name value, env => by
    rw [run, Code.run, ← action_run value env]
    rfl
  | .conditional test consequent alternative, env => by
    rw [run, Code.run, ← action_run test env, action_bind]
    refine congrArg _ (funext fun v => ?_)
    split
    · exact action_run alternative env
    · exact action_run consequent env
  | .lambda _, _ => by
    rw [run, Code.run]
    rfl
  | .sequence units, env => by
    rw [run, Code.run]
    exact action_runAll units env .nil
  | .application operator operands, env => by
    rw [run, Code.run, ← action_run operator env, ← action_runEach operands env []]
    rfl

theorem action_runAll : ∀ (units : List Code) (env : Handle) (last : Datum),
    (runAll call env last units).action = Code.runAll call.action env last units
  | [], _, _ => by
    rw [runAll, Code.runAll]
    rfl
  | unit :: units, env, _ => by
    rw [runAll, Code.runAll, ← action_run unit env, action_bind]
    exact congrArg _ (funext fun v => action_runAll units env v)

theorem action_runEach : ∀ (units : List Code) (env : Handle) (values : List Datum),
    (runEach call env values units).action = Code.runEach call.action env values units
  | [], _, _ => by
    rw [runEach, Code.runEach]
    rfl
  | unit :: units, env, values => by
    rw [runEach, Code.runEach, ← action_run unit env, action_bind]
    exact congrArg _ (funext fun v => action_runEach units env (v :: values))

end

theorem action_evalIn : Evaluator.action (evalIn call) = Datum.evalIn call.action := by
  funext env d
  rw [Evaluator.action, evalIn, Datum.evalIn]
  cases Code.ofDatum d with
  | ok c => exact congrArg Action.evaluating (action_run call c env)
  | error e => rfl

theorem action_evalAll (env : Handle) (data : List Datum) :
    (evalAll evaluate env data).action = FrameLisp.evalAll evaluate.action env data := by
  induction data with
  | nil => rfl
  | cons d data ih => exact congrArg (evaluate.action env d >>= ·) (funext fun _ => ih)

theorem action_loadChunks (env : Handle) (path : String) (chunks : List Chunk) :
    (loadChunks evaluate env path chunks).action =
      FrameLisp.loadChunks evaluate.action env path chunks := by
  induction chunks with
  | nil => rfl
  | cons chunk chunks ih =>
    cases chunk with
    | forms data =>
      rw [loadChunks, FrameLisp.loadChunks, ← action_evalAll, ← ih]
      rfl
    | unreadable source error => rfl
    | fault f => rfl

theorem action_loadFile (env : Handle) (path : String) :
    (loadFile evaluate env path).action = FrameLisp.loadFile evaluate.action env path := by
  refine congrArg (get >>= ·) (funext fun s => ?_)
  dsimp only
  cases s.files path with
  | error f => rfl
  | ok bytes => exact action_loadChunks evaluate env path _

theorem action_perform (p : Primitive) (arguments : List Datum) :
    (perform call evaluate p arguments).action =
      p.perform call.action evaluate.action arguments := by
  cases p with
  | eval =>
    cases arguments with
    | nil | cons => rfl
  | apply =>
    cases arguments with
    | nil => rfl
    | cons procedure arguments =>
      simp only [perform, Primitive.perform]
      cases (arguments.getLast?.getD .nil).toList? with
      | none | some => rfl
  | load =>
    cases arguments with
    | nil => rfl
    | cons d arguments =>
      simp only [perform, Primitive.perform]
      cases d.asString? with
      | none => rfl
      | some path =>
        simp only [action_bind, action_quiet, action_pure, action_loadFile]
  | _ => rfl

theorem action_invoke (p : Primitive) (arguments : List Datum) :
    (invoke call evaluate p arguments).action =
      p.invoke call.action evaluate.action arguments := by
  rw [invoke, Primitive.invoke]
  cases p.arity.mismatch? arguments.length with
  | some e => rfl
  | none => exact action_perform call evaluate p arguments

theorem action_applyWith : Caller.action (applyWith call) = FrameLisp.applyWith call.action := by
  funext procedure arguments
  cases procedure with
  | primitive p =>
    refine (action_invoke call (evalIn call) p arguments).trans ?_
    rw [action_evalIn]
    rfl
  | closure mark l frame =>
    exact congrArg (Action.extend frame l.parameters arguments >>= ·)
      (funext fun env => action_run call l.body env)
  | _ => rfl

end Erasure

section Calls

/-- To count changes nothing. -/
theorem action_call (depth : Nat) : Caller.action (call depth) = FrameLisp.call depth := by
  induction depth with
  | zero => rfl
  | succ depth ih => exact (action_applyWith (call depth)).trans (congrArg FrameLisp.applyWith ih)

variable (depth : Nat) (env : Handle)

theorem action_run_call (unit : Code) :
    (run (call depth) env unit).action = unit.run (FrameLisp.call depth) env := by
  rw [action_run, action_call]

theorem action_evalIn_call :
    Evaluator.action (evalIn (call depth)) = Datum.evalIn (FrameLisp.call depth) := by
  rw [action_evalIn, action_call]

theorem action_loadFile_call (path : String) :
    (loadFile (evalIn (call depth)) env path).action =
      FrameLisp.loadFile (Datum.evalIn (FrameLisp.call depth)) env path := by
  rw [action_loadFile, action_evalIn_call]

end Calls

end Tallied

end FrameLisp
