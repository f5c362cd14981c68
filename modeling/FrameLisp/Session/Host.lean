import FrameLisp.Session.Text

/-!
# Host primitives

Whoever embeds a session may bind primitives of their own. What such a primitive does is a program:
it observes the session, changes what the session keeps, asks for frames to be collected, calls
procedures, and starts evaluations in the session that called it. How it goes on may depend on all
answers so far. It has no way to set the number of running evaluations or the threshold.
-/
namespace FrameLisp

open Source Store

/-- The outcome of an action as a value. Only an action that used up its depth does not return. -/
def Action.caught {α : Type} (a : Action α) : Action (Except EvalError α) := fun s =>
  match a.runFrom s with
  | (.ok x, s) => (.ok (.ok x), s)
  | (.error (.failed e), s) => (.ok (.error e), s)
  | (.error .exhausted, s) => (.error .exhausted, s)

theorem Action.runFrom_caught {α : Type} (a : Action α) (s : Session) :
    a.caught.runFrom s =
      match a.runFrom s with
      | (.ok x, s) => (.ok (.ok x), s)
      | (.error (.failed e), s) => (.ok (.error e), s)
      | (.error .exhausted, s) => (.error .exhausted, s) := rfl

/-- The ways to start an evaluation. -/
inductive Entry where
  | execute (unit : Code) (env : Handle)
  | eval (d : Datum)
  | evalIn (env : Handle) (d : Datum)
  | readEval (source : String)
  | loadFile (env : Handle) (path : String)
  | runFile (path : String)

/-- What an evaluation returns. -/
inductive Answer where
  | value (result : Except EvalError Datum)
  | values (result : Except Failure (List Datum))
  | loaded (result : Except EvalError Unit)
  /-- The values printed, the last one first, and what stopped the file. -/
  | printed (values : List Datum) (stopped : Option Failure)

/-- How requests to collect frames are served. -/
structure Collector where
  collectGarbage : List Datum → Action (Option Nat)
  collectIfNeeded : List Datum → Action (Option Nat)

/-- A session collects its own frames. -/
def Collector.session : Collector where
  collectGarbage live := modifyGet fun s => s.collectGarbage live
  collectIfNeeded live := modifyGet fun s => s.collectIfNeeded live

/-- Evaluates forms in the root frame up to the first failure, the values so far being `values`.
Behind each form `settle` is done, given all values so far, the last one first. -/
def evaluateForms (evaluate : Evaluator) (settle : List Datum → Action (Option Nat))
    (values : List Datum) : List Datum → Action (List Datum × Option Failure)
  | [] => pure (values, none)
  | d :: ds => do
    match ← (evaluate (← get).root d).caught with
    | .error e => return (values, some (.ofEval e))
    | .ok value => do
      let _ ← settle (value :: values)
      evaluateForms evaluate settle (value :: values) ds

/-- Evaluates what the entry is given; between forms `collector` collects what is to be collected. -/
def Entry.run (collector : Collector) (call : Caller) : Entry → Action Answer
  | .execute unit env => do return .value (← (Action.evaluating (unit.run call env)).caught)
  | .eval d => do return .value (← (Datum.evalIn call (← get).root d).caught)
  | .evalIn env d => do return .value (← (Datum.evalIn call env d).caught)
  | .readEval source =>
    match Program.ofString source with
    | .error e => return .values (.error (.unreadable "<input>" source e))
    | .ok program => do
      let settle (values : List Datum) := collector.collectIfNeeded values.reverse
      match ← evaluateForms (Datum.evalIn call) settle [] program.data with
      | (values, none) => return .values (.ok values.reverse)
      | (_, some f) => return .values (.error f)
  | .loadFile env path => do
    return .loaded (← (FrameLisp.loadFile (Datum.evalIn call) env path).caught)
  | .runFile path => do
    match (← get).files path with
    | .error f => return .printed [] (some (.file f))
    | .ok bytes =>
      match Program.ofStream bytes with
      | .error (.fault f) => return .printed [] (some (.file f))
      | .error (.unreadable source e) => return .printed [] (some (.unreadable path source e))
      | .ok program => do
        let settle (_ : List Datum) := collector.collectIfNeeded []
        let (values, stopped) ← evaluateForms (Datum.evalIn call) settle [] program.data
        return .printed values stopped

/-- What a host primitive does when it is applied. -/
inductive HostProgram where
  /-- Returns a value or an error, or never returns. -/
  | finish (result : Except Halt Datum)
  | observe (next : Session → HostProgram)
  /-- Changes the frames, gives out marks, or writes files. -/
  | replace (environments : Environments) (marks : Nat) (files : Files) (next : HostProgram)
  | collectGarbage (live : List Datum) (next : Option Nat → HostProgram)
  | collectIfNeeded (live : List Datum) (next : Option Nat → HostProgram)
  | apply (procedure : Datum) (arguments : List Datum)
    (next : Except EvalError Datum → HostProgram)
  | enter (entry : Entry) (next : Answer → HostProgram)

/-- Runs a host primitive, given how frames are collected and how procedures are called. -/
def HostProgram.run (collector : Collector) (call : Caller) : HostProgram → Action Datum
  | .finish result => liftExcept result
  | .observe next => do run collector call (next (← get))
  | .replace environments marks files next => do
    modify fun s => { s with environments, marks, files }
    run collector call next
  | .collectGarbage live next => do run collector call (next (← collector.collectGarbage live))
  | .collectIfNeeded live next => do run collector call (next (← collector.collectIfNeeded live))
  | .apply procedure arguments next => do
    run collector call (next (← (call procedure arguments).caught))
  | .enter entry next => do run collector call (next (← entry.run collector call))

/-- The primitives of a host: what each datum that stands for one does with its arguments. -/
abbrev Hosts := Datum → Option (List Datum → HostProgram)

namespace Hosts

/-- Calls a procedure or a primitive of the host, with at most `depth` calls inside each other. -/
def call (hosts : Hosts) (collector : Collector) : Nat → Caller
  | 0, _, _ => throw .exhausted
  | depth + 1, procedure, arguments =>
    match hosts procedure with
    | some program => (program arguments).run collector (hosts.call collector depth)
    | none => applyWith (hosts.call collector depth) procedure arguments

/-- Starts an evaluation from outside, where the requests of host primitives go to `collector`. -/
def enter (hosts : Hosts) (collector : Collector) (depth : Nat) (entry : Entry) (s : Session) :
    Except Halt Answer × Session :=
  (entry.run .session (hosts.call collector depth)).runFrom s

end Hosts

namespace HostPrimitive

/-- The number of frames that a collection freed, or false if nothing was collected. -/
def freed : Option Nat → Datum
  | some n => .number (.ofInt n)
  | none => .boolean false

/-- The host primitives that observe or drive the collection of frames, as programs. -/
def program (p : HostPrimitive) (arguments : List Datum) : HostProgram :=
  match (Primitive.host p).arity.mismatch? arguments.length with
  | some e => .finish (.error (.failed (.arity e)))
  | none =>
    match p with
    | .tryCollect => .collectGarbage arguments fun n => .finish (.ok (freed n))
    | .collectIfNeeded => .collectIfNeeded arguments fun n => .finish (.ok (freed n))
    | .frameCount => .observe fun s => .finish (.ok (.number (.ofInt s.environments.size)))
    | .allocatedCount =>
      .observe fun s => .finish (.ok (.number (.ofInt s.environments.allocated)))
    | .isEvaluating => .observe fun s => .finish (.ok (.boolean s.isEvaluating))

end HostPrimitive

/-- A host that has these primitives and no others. -/
def Hosts.observers : Hosts
  | .primitive (.host p) => some p.program
  | _ => none

end FrameLisp
