import FrameLisp.Code.Analysis
import FrameLisp.Datum.Equality
import FrameLisp.Eval.Action
import FrameLisp.Eval.Arithmetic
import FrameLisp.Source.Chunk

/-!
# Running code

Code runs by recursion on itself, given how procedures are called. Calls are bounded in depth:
`call n` runs at most `n` calls inside each other, and whatever ends without reaching the bound
ends the same way under a greater one.
-/
namespace FrameLisp

open Store Source

/-- How a procedure is called with arguments. -/
abbrev Caller := Datum → List Datum → Action Datum

/-- How a datum is evaluated in a frame. -/
abbrev Evaluator := Handle → Datum → Action Datum

namespace Code

mutual

/-- Runs code in a frame. Operators are run before operands, and operands from left to right. -/
def run (call : Caller) (env : Handle) : Code → Action Datum
  | .constant d => pure d
  | .variable name => Action.lookup env name
  | .assignment name value => do
    let v ← run call env value
    Action.assign env name v
    return .acknowledgement
  | .definition name value => do
    let v ← run call env value
    Action.define env name v
    return .acknowledgement
  | .conditional test consequent alternative => do
    let v ← run call env test
    if v.isFalse then run call env alternative else run call env consequent
  | .lambda l => do
    let mark ← Action.freshMark
    return .closure mark l env
  | .sequence units => runAll call env .nil units
  | .application operator operands => do
    let procedure ← run call env operator
    let arguments ← runEach call env [] operands
    call procedure arguments

/-- Runs units one after the other; the value is that of the last one, or `last`. -/
def runAll (call : Caller) (env : Handle) (last : Datum) : List Code → Action Datum
  | [] => pure last
  | unit :: units => do
    let v ← run call env unit
    runAll call env v units

/-- The values of units after those in `values`, the last one first. -/
def runEach (call : Caller) (env : Handle) (values : List Datum) :
    List Code → Action (List Datum)
  | [] => pure values.reverse
  | unit :: units => do
    let v ← run call env unit
    runEach call env (v :: values) units

end

end Code

/-- Evaluates a datum in a frame: all of it is analysed before any of it is run. -/
def Datum.evalIn (call : Caller) : Evaluator := fun env d =>
  match Code.ofDatum d with
  | .ok unit => Action.evaluating (unit.run call env)
  | .error e => Action.fail (.form e)

/-- Evaluates data one after the other for their effects. -/
def evalAll (evaluate : Evaluator) (env : Handle) : List Datum → Action Unit
  | [] => pure ()
  | d :: ds => do
    let _ ← evaluate env d
    evalAll evaluate env ds

/-- Evaluates the chunks of a file up to the first one at fault. -/
def loadChunks (evaluate : Evaluator) (env : Handle) (path : String) : List Chunk → Action Unit
  | [] => pure ()
  | .forms data :: chunks => do
    evalAll evaluate env data
    loadChunks evaluate env path chunks
  | .unreadable source error :: _ => Action.fail (.unreadable path source error)
  | .fault f :: _ => Action.fail (.file path f)

/-- Evaluates a file in a frame line by line. -/
def loadFile (evaluate : Evaluator) (env : Handle) (path : String) : Action Unit := do
  match (← get).files path with
  | .error f => Action.fail (.file path f)
  | .ok bytes => loadChunks evaluate env path (Chunk.ofBytes bytes)

namespace Primitive

/-- A datum under a quote is evaluated without it. -/
def unquoted : Datum → Datum
  | .quoted d => d
  | d => d

/-- Takes the head or the tail of a pair. -/
def ofPair (p : Primitive) (part : Datum → Datum → Datum) : Datum → Action Datum
  | .pair _ head tail => pure (part head tail)
  | d => Action.fail (.wrongType p .pair d)

/-- Collects frames; the value is their number, or false if nothing was collected. -/
def reclaim (collect : Session → Option Nat × Session) : Action Datum := fun s =>
  match collect s with
  | (some freed, s) => (.ok (.number (.ofInt freed)), s)
  | (none, s) => (.ok (.boolean false), s)

/-- Runs a primitive whose arity accepts the arguments. -/
def perform (call : Caller) (evaluate : Evaluator) (p : Primitive) (arguments : List Datum) :
    Action Datum :=
  match p, arguments with
  | .eval, d :: _ => do evaluate (← get).root (unquoted d)
  | .apply, procedure :: arguments =>
    let last := arguments.getLast?.getD .nil
    match last.toList? with
    | some spread => call procedure (arguments.dropLast ++ spread)
    | none => Action.fail (.wrongType .apply .list last)
  | .load, d :: _ =>
    match d.asString? with
    | some path => do
      loadFile evaluate (← get).root path
      return .acknowledgement
    | none => Action.fail (.wrongType .load .string d)
  | .car, d :: _ => ofPair .car (fun head _ => head) d
  | .cdr, d :: _ => ofPair .cdr (fun _ tail => tail) d
  | .cons, head :: tail :: _ => Action.cons head tail
  | .list, items => Action.list items
  | .isPair, d :: _ => pure (.boolean d.isPair)
  | .isNull, d :: _ => pure (.boolean d.isNull)
  | .isEqual, a :: b :: _ => pure (.boolean (a.same b))
  | .not, d :: _ => pure (.boolean d.isFalse)
  | .add, arguments => Action.ofExcept (Arithmetic.add arguments)
  | .sub, arguments => Action.ofExcept (Arithmetic.sub arguments)
  | .mul, arguments => Action.ofExcept (Arithmetic.mul arguments)
  | .div, arguments => Action.ofExcept (Arithmetic.div arguments)
  | .equal, arguments => Action.ofExcept (Arithmetic.compare .equal Ordering.isEq arguments)
  | .less, arguments => Action.ofExcept (Arithmetic.compare .less Ordering.isLT arguments)
  | .greater, arguments => Action.ofExcept (Arithmetic.compare .greater Ordering.isGT arguments)
  | .lessOrEqual, arguments =>
    Action.ofExcept (Arithmetic.compare .lessOrEqual Ordering.isLE arguments)
  | .greaterOrEqual, arguments =>
    Action.ofExcept (Arithmetic.compare .greaterOrEqual Ordering.isGE arguments)
  | .host .tryCollect, live => reclaim fun s => s.collectGarbage live
  | .host .collectIfNeeded, live => reclaim fun s => s.collectIfNeeded live
  | .host .frameCount, _ => do return .number (.ofInt (← get).environments.size)
  | .host .allocatedCount, _ => do return .number (.ofInt (← get).environments.allocated)
  | .host .isEvaluating, _ => do return .boolean (← get).isEvaluating
  | _, _ => pure .nil

/-- Calls a primitive. -/
def invoke (call : Caller) (evaluate : Evaluator) (p : Primitive) (arguments : List Datum) :
    Action Datum :=
  match p.arity.mismatch? arguments.length with
  | some e => Action.fail (.arity e)
  | none => p.perform call evaluate arguments

end Primitive

/-- Applies a procedure, the calls inside being made by `call`. -/
def applyWith (call : Caller) : Caller := fun procedure arguments =>
  match procedure with
  | .primitive p => p.invoke call (Datum.evalIn call) arguments
  | .closure _ l frame => do
    let env ← Action.extend frame l.parameters arguments
    l.body.run call env
  | d => Action.fail (.notApplicable d)

/-- Calls a procedure, with at most `depth` calls inside each other. -/
def call : Nat → Caller
  | 0, _, _ => throw .exhausted
  | depth + 1, procedure, arguments => applyWith (call depth) procedure arguments

end FrameLisp
