import FrameLisp.Code.Check
import FrameLisp.Eval.Run

/-!
# Evaluating data as they are

A second evaluator, which makes no code. It checks that a datum is a program and then walks the
datum itself, looking at its syntax whenever it comes by. Its procedures keep the datum of their
parameters and the list of the forms of their bodies. Everything else, the primitives and the
frames, it shares with the evaluator that runs code, whose meaning it explains.

Data of the two evaluators correspond when they differ only in how closures keep their bodies: as
the code that is run on one side, and on the other as the list of forms of which that code is the
analysis. Closures may occur anywhere in a datum, so also among those forms.
-/
namespace FrameLisp.Direct

open Store

/-- A procedure as data: its signature, from which its parameters are read whenever it is called,
and the list of the forms of its body. The parameters themselves are kept for its text only. -/
def procedure (name : Option String) (parameters : Parameters) (signature forms : Datum) : Lambda :=
  .mk name parameters (.constant (.pair none signature forms))

def signature (l : Lambda) : Datum :=
  match l.body with
  | .constant (.pair _ signature _) => signature
  | _ => .nil

def forms (l : Lambda) : Datum :=
  match l.body with
  | .constant (.pair _ _ forms) => forms
  | _ => .nil

/-- Makes a closure in a frame. -/
def close (env : Handle) (name : Option String) (signature forms : Datum) : Action Datum :=
  match Parameters.ofDatum signature with
  | .ok parameters => do
    let mark ← Action.freshMark
    return .closure mark (procedure name parameters signature forms) env
  | .error e => Action.fail (.form e)

mutual

/-- Evaluates a well-formed datum in a frame. A procedure that the datum itself makes takes the
given name. -/
def eval (call : Caller) (env : Handle) (name : Option String) : Datum → Action Datum
  | .symbol target => Action.lookup env target
  | .quoted d => pure d
  | .pair _ head tail =>
    match SpecialForm.ofHead? head with
    | some special => evalForm call env name special tail
    | none => do
      let procedure ← eval call env none head
      let arguments ← evalEach call env [] tail
      call procedure arguments
  | d => pure d

/-- Evaluates a special form with these operands. -/
def evalForm (call : Caller) (env : Handle) (name : Option String) :
    SpecialForm → Datum → Action Datum
  | .quote, .pair _ d _ => pure d
  | .assignment, .pair _ (.symbol target) (.pair _ value _) => do
    let v ← eval call env none value
    Action.assign env target v
    return .acknowledgement
  | .definition, .pair _ (.symbol target) (.pair _ value _) => do
    let v ← eval call env (some target) value
    Action.define env target v
    return .acknowledgement
  | .definition, .pair _ (.pair _ (.symbol target) signature) body => do
    let v ← close env (some target) signature body
    Action.define env target v
    return .acknowledgement
  | .conditional, .pair _ test (.pair _ consequent (.pair _ alternative _)) => do
    let v ← eval call env none test
    if v.isFalse then eval call env none alternative else eval call env none consequent
  | .conditional, .pair _ test (.pair _ consequent _) => do
    let v ← eval call env none test
    if v.isFalse then return .boolean false else eval call env none consequent
  | .lambda, .pair _ signature body => close env name signature body
  | .sequence, .pair _ form .nil => eval call env name form
  | .sequence, body => evalBody call env .nil body
  | _, _ => pure .nil

/-- Evaluates the forms of a list one after the other; the value is that of the last one, or
`last`. -/
def evalBody (call : Caller) (env : Handle) (last : Datum) : Datum → Action Datum
  | .pair _ form rest => do
    let v ← eval call env none form
    evalBody call env v rest
  | _ => pure last

/-- The values of the heads of a list after those in `values`, the last one first. -/
def evalEach (call : Caller) (env : Handle) (values : List Datum) : Datum → Action (List Datum)
  | .pair _ head tail => do
    let v ← eval call env none head
    evalEach call env (v :: values) tail
  | _ => pure values.reverse

end

section Syntax

variable {call : Caller} {env : Handle} {name : Option String} {mark : Option Nat}
  {head tail : Datum}

theorem eval_form {special : SpecialForm} (h : SpecialForm.ofHead? head = some special) :
    eval call env name (.pair mark head tail) = evalForm call env name special tail := by
  rw [eval, h]

theorem eval_application (h : SpecialForm.ofHead? head = none) :
    eval call env name (.pair mark head tail) = (do
      let procedure ← eval call env none head
      let arguments ← evalEach call env [] tail
      call procedure arguments) := by
  rw [eval, h]

/-- Without an alternative the value is false. -/
theorem evalForm_conditional (m m' : Option Nat) (test consequent : Datum) :
    evalForm call env name .conditional (.pair m test (.pair m' consequent .nil)) = (do
      let v ← eval call env none test
      if v.isFalse then return .boolean false else eval call env none consequent) := by
  rw [evalForm]
  simp

/-- Two forms or more are evaluated as a body. -/
theorem evalForm_sequence (m m' : Option Nat) (first second rest : Datum) :
    evalForm call env name .sequence (.pair m first (.pair m' second rest)) =
      evalBody call env .nil (.pair m first (.pair m' second rest)) := by
  rw [evalForm]
  simp

end Syntax

/-- Evaluates a datum in a frame if all of it is well formed. -/
def evalIn (call : Caller) : Evaluator := fun env d =>
  match d.check with
  | .ok _ => Action.evaluating (eval call env none d)
  | .error e => Action.fail (.form e)

/-- Calls a procedure, with at most `depth` calls inside each other. -/
def call : Nat → Caller
  | 0, _, _ => throw .exhausted
  | depth + 1, procedure, arguments =>
    match procedure with
    | .primitive p => p.invoke (call depth) (evalIn (call depth)) arguments
    | .closure _ l frame =>
      match Parameters.ofDatum (signature l) with
      | .ok parameters => do
        let env ← Action.extend frame parameters arguments
        evalBody (call depth) env .nil (forms l)
      | .error e => Action.fail (.form e)
    | d => Action.fail (.notApplicable d)

/-- The same datum, with code in closures on the left and forms on the right. -/
inductive Corresponds : Datum → Datum → Prop
  | number (n : Numeric.Number) : Corresponds (.number n) (.number n)
  | string (s : String) : Corresponds (.string s) (.string s)
  | boolean (b : Bool) : Corresponds (.boolean b) (.boolean b)
  | symbol (name : String) : Corresponds (.symbol name) (.symbol name)
  | nil : Corresponds .nil .nil
  | primitive (p : Primitive) : Corresponds (.primitive p) (.primitive p)
  | pair {mark head tail head' tail'} : Corresponds head head' → Corresponds tail tail' →
      Corresponds (.pair mark head tail) (.pair mark head' tail')
  | quoted {d d'} : Corresponds d d' → Corresponds (.quoted d) (.quoted d')
  | closure {mark name parameters body signature forms units frame} :
      body.isList = true → Code.ofChain [] body = .ok units → Corresponds body forms →
      Parameters.ofDatum signature = .ok parameters →
      Corresponds (.closure mark (.mk name parameters (.ofUnits units)) frame)
        (.closure mark (procedure name parameters signature forms) frame)

end FrameLisp.Direct
