import FrameLisp.Session.State

/-!
# Evaluation as an action on a session

An action ends with a value, with an error, or because its depth was used up; in each case it
leaves a session, and what was done before an error stays done.
-/
namespace FrameLisp

open Store

/-- Why an action ends without a value. -/
inductive Halt where
  | failed (e : EvalError)
  /-- The bound on the depth of calls was reached. -/
  | exhausted

abbrev Action := ExceptT Halt (StateM Session)

namespace Action

/-- The value and the session that an action ends with. -/
def runFrom {α : Type} (s : Session) (a : Action α) : Except Halt α × Session := a.run s

def fail {α : Type} (e : EvalError) : Action α := throw (.failed e)

def ofExcept {α : Type} : Except EvalError α → Action α
  | .ok a => pure a
  | .error e => fail e

/-- Acts on the environments of the session. -/
def onEnvironments {α : Type} (f : Environments → Except EvalError α × Environments) : Action α :=
  fun s =>
    let ⟨environments, threshold, depth, marks, files⟩ := s
    match f environments with
    | (.ok a, environments) => (.ok a, ⟨environments, threshold, depth, marks, files⟩)
    | (.error e, environments) =>
      (.error (.failed e), ⟨environments, threshold, depth, marks, files⟩)

def lookup (env : Handle) (name : String) : Action Datum := fun s =>
  match s.environments.lookup env name with
  | .ok d => (.ok d, s)
  | .error e => (.error (.failed e), s)

def define (env : Handle) (name : String) (value : Datum) : Action Unit :=
  onEnvironments fun s => s.define env name value

def assign (env : Handle) (name : String) (value : Datum) : Action Unit :=
  onEnvironments fun s => s.assign env name value

/-- An unused mark. -/
def freshMark : Action Nat := fun s => (.ok s.marks, { s with marks := s.marks + 1 })

/-- A new pair. -/
def cons (head tail : Datum) : Action Datum := do
  let mark ← freshMark
  return .pair (some mark) head tail

/-- A list of new pairs. -/
def list (items : List Datum) : Action Datum := fun s =>
  let (d, marks) := Datum.markedList s.marks items
  (.ok d, { s with marks })

/-- A new frame below `parent` for a call with these arguments. -/
def extend (parent : Handle) (p : Parameters) (arguments : List Datum) : Action Handle := fun s =>
  match s.environments.extendFault? parent p arguments.length with
  | some e => (.error (.failed e), s)
  | none =>
    let ⟨environments, threshold, depth, marks, files⟩ := s
    let (bindings, marks) := Environments.bind p arguments marks
    let (env, environments) := environments.extend parent bindings
    (.ok env, ⟨environments, threshold, depth, marks, files⟩)

/-- An action during which the session counts as evaluating. -/
def evaluating {α : Type} (a : Action α) : Action α := fun s =>
  let (result, s) := a.run { s with depth := s.depth + 1 }
  (result, { s with depth := s.depth - 1 })

section RunFrom

variable {α β : Type}

theorem runFrom_modifyGet (f : Session → α × Session) (s : Session) :
    (modifyGet f : Action α).runFrom s = (.ok (f s).1, (f s).2) := rfl

theorem runFrom_bind (a : Action α) (f : α → Action β) (s : Session) :
    (a >>= f).runFrom s =
      match a.runFrom s with
      | (.ok x, s) => (f x).runFrom s
      | (.error e, s) => (.error e, s) := by
  change (ExceptT.bindCont f (a.run s).1).run (a.run s).2 = _
  rw [runFrom]
  obtain ⟨x | x, s⟩ := a.run s <;> rfl

theorem runFrom_get_bind (f : Session → Action α) (s : Session) :
    (get >>= f).runFrom s = (f s).runFrom s := rfl

theorem runFrom_evaluating (a : Action α) (s : Session) :
    (evaluating a).runFrom s =
      match a.runFrom { s with depth := s.depth + 1 } with
      | (result, s) => (result, { s with depth := s.depth - 1 }) := rfl

end RunFrom

end Action

end FrameLisp
