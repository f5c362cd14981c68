import FrameLisp.Eval.Action
import FrameLisp.Proofs.Code.Language
import FrameLisp.Proofs.Store.Evolution

/-!
# Parameters and arguments

A call makes one frame. The required parameters take the arguments one after the other, and a rest
parameter takes the list of those that are left. If the frame that it is to be made below is gone,
or the number of arguments does not fit, nothing happens at all, and the error tells which.
-/
namespace FrameLisp

open Store

namespace Store

namespace Bindings

variable {b : Bindings} {name : String} {value : Datum}

end Bindings

/-- Whether the bindings are those that the parameters get from the arguments. -/
structure Bindings.Matches (b : Bindings) (p : Parameters) (arguments : List Datum) : Prop where
  /-- A required name is bound to the argument in its place. -/
  required : ∀ (i : Nat) name, p.required[i]? = some name →
    ∃ argument : Datum, arguments[i]? = some argument ∧ b.find? name = some argument
  /-- The rest name is bound to the list of the arguments behind those. -/
  rest : ∀ name, p.rest = some name →
    ∃ surplus, b.find? name = some surplus ∧
      surplus.toList? = some (arguments.drop p.required.length)
  /-- No other name is bound. -/
  names : ∀ name, b.find? name ≠ none ↔ name ∈ p.names
  once : (b.map Prod.fst).Nodup

namespace Environments

variable {s t : Environments} {parent h : Handle} {p : Parameters} {arguments : List Datum}
  {count : Nat}

/-- What a new frame for a call does to environments. -/
structure Extends (s t : Environments) (parent h : Handle) (p : Parameters)
    (arguments : List Datum) : Prop where
  /-- The handle of the frame was not live. -/
  fresh : s.frames.get? h = none
  frame : ∃ bindings : Bindings, t.frames.get? h = some ⟨bindings, some parent⟩ ∧
    bindings.Matches p arguments
  /-- Every other handle leads to the same frame, or to none, as before. -/
  others : ∀ k, k ≠ h → t.frames.get? k = s.frames.get? k
  root : t.root = s.root
  size : t.size = s.size + 1
  allocated : t.allocated = s.allocated + 1

end Environments

end Store

namespace Parameters

variable {p : Parameters} {count : Nat}

end Parameters

/-- What a call of a procedure with these parameters comes to when its frame is made. -/
structure Session.Extends (s : Session) (parent : Handle) (p : Parameters)
    (arguments : List Datum) (outcome : Except Halt Handle × Session) : Prop where
  succeeds : (∃ h t, outcome = (.ok h, t)) ↔
    s.environments.frames.contains parent = true ∧ p.arity.accepts arguments.length = true
  extended : ∀ h t, outcome = (.ok h, t) →
    s.environments.Extends t.environments parent h p arguments ∧
      t = { s with environments := t.environments, marks := t.marks }
  unchanged : ∀ halt t, outcome = (.error halt, t) → t = s
  reclaimed : outcome.1 = .error (.failed .reclaimed) ↔
    s.environments.frames.contains parent = false
  tooMany : outcome.1 = .error (.failed (.arity (.tooMany p.arity arguments.length))) ↔
    s.environments.frames.contains parent = true ∧ p.rest = none ∧
      p.required.length < arguments.length
  tooFew : outcome.1 = .error (.failed (.arity (.tooFew p.arity arguments.length))) ↔
    s.environments.frames.contains parent = true ∧ arguments.length < p.required.length

namespace Action

variable {s : Session} {parent : Handle} {p : Parameters} {arguments : List Datum}

end Action

end FrameLisp
