import FrameLisp.Datum.Arity

/-!
# Primitive procedures

Every session binds the built-in primitives. The host primitives observe or drive the collection
of frames; a session has them only where they were installed.
-/
namespace FrameLisp

inductive HostPrimitive where
  | tryCollect
  | collectIfNeeded
  | frameCount
  | allocatedCount
  | isEvaluating
  deriving DecidableEq

inductive Primitive where
  | eval | apply | load
  | car | cdr | cons | list | isPair | isNull | isEqual | not
  | add | sub | mul | div
  | equal | less | greater | lessOrEqual | greaterOrEqual
  | host (p : HostPrimitive)
  deriving DecidableEq

namespace Primitive

def builtin : List Primitive :=
  [.eval, .apply, .load, .car, .cdr, .cons, .list, .isPair, .isNull, .isEqual, .not,
    .add, .sub, .mul, .div, .equal, .less, .greater, .lessOrEqual, .greaterOrEqual]

def hosts : List Primitive :=
  [.host .tryCollect, .host .collectIfNeeded, .host .frameCount, .host .allocatedCount,
    .host .isEvaluating]

def name : Primitive → String
  | .eval => "eval"
  | .apply => "apply"
  | .load => "load"
  | .car => "car"
  | .cdr => "cdr"
  | .cons => "cons"
  | .list => "list"
  | .isPair => "pair?"
  | .isNull => "null?"
  | .isEqual => "equal?"
  | .not => "not"
  | .add => "+"
  | .sub => "-"
  | .mul => "*"
  | .div => "/"
  | .equal => "="
  | .less => "<"
  | .greater => ">"
  | .lessOrEqual => "<="
  | .greaterOrEqual => ">="
  | .host .tryCollect => "try-collect"
  | .host .collectIfNeeded => "collect-if-needed"
  | .host .frameCount => "frame-count"
  | .host .allocatedCount => "allocated-count"
  | .host .isEvaluating => "evaluating?"

def arity : Primitive → Arity
  | .eval | .load | .car | .cdr | .isPair | .isNull | .not => .exactly 1
  | .cons | .isEqual => .exactly 2
  | .apply => .atLeast 2
  | .list | .add | .mul => .atLeast 0
  | .sub | .div | .equal | .less | .greater | .lessOrEqual | .greaterOrEqual => .atLeast 1
  | .host .tryCollect | .host .collectIfNeeded => .atLeast 0
  | .host .frameCount | .host .allocatedCount | .host .isEvaluating => .exactly 0

def ofName? (name : String) : Option Primitive :=
  (builtin ++ hosts).find? fun p => p.name == name

theorem ofName?_name (p : Primitive) : ofName? p.name = some p := by
  cases p <;> first | rfl | (rename_i h; cases h <;> rfl)

theorem name_injective {p q : Primitive} (h : p.name = q.name) : p = q := by
  have := ofName?_name p
  rw [h, ofName?_name] at this
  exact (Option.some.inj this).symm

end Primitive

end FrameLisp
