import FrameLisp.Eval.Error

/-!
# What a session reports

The failures of whole texts and files: a text that cannot be read, a form that is not a program,
an evaluation that fails, or a file that cannot be opened or decoded.
-/
namespace FrameLisp

open Source

inductive Failure where
  | unreadable (path source : String) (error : SyntaxError)
  | form (error : FormError)
  | eval (error : EvalError)
  | file (fault : FileFault)

namespace Failure

/-- Errors of reading and of form are reported as such, also from within an evaluation. -/
def ofEval : EvalError → Failure
  | .unreadable path source error => .unreadable path source error
  | .form error => .form error
  | error => .eval error

def kind : Failure → ErrorKind
  | .unreadable .. => .syntaxError
  | .form _ => .unknownForm
  | .eval error => error.kind
  | .file _ => .io

def message : Failure → String
  | .unreadable .. => "failed to parse source code"
  | .form error => error.message
  | .eval error => error.message
  | .file _ => "IO operation failed"

end Failure

end FrameLisp
