import FrameLisp.Code.Form
import FrameLisp.Source.Fault

/-!
# Why an evaluation fails
-/
namespace FrameLisp

open Source

/-- Why a file cannot be read. -/
inductive FileFault where
  | notFound
  | isDirectory
  | notDirectory
  /-- The path is none, since it holds the character that ends one. -/
  | invalidPath
  /-- A name or the path is too long. -/
  | invalidName
  | invalidData
  | unexpectedEnd
  deriving DecidableEq

def FileFault.message : FileFault → String
  | .notFound => "entity not found"
  | .isDirectory => "is a directory"
  | .notDirectory => "not a directory"
  | .invalidPath => "invalid input parameter"
  | .invalidName => "invalid filename"
  | .invalidData => "invalid data"
  | .unexpectedEnd => "unexpected end of file"

/-- What a primitive wants an argument to be. -/
inductive Expectation where
  | number | pair | list | string
  deriving DecidableEq

def Expectation.text : Expectation → String
  | .number => "a number"
  | .pair => "a pair"
  | .list => "a list"
  | .string => "a string"

inductive EvalError where
  | unbound (name : String)
  | wrongType (procedure : Primitive) (expected : Expectation) (got : Datum)
  | notApplicable (got : Datum)
  | arity (error : ArityError)
  | form (error : FormError)
  | divisionByZero
  /-- A handle outlived its frame. -/
  | reclaimed
  /-- A loaded file cannot be read as data; `source` is the part of it that was being read. -/
  | unreadable (path source : String) (error : SyntaxError)
  | file (path : String) (fault : FileFault)

/-- A coarse sorting of failures. -/
inductive ErrorKind where
  | syntaxError
  | unboundVariable
  | type
  | arity
  | unknownForm
  | divisionByZero
  | io
  | reclaimedEnvironment
  deriving DecidableEq

namespace EvalError

def message : EvalError → String
  | .unbound name => "Unbound variable: " ++ name
  | .wrongType procedure expected got =>
    s!"The object {got.text}, passed as an argument to `{procedure.name}`, is not {expected.text}"
  | .notApplicable got => s!"The object {got.text} is not applicable"
  | .arity error => error.message
  | .form error => error.message
  | .divisionByZero => "Division by zero"
  | .reclaimed => "Environment frame was already reclaimed"
  | .unreadable path _ error => s!"Syntax error in `{path}`: {error.details.message}"
  | .file path fault => s!"Could not read `{path}`: {fault.message}"

def kind : EvalError → ErrorKind
  | .unbound _ => .unboundVariable
  | .wrongType .. | .notApplicable _ => .type
  | .arity _ => .arity
  | .form _ => .unknownForm
  | .divisionByZero => .divisionByZero
  | .reclaimed => .reclaimedEnvironment
  | .unreadable .. => .syntaxError
  | .file .. => .io

end EvalError

end FrameLisp
