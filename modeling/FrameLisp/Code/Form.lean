import FrameLisp.Datum.Chain
import FrameLisp.Datum.Text

/-!
# Special forms and what is wrong with them
-/
namespace FrameLisp

/-- A pair whose head is one of these words is only ever that form. -/
inductive SpecialForm where
  | quote | assignment | definition | conditional | lambda | sequence
  deriving DecidableEq

namespace SpecialForm

def word : SpecialForm → String
  | .quote => "quote"
  | .assignment => "set!"
  | .definition => "define"
  | .conditional => "if"
  | .lambda => "lambda"
  | .sequence => "begin"

def all : List SpecialForm := [.quote, .assignment, .definition, .conditional, .lambda, .sequence]

/-- The form that a pair with this head is. -/
def ofHead? : Datum → Option SpecialForm
  | .symbol name => all.find? fun form => form.word == name
  | _ => none

theorem ofHead?_symbol_word (form : SpecialForm) : ofHead? (.symbol form.word) = some form := by
  cases form <;> rfl

end SpecialForm

/-- What a form lacks. -/
inductive FormFault where
  | operandsNotList
  | argumentsNotList
  | oneOperand
  | assignedSymbol
  | twoOperands
  | oneValue
  | procedureName
  | emptyBody
  | nameOrSignature
  | nameAndValue
  | twoOrThreeOperands
  | parametersAndBody
  | oneExpression
  deriving DecidableEq

def FormFault.message : FormFault → String
  | .operandsNotList => "operands must form a proper list"
  | .argumentsNotList => "arguments must form a proper list"
  | .oneOperand => "expected exactly 1 operand"
  | .assignedSymbol => "expected a symbol to assign"
  | .twoOperands => "expected exactly 2 operands"
  | .oneValue => "expected exactly 1 value"
  | .procedureName => "expected a symbol as the procedure name"
  | .emptyBody => "procedure body is empty"
  | .nameOrSignature => "expected a symbol or a signature"
  | .nameAndValue => "expected a name and a value"
  | .twoOrThreeOperands => "expected 2 or 3 operands"
  | .parametersAndBody => "expected parameters and a non-empty body"
  | .oneExpression => "expected at least 1 expression"

/-- Why a datum is not a program. -/
inductive FormError where
  | unknownForm (d : Datum)
  /-- A special form, or an application where no form is named, with a fault. -/
  | malformed (form : Option SpecialForm) (fault : FormFault) (d : Datum)
  | invalidParameter (got : Datum)
  | duplicateParameter (name : String)

namespace FormError

def message : FormError → String
  | .unknownForm d => "Unknown expression type: " ++ d.text
  | .malformed form fault d =>
    let word := (form.map SpecialForm.word).getD "application"
    s!"Ill-formed special form `{word}`: {fault.message}, in {d.text}"
  | .invalidParameter got => s!"Invalid parameter `{got.text}`"
  | .duplicateParameter name => s!"Duplicate parameter `{name}`"

def title : FormError → String
  | .unknownForm _ => "Unknown expression type"
  | .malformed .. => "Ill-formed special form"
  | .invalidParameter _ | .duplicateParameter _ => "Invalid parameter list"

end FormError

end FrameLisp
