import FrameLisp.Datum.Basic
import FrameLisp.Text.Quoted

/-!
# What is known of a procedure

A procedure can be described without being called: its arity, its name and the frame it was made
in. The description of a closure leaves out its body.
-/
namespace FrameLisp

open Store

def Arity.description : Arity → String
  | .exactly n => s!"Exactly({n})"
  | .atLeast n => s!"AtLeast({n})"

def describeSymbol (name : String) : String := "Symbol(" ++ Text.describe name ++ ")"

def describeOption : Option String → String
  | some text => "Some(" ++ text ++ ")"
  | none => "None"

def Parameters.description (p : Parameters) : String :=
  "Parameters \x7b required: [" ++ ", ".intercalate (p.required.map describeSymbol)
    ++ "], rest: " ++ describeOption (p.rest.map describeSymbol) ++ " \x7d"

/-- The description of a procedure; a primitive has no frame. -/
structure Profile where
  arity : Arity
  name : Option String
  frame : Option Handle
  description : String

def Primitive.profile (p : Primitive) : Profile where
  arity := p.arity
  name := some p.name
  frame := none
  description := "Primitive \x7b name: " ++ Text.describe p.name ++ ", arity: "
    ++ p.arity.description ++ " \x7d"

def Lambda.profile (l : Lambda) (frame : Handle) : Profile where
  arity := l.parameters.arity
  name := l.name
  frame := some frame
  description := "Closure \x7b name: " ++ describeOption (l.name.map describeSymbol)
    ++ ", parameters: " ++ l.parameters.description ++ ", env: " ++ frame.text ++ " \x7d"

/-- The profile of a datum that is a procedure. -/
def Datum.profile? : Datum → Option Profile
  | .closure _ l frame => some (l.profile frame)
  | .primitive p => some p.profile
  | _ => none

end FrameLisp
