import FrameLisp.Code.Parameters

/-!
# Checking without analysing

Says whether a datum is a program, and what is wrong with it first if it is none. The operands of a
form have to be a list, their number and their kinds have to fit the form, and those of them that
are evaluated have to be programs, from left to right.
-/
namespace FrameLisp

/-- What is wrong with the number or the kinds of the operands of a form. -/
def SpecialForm.operandFault? : SpecialForm → List Datum → Option FormFault
  | .quote, [_] => none
  | .quote, _ => some .oneOperand
  | .assignment, [.symbol _, _] => none
  | .assignment, [_, _] => some .assignedSymbol
  | .assignment, _ => some .twoOperands
  | .definition, [.symbol _, _] => none
  | .definition, .symbol _ :: _ => some .oneValue
  | .definition, .pair _ (.symbol _) _ :: _ :: _ => none
  | .definition, [.pair _ (.symbol _) _] => some .emptyBody
  | .definition, .pair .. :: _ => some .procedureName
  | .definition, _ :: _ => some .nameOrSignature
  | .definition, [] => some .nameAndValue
  | .conditional, [_, _] => none
  | .conditional, [_, _, _] => none
  | .conditional, _ => some .twoOrThreeOperands
  | .lambda, _ :: _ :: _ => none
  | .lambda, _ => some .parametersAndBody
  | .sequence, _ :: _ => none
  | .sequence, [] => some .oneExpression

namespace Datum

mutual

def check : Datum → Except FormError Unit
  | .nil => .error (.unknownForm .nil)
  | .pair mark head tail =>
    let form : Datum := .pair mark head tail
    match SpecialForm.ofHead? head with
    | none => do
      check head
      if tail.isList then checkEach tail else throw (.malformed none .argumentsNotList form)
    | some special =>
      match tail.toList? with
      | none => .error (.malformed (some special) .operandsNotList form)
      | some operands =>
        match special.operandFault? operands with
        | some fault => .error (.malformed (some special) fault form)
        | none => checkOperands special tail
  | _ => .ok ()

/-- Checks those operands of a form that are evaluated, and parameters before them. -/
def checkOperands : SpecialForm → Datum → Except FormError Unit
  | .lambda, .pair _ signature body | .definition, .pair _ (.pair _ _ signature) body => do
    let _ ← Parameters.ofDatum signature
    checkEach body
  | .assignment, .pair _ _ value | .definition, .pair _ _ value => checkEach value
  | .conditional, .pair _ first rest | .sequence, .pair _ first rest => do
    check first
    checkEach rest
  | _, _ => .ok ()

/-- Checks the heads of a chain. -/
def checkEach : Datum → Except FormError Unit
  | .pair _ head tail => do
    check head
    checkEach tail
  | _ => .ok ()

end

end Datum

end FrameLisp
