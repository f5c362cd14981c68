import FrameLisp.Code.Parameters

/-!
# From data to code

Resolves the special forms of a datum once, so that running the code need not look at syntax. A
datum is refused at the first place where it is not a well-formed program, operators before
operands and from left to right.
-/
namespace FrameLisp

namespace FormError

/-- The fault of a special form, or that its operands `tail` are not a list at all. -/
def ofOperands (form : SpecialForm) (fault : FormFault) (d tail : Datum) : FormError :=
  .malformed (some form) (if tail.isList then fault else .operandsNotList) d

end FormError

namespace Code

/-- A body of one unit is that unit. -/
def ofUnits : List Code → Code
  | [unit] => unit
  | units => .sequence units

/-- The value of a definition: a procedure takes the defined name unless it has one. -/
def named (name : String) : Code → Code
  | .lambda l => .lambda (l.named name)
  | unit => unit

mutual

def ofDatum : Datum → Except FormError Code
  | .symbol name => .ok (.variable name)
  | .quoted d => .ok (.constant d)
  | .nil => .error (.unknownForm .nil)
  | .pair mark head tail =>
    let form : Datum := .pair mark head tail
    match SpecialForm.ofHead? head with
    | some .quote =>
      match tail with
      | .pair _ d .nil => .ok (.constant d)
      | tail => .error (.ofOperands .quote .oneOperand form tail)
    | some .assignment =>
      match tail with
      | .pair _ (.symbol name) (.pair _ value .nil) => do
        let value ← ofDatum value
        return .assignment name value
      | .pair _ _ (.pair _ _ .nil) => .error (.malformed (some .assignment) .assignedSymbol form)
      | tail => .error (.ofOperands .assignment .twoOperands form tail)
    | some .definition =>
      match tail with
      | .pair _ (.symbol name) (.pair _ value .nil) => do
        let value ← ofDatum value
        return .definition name (value.named name)
      | .pair _ (.symbol _) operands =>
        .error (.ofOperands .definition .oneValue form operands)
      | .pair _ (.pair _ name signature) body =>
        match name, body with
        | .symbol name, .pair _ first rest =>
          if rest.isList then do
            let parameters ← Parameters.ofDatum signature
            let first ← ofDatum first
            let units ← ofChain [first] rest
            return .definition name (.lambda (.mk (some name) parameters (ofUnits units)))
          else .error (.malformed (some .definition) .operandsNotList form)
        | .symbol _, body => .error (.ofOperands .definition .emptyBody form body)
        | _, body => .error (.ofOperands .definition .procedureName form body)
      | .pair _ _ operands => .error (.ofOperands .definition .nameOrSignature form operands)
      | tail => .error (.ofOperands .definition .nameAndValue form tail)
    | some .conditional =>
      match tail with
      | .pair _ test (.pair _ consequent .nil) => do
        let test ← ofDatum test
        let consequent ← ofDatum consequent
        return .conditional test consequent (.constant (.boolean false))
      | .pair _ test (.pair _ consequent (.pair _ alternative .nil)) => do
        let test ← ofDatum test
        let consequent ← ofDatum consequent
        let alternative ← ofDatum alternative
        return .conditional test consequent alternative
      | tail => .error (.ofOperands .conditional .twoOrThreeOperands form tail)
    | some .lambda =>
      match tail with
      | .pair _ parameters (.pair _ first rest) =>
        if rest.isList then do
          let parameters ← Parameters.ofDatum parameters
          let first ← ofDatum first
          let units ← ofChain [first] rest
          return .lambda (.mk none parameters (ofUnits units))
        else .error (.malformed (some .lambda) .operandsNotList form)
      | tail => .error (.ofOperands .lambda .parametersAndBody form tail)
    | some .sequence =>
      match tail with
      | .pair _ first rest =>
        if rest.isList then do
          let first ← ofDatum first
          let units ← ofChain [first] rest
          return ofUnits units
        else .error (.malformed (some .sequence) .operandsNotList form)
      | tail => .error (.ofOperands .sequence .oneExpression form tail)
    | none => do
      let operator ← ofDatum head
      if tail.isList then
        let operands ← ofChain [] tail
        return .application operator operands
      else throw (.malformed none .argumentsNotList form)
  | d => .ok (.constant d)

/-- The units of the heads of a chain after those in `read`, the last one first. -/
def ofChain (read : List Code) : Datum → Except FormError (List Code)
  | .pair _ head tail =>
    match ofDatum head with
    | .error e => .error e
    | .ok unit => ofChain (unit :: read) tail
  | _ => .ok read.reverse

end

/-- What no special form begins is an application. -/
theorem ofDatum_application {mark : Option Nat} {head tail : Datum}
    (h : SpecialForm.ofHead? head = none) :
    ofDatum (.pair mark head tail) = (do
      let operator ← ofDatum head
      if tail.isList then
        let operands ← ofChain [] tail
        return .application operator operands
      else throw (.malformed none .argumentsNotList (.pair mark head tail))) := by
  rw [ofDatum.eq_def]
  dsimp only
  rw [h]

end Code

end FrameLisp
