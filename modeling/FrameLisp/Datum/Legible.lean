import FrameLisp.Datum.Basic
import FrameLisp.Source.Spelling

/-!
# Legible data

The data that programs are made of and that they make. Their symbols have names that are read as
symbols, and nothing in them is under a quote that the reader would have written as a list. The same
goes for the constants in the code of procedures, which a call may bring to light.
-/
namespace FrameLisp

mutual

inductive Datum.Legible : Datum → Prop
  | number (n : Numeric.Number) : Datum.Legible (.number n)
  | string (s : String) : Datum.Legible (.string s)
  | boolean (b : Bool) : Datum.Legible (.boolean b)
  | symbol {name : String} : Source.IsName name.toList → Datum.Legible (.symbol name)
  | pair {mark head tail} : head.Legible → tail.Legible → Datum.Legible (.pair mark head tail)
  | nil : Datum.Legible .nil
  | closure {mark l frame} : l.Legible → Datum.Legible (.closure mark l frame)
  | primitive (p : Primitive) : Datum.Legible (.primitive p)

inductive Lambda.Legible : Lambda → Prop
  | mk {name parameters body} : body.Legible → Lambda.Legible (.mk name parameters body)

inductive Code.Legible : Code → Prop
  | constant {d} : d.Legible → Code.Legible (.constant d)
  | variable (name : String) : Code.Legible (.variable name)
  | assignment {name value} : value.Legible → Code.Legible (.assignment name value)
  | definition {name value} : value.Legible → Code.Legible (.definition name value)
  | conditional {test consequent alternative} : test.Legible → consequent.Legible →
      alternative.Legible → Code.Legible (.conditional test consequent alternative)
  | lambda {l} : l.Legible → Code.Legible (.lambda l)
  | sequence {units} : (∀ unit ∈ units, unit.Legible) → Code.Legible (.sequence units)
  | application {operator operands} : operator.Legible → (∀ unit ∈ operands, unit.Legible) →
      Code.Legible (.application operator operands)

end

end FrameLisp
