import FrameLisp.Eval.Error

/-!
# Arithmetic on argument lists

All arguments have to be numbers, and the first that is not one is reported, whatever else is
wrong. Sums and products start from the exact zero and one; differences and quotients take the
first argument on their left.
-/
namespace FrameLisp.Arithmetic

open Numeric

/-- The numbers of an argument list after those in `read`, the last one first. -/
def numbersFrom (p : Primitive) (read : List Number) : List Datum → Except EvalError (List Number)
  | [] => .ok read.reverse
  | d :: ds =>
    match d.asNumber? with
    | some n => numbersFrom p (n :: read) ds
    | none => .error (.wrongType p .number d)

def numbers (p : Primitive) (arguments : List Datum) : Except EvalError (List Number) :=
  numbersFrom p [] arguments

def sum (ns : List Number) : Number := ns.foldl Number.add (.ofInt 0)

def product (ns : List Number) : Number := ns.foldl Number.mul (.ofInt 1)

/-- One number is negated; from the first of several all others are taken away. -/
def difference : List Number → Number
  | [] => .ofInt 0
  | [n] => n.neg
  | n :: ns => ns.foldl Number.sub n

/-- Divides from left to right, unless an exact zero divides an exact number. -/
def quotientFrom (n : Number) : List Number → Option Number
  | [] => some n
  | d :: ds =>
    match n.div? d with
    | some q => quotientFrom q ds
    | none => none

/-- The reciprocal of one number, or the first of several divided by all others. -/
def quotient? : List Number → Option Number
  | [] => some (.ofInt 1)
  | [n] => (Number.ofInt 1).div? n
  | n :: ns => quotientFrom n ns

/-- Whether each number stands in the relation to the next one. -/
def chain (holds : Ordering → Bool) : List Number → Bool
  | a :: b :: ns => ((a.compare? b).any holds) && chain holds (b :: ns)
  | _ => true

/-- The relation of a comparing primitive. -/
def relation? : Primitive → Option (Ordering → Bool)
  | .equal => some Ordering.isEq
  | .less => some Ordering.isLT
  | .greater => some Ordering.isGT
  | .lessOrEqual => some Ordering.isLE
  | .greaterOrEqual => some Ordering.isGE
  | _ => none

/-- Applies an operation to numbers. -/
def onNumbers (p : Primitive) (arguments : List Datum) (f : List Number → Datum) :
    Except EvalError Datum :=
  match numbers p arguments with
  | .ok ns => .ok (f ns)
  | .error e => .error e

def add (arguments : List Datum) : Except EvalError Datum :=
  onNumbers .add arguments fun ns => .number (sum ns)

def mul (arguments : List Datum) : Except EvalError Datum :=
  onNumbers .mul arguments fun ns => .number (product ns)

def sub (arguments : List Datum) : Except EvalError Datum :=
  onNumbers .sub arguments fun ns => .number (difference ns)

def div (arguments : List Datum) : Except EvalError Datum :=
  match numbers .div arguments with
  | .error e => .error e
  | .ok ns =>
    match quotient? ns with
    | some n => .ok (.number n)
    | none => .error .divisionByZero

def compare (p : Primitive) (holds : Ordering → Bool) (arguments : List Datum) :
    Except EvalError Datum :=
  onNumbers p arguments fun ns => .boolean (chain holds ns)

end FrameLisp.Arithmetic
