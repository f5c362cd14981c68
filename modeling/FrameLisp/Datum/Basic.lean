import FrameLisp.Datum.Primitive
import FrameLisp.Numeric.Number
import FrameLisp.Store.Handle

/-!
# Data and code

One type of data serves as the syntax of programs and as the values that they compute. A
procedure is a datum too, so data and analysed code are defined together: code embeds data as
constants, and a closure holds the code of its body and the handle of the frame it was made in.

Pairs that a program makes, and closures, carry a mark that tells two of them apart: the pair with
a mark is one and the same wherever it occurs. A pair that was read from text has none; it holds
neither procedures nor numbers that differ from themselves, so its content decides.
-/
namespace FrameLisp

open Numeric Store

mutual

inductive Datum where
  | number (n : Number)
  | string (s : String)
  | boolean (b : Bool)
  | symbol (name : String)
  | pair (mark : Option Nat) (head tail : Datum)
  | nil
  /-- A datum under a quote that evaluation takes off. The reader writes a list instead. -/
  | quoted (d : Datum)
  | closure (mark : Nat) (lambda : Lambda) (frame : Handle)
  | primitive (p : Primitive)

/-- The code of a procedure, which is named when a definition made it. -/
inductive Lambda where
  | mk (name : Option String) (parameters : Parameters) (body : Code)

/-- A program whose special forms are resolved. -/
inductive Code where
  | constant (d : Datum)
  | variable (name : String)
  | assignment (name : String) (value : Code)
  | definition (name : String) (value : Code)
  | conditional (test consequent alternative : Code)
  | lambda (l : Lambda)
  | sequence (units : List Code)
  | application (operator : Code) (operands : List Code)

end

namespace Lambda

def name : Lambda → Option String
  | .mk name _ _ => name

def parameters : Lambda → Parameters
  | .mk _ parameters _ => parameters

def body : Lambda → Code
  | .mk _ _ body => body

/-- The same code under the given name, unless it has one. -/
def named : Lambda → String → Lambda
  | .mk none parameters body, name => .mk (some name) parameters body
  | l, _ => l

end Lambda

namespace Datum

/-- Induction on the parts of a datum; closures are taken as wholes. -/
@[elab_as_elim, induction_eliminator]
theorem inductionOnParts {motive : Datum → Prop} (number : ∀ n, motive (.number n))
    (string : ∀ s, motive (.string s)) (boolean : ∀ b, motive (.boolean b))
    (symbol : ∀ name, motive (.symbol name))
    (pair : ∀ mark head tail, motive head → motive tail → motive (.pair mark head tail))
    (nil : motive .nil) (quoted : ∀ d, motive d → motive (.quoted d))
    (closure : ∀ mark l frame, motive (.closure mark l frame))
    (primitive : ∀ p, motive (.primitive p)) : ∀ d, motive d
  | .number n => number n
  | .string s => string s
  | .boolean b => boolean b
  | .symbol name => symbol name
  | .pair mark head tail =>
    pair mark head tail
      (inductionOnParts number string boolean symbol pair nil quoted closure primitive head)
      (inductionOnParts number string boolean symbol pair nil quoted closure primitive tail)
  | .nil => nil
  | .quoted d =>
    quoted d (inductionOnParts number string boolean symbol pair nil quoted closure primitive d)
  | .closure mark l frame => closure mark l frame
  | .primitive p => primitive p

instance : Inhabited Datum := ⟨.nil⟩

/-- What `define` and `set!` return. -/
def acknowledgement : Datum := .symbol "ok"

def typeName : Datum → String
  | .number _ => "number"
  | .string _ => "string"
  | .boolean _ => "boolean"
  | .symbol _ => "symbol"
  | .pair .. => "pair"
  | .nil => "empty list"
  | .quoted _ => "quoted datum"
  | .closure .. => "procedure"
  | .primitive _ => "primitive procedure"

/-- Only the boolean false counts as false. -/
def isFalse : Datum → Bool
  | .boolean b => !b
  | _ => false

def isPair : Datum → Bool
  | .pair .. => true
  | _ => false

def isNull : Datum → Bool
  | .nil => true
  | _ => false

def asNumber? : Datum → Option Number
  | .number n => some n
  | _ => none

def asString? : Datum → Option String
  | .string s => some s
  | _ => none

def asSymbol? : Datum → Option String
  | .symbol name => some name
  | _ => none

end Datum

end FrameLisp
