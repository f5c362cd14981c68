import FrameLisp.Numeric.FloatText

/-!
# Numbers of the language

A number is an exact rational or an inexact floating point number. Arithmetic on exact numbers
stays exact; one inexact operand makes the result inexact. Comparison is by value across the two
kinds: a finite inexact number stands for the rational that it is.
-/
namespace FrameLisp.Numeric

inductive Number where
  | exact (q : Rat)
  | inexact (x : Binary64)
  deriving DecidableEq

namespace Number

def ofInt (n : Int) : Number := .exact n

/-- The quotient of two integers, unless the divisor is zero. -/
def ofRatio? (n d : Int) : Option Number :=
  if d = 0 then none else some (.exact ((n : Rat) / (d : Rat)))

def isExact : Number → Bool
  | .exact _ => true
  | .inexact _ => false

def isZero : Number → Bool
  | .exact q => q = 0
  | .inexact x => x.isZero

def isNaN : Number → Bool
  | .inexact .nan => true
  | _ => false

def toBinary64 : Number → Binary64
  | .exact q => .ofRat q
  | .inexact x => x

def neg : Number → Number
  | .exact q => .exact (-q)
  | .inexact x => .inexact x.neg

def add : Number → Number → Number
  | .exact a, .exact b => .exact (a + b)
  | a, b => .inexact (a.toBinary64.add b.toBinary64)

def sub : Number → Number → Number
  | .exact a, .exact b => .exact (a - b)
  | a, b => .inexact (a.toBinary64.sub b.toBinary64)

def mul : Number → Number → Number
  | .exact a, .exact b => .exact (a * b)
  | a, b => .inexact (a.toBinary64.mul b.toBinary64)

/-- Exact division by zero has no result; inexact division always has one. -/
def div? : Number → Number → Option Number
  | .exact a, .exact b => if b = 0 then none else some (.exact (a / b))
  | a, b => some (.inexact (a.toBinary64.div b.toBinary64))

/-- The order of an exact number and an inexact one, which is rounded only when the other is not
finite. -/
def compareMixed (a : Rat) (x : Binary64) : Option Ordering :=
  match x.toRat? with
  | some b => some (Binary64.compareRat a b)
  | none => (Binary64.ofRat a).compare x

def compare? : Number → Number → Option Ordering
  | .exact a, .exact b => some (Binary64.compareRat a b)
  | .exact a, .inexact y => compareMixed a y
  | .inexact x, .exact b => (compareMixed b x).map Ordering.swap
  | .inexact x, .inexact y => x.compare y

/-- Equality of values, so that nothing equals what is not a number. -/
def sameValue (a b : Number) : Bool := a.compare? b == some .eq

/-- An integer, or a fraction in lowest terms with a positive denominator. -/
def ratText (q : Rat) : String :=
  if q.den = 1 then toString q.num else toString q.num ++ "/" ++ toString q.den

def text : Number → String
  | .exact q => ratText q
  | .inexact x => x.text .value

end Number

end FrameLisp.Numeric
