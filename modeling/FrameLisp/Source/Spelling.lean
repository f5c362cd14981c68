import FrameLisp.Source.Atom

/-!
# How numbers and names are spelled

The spellings of integers, fractions and decimal numbers as patterns, and the names that are left
for symbols. With `D` for a digit followed by digits and underscores, and `d` for digits:

    integer  = [+-]? D
    fraction = [+-]? D / D
    decimal  = [+-]? ( d+ ( . d* )? | . d+ ) ( [eE] [+-]? d+ )?
-/
namespace FrameLisp.Source

open Numeric

/-- A digit followed by digits and underscores. -/
def IsNumeral : List Char → Prop
  | [] => False
  | c :: cs => isDigit c = true ∧ ∀ x ∈ cs, isDigit x = true ∨ x = '_'

/-- What the pattern allows, or that behind one sign. -/
def Signed (pattern : List Char → Prop) (cs : List Char) : Prop :=
  pattern cs ∨ ∃ rest, (cs = '+' :: rest ∨ cs = '-' :: rest) ∧ pattern rest

def IsInteger (cs : List Char) : Prop := Signed IsNumeral cs

def IsFraction (cs : List Char) : Prop :=
  ∃ numerator denominator, cs = numerator ++ '/' :: denominator ∧
    IsInteger numerator ∧ IsNumeral denominator

/-- Nothing but digits, at least `count` of them. -/
def AreDigits (count : Nat) (cs : List Char) : Prop :=
  count ≤ cs.length ∧ ∀ c ∈ cs, isDigit c = true

/-- Digits with at most one point, and at least one digit. -/
def IsMantissa (cs : List Char) : Prop :=
  AreDigits 1 cs ∨ ∃ whole fraction, cs = whole ++ '.' :: fraction ∧
    AreDigits 0 whole ∧ AreDigits 0 fraction ∧ 1 ≤ whole.length + fraction.length

def IsExponent (cs : List Char) : Prop :=
  cs = [] ∨ ∃ rest, (cs = 'e' :: rest ∨ cs = 'E' :: rest) ∧ Signed (AreDigits 1) rest

def IsDecimal : List Char → Prop := Signed fun cs =>
  ∃ mantissa exponent, cs = mantissa ++ exponent ∧ IsMantissa mantissa ∧ IsExponent exponent

/-- The integer that a text spells. -/
def integerValue : List Char → Int
  | '-' :: cs => -(digitsValue cs : Int)
  | cs => (digitsValue cs : Int)

/-- A text that is read as the symbol of that name. -/
structure IsName (cs : List Char) : Prop where
  ne_nil : cs ≠ []
  undelimited : ∀ c ∈ cs, isDelimiter c = false
  not_dot : cs ≠ ['.']
  not_hash : cs.head? ≠ some '#'
  not_integer : ¬IsInteger cs
  not_fraction : ¬IsFraction cs
  not_decimal : ¬IsDecimal cs

end FrameLisp.Source
