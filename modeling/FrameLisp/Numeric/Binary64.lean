import FrameLisp.Numeric.Rounding

/-!
# Binary floating point with a 53 bit significand

A number is not a number, an infinity, or `± mantissa · 2 ^ exponent` in the one canonical form:
the mantissa is below `2 ^ 53`, and below `2 ^ 52` only at the least exponent. Arithmetic is exact
on the values, followed by one rounding to the nearest number, a tie going to the even mantissa.
-/
namespace FrameLisp.Numeric

/-- The power `base ^ e` as a quotient of natural numbers. -/
def power (base : Nat) (e : Int) : Nat × Nat := (Nat.pow base e.toNat, Nat.pow base (-e).toNat)

theorem power_pos {base : Nat} (h : 0 < base) (e : Int) :
    0 < (power base e).1 ∧ 0 < (power base e).2 := ⟨Nat.pow_pos h, Nat.pow_pos h⟩

namespace Binary64

/-- The least mantissa above the least exponent, `2 ^ 52`. -/
abbrev leastMantissa : Nat := 0x10000000000000

/-- The bound `2 ^ 53`, which no mantissa reaches. -/
abbrev mantissaBound : Nat := 0x20000000000000

/-- The canonical forms of finite numbers. -/
def Canonical (mantissa : Nat) (exponent : Int) : Prop :=
  mantissa < mantissaBound ∧ -1074 ≤ exponent ∧ exponent ≤ 971 ∧
    (mantissa < leastMantissa → exponent = -1074)

instance (mantissa : Nat) (exponent : Int) : Decidable (Canonical mantissa exponent) :=
  inferInstanceAs (Decidable (_ ∧ _))

structure Finite where
  negative : Bool
  mantissa : Nat
  exponent : Int
  canonical : Canonical mantissa exponent
  deriving DecidableEq

def Finite.magnitude (x : Finite) : Rat :=
  mkRat (x.mantissa * (power 2 x.exponent).1) (power 2 x.exponent).2

def Finite.value (x : Finite) : Rat := if x.negative then -x.magnitude else x.magnitude

end Binary64

inductive Binary64 where
  | nan
  | infinite (negative : Bool)
  | finite (x : Binary64.Finite)
  deriving DecidableEq

namespace Binary64

def zero (negative : Bool) : Binary64 := .finite ⟨negative, 0, -1074, by decide⟩

/-- The number with these parts; beyond the greatest exponent it is the infinity. -/
def pack (negative : Bool) (mantissa : Nat) (exponent : Int) : Binary64 :=
  if h : Canonical mantissa exponent then .finite ⟨negative, mantissa, exponent, h⟩
  else .infinite negative

/-- The `E` with `2 ^ E ≤ n / d < 2 ^ (E + 1)`, for positive `n` and `d`. -/
def binaryExponent (n d : Nat) : Int :=
  let e : Int := (n.log2 : Int) - d.log2
  if n * (power 2 e).2 < d * (power 2 e).1 then e - 1 else e

/-- The number nearest to `n / d`, with the given sign. -/
def round (negative : Bool) (n d : Nat) : Binary64 :=
  if n = 0 then zero negative
  else
    let s := max (binaryExponent n d - 52) (-1074)
    let m := roundHalfEven (n * (power 2 s).2) (d * (power 2 s).1)
    if m = mantissaBound then pack negative leastMantissa (s + 1) else pack negative m s

/-- The number nearest to a rational; zero is positive. -/
def ofRat (q : Rat) : Binary64 := round (q.num < 0) q.num.natAbs q.den

/-- The number nearest to `± digits · 10 ^ exponent`. Far outside the range of the format the
power of ten is not computed. -/
def ofDecimal (negative : Bool) (digits : Nat) (exponent : Int) : Binary64 :=
  if digits = 0 then zero negative
  else if 400 < exponent then .infinite negative
  else if exponent + digits.log2 + 1 < -400 then zero negative
  else round negative (digits * (power 10 exponent).1) (power 10 exponent).2

def toRat? : Binary64 → Option Rat
  | .finite x => some x.value
  | _ => none

def isZero : Binary64 → Bool
  | .finite x => x.mantissa = 0
  | _ => false

def neg : Binary64 → Binary64
  | .nan => .nan
  | .infinite s => .infinite !s
  | .finite x => .finite ⟨!x.negative, x.mantissa, x.exponent, x.canonical⟩

/-- A sum that is zero is negative only when both terms are. -/
def add : Binary64 → Binary64 → Binary64
  | .nan, _ | _, .nan => .nan
  | .infinite s, .infinite t => if s = t then .infinite s else .nan
  | .infinite s, .finite _ | .finite _, .infinite s => .infinite s
  | .finite x, .finite y =>
    let sum := x.value + y.value
    if sum = 0 then zero (x.negative && y.negative) else ofRat sum

def sub (x y : Binary64) : Binary64 := add x (neg y)

/-- The sign is kept also where the product is rounded to zero. -/
def mul : Binary64 → Binary64 → Binary64
  | .nan, _ | _, .nan => .nan
  | .infinite s, .infinite t => .infinite (s != t)
  | .infinite s, .finite x | .finite x, .infinite s =>
    if x.mantissa = 0 then .nan else .infinite (s != x.negative)
  | .finite x, .finite y =>
    let q := x.magnitude * y.magnitude
    round (x.negative != y.negative) q.num.natAbs q.den

def div : Binary64 → Binary64 → Binary64
  | .nan, _ | _, .nan => .nan
  | .infinite _, .infinite _ => .nan
  | .infinite s, .finite x => .infinite (s != x.negative)
  | .finite x, .infinite s => zero (s != x.negative)
  | .finite x, .finite y =>
    let sign := x.negative != y.negative
    if y.mantissa = 0 then if x.mantissa = 0 then .nan else .infinite sign
    else
      let q := x.magnitude / y.magnitude
      round sign q.num.natAbs q.den

/-- The order of two rationals. -/
def compareRat (a b : Rat) : Ordering :=
  if a < b then .lt else if a = b then .eq else .gt

/-- The order of the values; nothing compares with what is not a number. -/
def compare : Binary64 → Binary64 → Option Ordering
  | .nan, _ | _, .nan => none
  | .infinite s, .infinite t => some (if s = t then .eq else if s then .lt else .gt)
  | .infinite s, .finite _ => some (if s then .lt else .gt)
  | .finite _, .infinite s => some (if s then .gt else .lt)
  | .finite x, .finite y => some (compareRat x.value y.value)

end Binary64

end FrameLisp.Numeric
