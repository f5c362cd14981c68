import FrameLisp.Numeric.Binary64

/-!
# The shortest decimal of a finite number

The reals that round to a positive finite number form an interval, which holds its ends exactly
when the mantissa is even. `shortest` finds the coarsest grid of multiples of a power of ten that
has a point in the interval, and on it the point nearest to the number, the upper one of two
equally near ones.
-/
namespace FrameLisp.Numeric.Binary64.Finite

/-- Twice the interval's lower end, the number and the upper end, in units of half the exponent's
unit: below a power of two the gap to the next number is half as wide. -/
def interval (x : Finite) : Nat × Nat × Nat :=
  let below := if x.mantissa = leastMantissa ∧ -1074 < x.exponent then 1 else 2
  (4 * x.mantissa - below, 4 * x.mantissa, 4 * x.mantissa + 2)

/-- One unit of `interval`, `2 ^ (exponent - 2)`, as a quotient over the grid's `10 ^ p`. -/
def unit (x : Finite) (p : Int) : Nat × Nat :=
  let e := x.exponent - 2
  ((power 2 e).1 * (power 10 p).2, (power 2 e).2 * (power 10 p).1)

/-- Whether `d · 10 ^ p` rounds to the number. -/
def accepts (x : Finite) (p : Int) (d : Nat) : Bool :=
  let (num, den) := x.unit p
  let (low, _, high) := x.interval
  if x.mantissa % 2 = 0 then low * num ≤ d * den && d * den ≤ high * num
  else low * num < d * den && d * den < high * num

/-- The greatest `d` with `d · 10 ^ p` not above the number. -/
def gridBelow (x : Finite) (p : Int) : Nat :=
  let (num, den) := x.unit p
  x.interval.2.1 * num / den

/-- The point of the grid that rounds to the number, the nearer one where its two neighbours both
do, and the upper one where they are equally near. -/
def onGrid? (x : Finite) (p : Int) : Option Nat :=
  let (num, den) := x.unit p
  let d := x.gridBelow p
  match x.accepts p d, x.accepts p (d + 1) with
  | true, true => some (if 2 * (x.interval.2.1 * num - d * den) < den then d else d + 1)
  | true, false => some d
  | false, true => some (d + 1)
  | false, false => none

/-- Goes through `steps` grids from the coarsest; the last one holds the number itself. -/
def search (x : Finite) : Nat → Int → Nat × Int
  | 0, p => (x.gridBelow p, p)
  | steps + 1, p =>
    match x.onGrid? p with
    | some d => (d, p)
    | none => search x steps (p - 1)

/-- A power of ten above the number, from `log₁₀ 2 ≈ 0.30103`. -/
def coarsest (x : Finite) : Int :=
  ((x.mantissa.log2 : Int) + 1 + x.exponent) * 30103 / 100000 + 2

/-- Digits `d` and a power `p` with `d · 10 ^ p` the shortest decimal that rounds to the magnitude,
which is positive. -/
def shortest (x : Finite) : Nat × Int :=
  x.search (x.coarsest + 1074).toNat x.coarsest

end FrameLisp.Numeric.Binary64.Finite
