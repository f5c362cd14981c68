import FrameLisp.Numeric.Shortest

/-!
# The text of a floating point number

The shortest digits that read back, with a point between digits near one and with a power of ten
elsewhere.
-/
namespace FrameLisp.Numeric

/-- How a magnitude `0.ddd · 10 ^ k` is laid out: positionally when `least ≤ k ≤ greatest`, with at
least one digit after the point, and otherwise with an exponent. -/
structure FloatStyle where
  least : Int
  greatest : Int
  nan : String
  infinity : String
  minusInfinity : String

/-- From `1e-4` up to but not including `1e16` a number is written without an exponent. -/
def FloatStyle.value : FloatStyle := ⟨-3, 16, "+nan.0", "+inf.0", "-inf.0"⟩

/-- The text of a literal as it was read. -/
def FloatStyle.literal : FloatStyle := { FloatStyle.value with
  nan := "NaN", infinity := "inf", minusInfinity := "-inf" }

def zeros (n : Nat) : String := "".pushn '0' n

/-- The number `digits · 10 ^ p` in the given style. -/
def FloatStyle.decimal (style : FloatStyle) (digits : Nat) (p : Int) : String :=
  let ds := toString digits
  let k := (ds.length : Int) + p
  if style.least ≤ k ∧ k ≤ style.greatest then
    if k ≤ 0 then "0." ++ zeros (-k).toNat ++ ds
    else if 0 ≤ p then ds ++ zeros p.toNat ++ ".0"
    else String.ofList (ds.toList.take k.toNat) ++ "." ++ String.ofList (ds.toList.drop k.toNat)
  else
    let fraction := ds.toList.drop 1
    String.ofList (ds.toList.take 1) ++
      (if fraction.isEmpty then "" else "." ++ String.ofList fraction) ++ "e" ++ toString (k - 1)

def Binary64.text (style : FloatStyle) : Binary64 → String
  | .nan => style.nan
  | .infinite false => style.infinity
  | .infinite true => style.minusInfinity
  | .finite x =>
    (if x.negative then "-" else "") ++
      if x.mantissa = 0 then "0.0" else style.decimal x.shortest.1 x.shortest.2

end FrameLisp.Numeric
