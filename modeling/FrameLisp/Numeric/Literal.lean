import FrameLisp.Numeric.Number

/-!
# Numbers as they are written

An integer is digits, among which underscores may stand but not in front. A decimal number is
digits with at most one point, at least one digit on either side of it, and perhaps a power of
ten; it has no underscores.
-/
namespace FrameLisp.Numeric

def isDigit (c : Char) : Bool := '0' ≤ c && c ≤ '9'

def digitValue (c : Char) : Nat := c.toNat - '0'.toNat

/-- The number that a row of digits writes; other characters are passed over. -/
def digitsValue (cs : List Char) : Nat :=
  cs.foldl (fun n c => if isDigit c then 10 * n + digitValue c else n) 0

def natural? (cs : List Char) : Option Nat :=
  match cs with
  | [] => none
  | c :: _ =>
    if c ≠ '_' ∧ cs.all (fun c => isDigit c || c == '_') then some (digitsValue cs) else none

/-- An integer with at most one sign. -/
def integer? : List Char → Option Int
  | '-' :: cs => (natural? cs).map fun n => -(n : Int)
  | '+' :: cs => (natural? cs).map fun n => (n : Int)
  | cs => (natural? cs).map fun n => (n : Int)

/-- The power of ten after `e`; its digits have no underscores. -/
def exponent? : List Char → Option Int
  | '-' :: cs => if cs.isEmpty ∨ ¬cs.all isDigit then none else some (-(digitsValue cs : Int))
  | '+' :: cs => if cs.isEmpty ∨ ¬cs.all isDigit then none else some (digitsValue cs : Int)
  | cs => if cs.isEmpty ∨ ¬cs.all isDigit then none else some (digitsValue cs : Int)

/-- An unsigned decimal number, rounded to the nearest floating point number. -/
def magnitude? (negative : Bool) (cs : List Char) : Option Binary64 :=
  let whole := cs.takeWhile isDigit
  let afterWhole := cs.dropWhile isDigit
  let (fraction, rest) : List Char × List Char :=
    match afterWhole with
    | '.' :: cs => (cs.takeWhile isDigit, cs.dropWhile isDigit)
    | cs => ([], cs)
  if whole.isEmpty && fraction.isEmpty then none
  else
    let value (e : Int) : Binary64 :=
      .ofDecimal negative (digitsValue (whole ++ fraction)) (e - fraction.length)
    match rest with
    | [] => some (value 0)
    | c :: cs => if c = 'e' ∨ c = 'E' then (exponent? cs).map value else none

def decimal? : List Char → Option Binary64
  | '-' :: cs => magnitude? true cs
  | '+' :: cs => magnitude? false cs
  | cs => magnitude? false cs

end FrameLisp.Numeric
