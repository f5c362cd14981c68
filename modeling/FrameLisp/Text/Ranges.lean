/-!
# Character classes as code point ranges

A class of characters that a standard lists is a list of closed intervals of code points.
-/
namespace FrameLisp.Text

/-- Closed intervals of code points. -/
abbrev Ranges := List (Nat × Nat)

def Ranges.contains (ranges : Ranges) (c : Char) : Bool :=
  ranges.any fun r => r.1 ≤ c.toNat && c.toNat ≤ r.2

end FrameLisp.Text
