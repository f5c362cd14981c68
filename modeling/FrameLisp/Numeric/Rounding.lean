/-!
# Rounding a quotient to an integer

`roundHalfEven n d` is the integer nearest to `n / d`, a tie going to the even neighbour. It is
the quotient or the quotient plus one, and its distance from `n / d` is at most a half.
-/
namespace FrameLisp.Numeric

def roundHalfEven (n d : Nat) : Nat :=
  let q := n / d
  let r := n % d
  if d < 2 * r ∨ (2 * r = d ∧ q % 2 = 1) then q + 1 else q

end FrameLisp.Numeric
