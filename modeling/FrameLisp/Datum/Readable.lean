import FrameLisp.Datum.Text
import FrameLisp.Source.Spelling

/-!
# Readable data

The data whose texts are read back: all that holds no procedures, no numbers without digits and no
symbols with names that are not read as symbols.
-/
namespace FrameLisp.Datum

inductive Readable : Datum → Prop
  | exact (q : Rat) : Readable (.number (.exact q))
  | finite (x : Numeric.Binary64.Finite) : Readable (.number (.inexact (.finite x)))
  | string (s : String) : Readable (.string s)
  | boolean (b : Bool) : Readable (.boolean b)
  | nil : Readable .nil
  | symbol {name : String} : Source.IsName name.toList → Readable (.symbol name)
  | pair {mark head tail} : Readable head → Readable tail → Readable (.pair mark head tail)

/-- The same datum with new pairs, as a reader makes it. -/
def unmarked : Datum → Datum
  | .pair _ head tail => .pair none head.unmarked tail.unmarked
  | .quoted d => .quoted d.unmarked
  | d => d

/-- Whether no infinite number occurs in a datum. -/
def Bounded : Datum → Prop
  | .number (.inexact (.infinite _)) => False
  | .pair _ head tail => head.Bounded ∧ tail.Bounded
  | .quoted d => d.Bounded
  | _ => True

end FrameLisp.Datum
