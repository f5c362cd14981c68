import FrameLisp.Datum.Basic
import FrameLisp.Text.Quoted

/-!
# The text of a datum

A chain of pairs is written between parentheses, with a dot before an end that is not the empty
list. Procedures are written by their name, or by their parameters when they have none.
-/
namespace FrameLisp

def Lambda.text (l : Lambda) : String :=
  "#<procedure " ++ l.name.getD l.parameters.text ++ ">"

namespace Datum

/-- The text of a datum that is neither a pair nor quoted. -/
def atomText : Datum → String
  | .number n => n.text
  | .string s => Text.quote s
  | .boolean b => if b then "#t" else "#f"
  | .symbol name => name
  | .closure _ l _ => l.text
  | .primitive p => "#<primitive " ++ p.name ++ ">"
  | .pair .. | .nil | .quoted _ => "()"

mutual

/-- Appends the text of a datum. -/
def write (out : String) : Datum → String
  | .pair _ head tail => writeTail (write (out.push '(') head) tail
  | .quoted d => write (out.push '\'') d
  | d => out ++ d.atomText

/-- Appends the rest of a chain after its first head. -/
def writeTail (out : String) : Datum → String
  | .nil => out.push ')'
  | .pair _ head tail => writeTail (write (out.push ' ') head) tail
  | .quoted d => (write (out ++ " . '") d).push ')'
  | d => (out ++ " . " ++ d.atomText).push ')'

end

def text (d : Datum) : String := d.write ""

end Datum

end FrameLisp
