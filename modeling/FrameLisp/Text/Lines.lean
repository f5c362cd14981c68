/-!
# Lines of bytes

A row of bytes is the concatenation of its lines, each with the newline that ends it.
-/
namespace FrameLisp.Text

/-- The lines behind `line`, which is the line so far, its last byte first. -/
def linesFrom (line : List UInt8) : List UInt8 → List (List UInt8)
  | [] => if line.isEmpty then [] else [line.reverse]
  | b :: bytes =>
    if b = 10 then (b :: line).reverse :: linesFrom [] bytes else linesFrom (b :: line) bytes

def lines (bytes : List UInt8) : List (List UInt8) := linesFrom [] bytes

/-- The bytes of a line before its newline and one carriage return in front of that. -/
def lineContent (line : List UInt8) : List UInt8 :=
  match line.reverse with
  | 10 :: 13 :: content => content.reverse
  | 10 :: content => content.reverse
  | _ => line

theorem flatten_linesFrom (line bytes : List UInt8) :
    (linesFrom line bytes).flatten = line.reverse ++ bytes := by
  fun_induction linesFrom line bytes <;> simp_all

theorem flatten_lines (bytes : List UInt8) : (lines bytes).flatten = bytes :=
  flatten_linesFrom [] bytes

end FrameLisp.Text
