import FrameLisp.Text.Ranges

/-!
# White space

The Unicode property `White_Space`. It separates tokens, and a line of nothing else is blank.
-/
namespace FrameLisp.Text

def whiteSpace : Ranges := [
  (0x9, 0xD), (0x20, 0x20), (0x85, 0x85), (0xA0, 0xA0), (0x1680, 0x1680), (0x2000, 0x200A),
  (0x2028, 0x2029), (0x202F, 0x202F), (0x205F, 0x205F), (0x3000, 0x3000)]

def isBlank (c : Char) : Bool := whiteSpace.contains c

/-- The text without the white space at its two ends. -/
def trim (s : List Char) : List Char :=
  ((s.dropWhile isBlank).reverse.dropWhile isBlank).reverse

def isBlankLine (s : List Char) : Bool := s.all isBlank

end FrameLisp.Text
