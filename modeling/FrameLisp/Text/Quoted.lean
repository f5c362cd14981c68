import FrameLisp.Text.Printable

/-!
# Texts between double quotes

Two spellings of a text as a quoted literal. `quote` is the one the reader understands: the quote,
the backslash, the newline and the tab are escaped and every other character stands for itself.
`describe` is meant for the eye: everything that would not show, or would change what stands
before it, is written by its code point.
-/
namespace FrameLisp.Text

/-- The characters that the reader's escapes stand for. -/
def unescape? : Char → Option Char
  | '"' => some '"'
  | '\\' => some '\\'
  | 'n' => some '\n'
  | 't' => some '\t'
  | _ => none

/-- A character inside a literal that is read back. -/
def escapeChar : Char → List Char
  | '"' => ['\\', '"']
  | '\\' => ['\\', '\\']
  | '\n' => ['\\', 'n']
  | '\t' => ['\\', 't']
  | c => [c]

def quote (s : String) : String :=
  (s.foldl (fun out c => (escapeChar c).foldl String.push out) "\"").push '"'

/-- The code point between braces, in lower case without leading zeros. -/
def codePoint (c : Char) : String :=
  "\\u\x7b" ++ String.ofList (Nat.toDigits 16 c.toNat) ++ "\x7d"

/-- A character shown in a literal that ends with `delimiter`. -/
def describeChar (delimiter c : Char) : String :=
  if c == delimiter then "\\" ++ c.toString
  else match c with
    | '\x00' => "\\0"
    | '\t' => "\\t"
    | '\r' => "\\r"
    | '\n' => "\\n"
    | '\\' => "\\\\"
    | c => if isPrintable c then c.toString else codePoint c

def describe (s : String) : String :=
  (s.foldl (fun out c => out ++ describeChar '"' c) "\"").push '"'

end FrameLisp.Text
