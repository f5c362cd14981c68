import FrameLisp.Numeric.Literal
import FrameLisp.Source.Fault
import FrameLisp.Text.Blank

/-!
# Atoms

An atom is a longest text without delimiters. It is a number when it begins like one and can be
read as one, and otherwise a symbol, apart from the dot and the literals that begin with `#`.
-/
namespace FrameLisp.Source

open Numeric

/-- Whether an atom ends before this character. -/
def isDelimiter (c : Char) : Bool :=
  Text.isBlank c || c == '(' || c == ')' || c == '"' || c == ';' || c == '\''

/-- A digit first, or after a sign or a point. -/
def looksNumeric : List Char → Bool
  | c :: cs =>
    if isDigit c then true
    else if c = '+' ∨ c = '-' then
      match cs with
      | '.' :: d :: _ => isDigit d
      | d :: _ => isDigit d
      | [] => false
    else if c = '.' then
      match cs with
      | d :: _ => isDigit d
      | [] => false
    else false
  | [] => false

/-- A fraction of two integers around its first slash; the denominator has no sign. -/
def fraction? (numerator denominator : List Char) : Except LexicalFault (Option Token) :=
  match denominator with
  | c :: _ =>
    if isDigit c then
      match integer? numerator, integer? denominator with
      | some n, some d =>
        if d = 0 then .error .zeroDenominator else .ok (some (.rational ((n : Rat) / (d : Rat))))
      | _, _ => .ok none
    else .ok none
  | [] => .ok none

/-- The number that a text writes: a fraction where it has a slash, else an integer, else a
decimal number. One plus sign in front is taken off first. -/
def number? (cs : List Char) : Except LexicalFault (Option Token) :=
  let unsigned := if cs.head? = some '+' then cs.drop 1 else cs
  if '/' ∈ unsigned then
    fraction? (unsigned.takeWhile (· ≠ '/')) ((unsigned.dropWhile (· ≠ '/')).drop 1)
  else
    match integer? unsigned with
    | some n => .ok (some (.integer n))
    | none => .ok ((decimal? unsigned).map .float)

def hashLiteral? : List Char → Option Bool
  | ['t'] | ['t', 'r', 'u', 'e'] => some true
  | ['f'] | ['f', 'a', 'l', 's', 'e'] => some false
  | _ => none

/-- The token that a text without delimiters is. -/
def classify (cs : List Char) : Except LexicalFault Token :=
  let symbol : Token := .symbol (String.ofList cs)
  match cs with
  | ['.'] => .ok .dot
  | '#' :: rest =>
    match hashLiteral? rest with
    | some b => .ok (.boolean b)
    | none => .error .unknownHashLiteral
  | cs =>
    if looksNumeric cs then
      match number? cs with
      | .error e => .error e
      | .ok (some token) => .ok token
      | .ok none => .ok symbol
    else .ok symbol

end FrameLisp.Source
