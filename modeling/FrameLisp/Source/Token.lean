import FrameLisp.Numeric.Number
import FrameLisp.Source.Span
import FrameLisp.Text.Quoted

/-!
# Tokens
-/
namespace FrameLisp.Source

open Numeric

inductive Token where
  | leftParen
  | rightParen
  | quote
  | dot
  /-- The text with its escapes resolved. -/
  | string (value : String)
  | integer (value : Int)
  | rational (value : Rat)
  | float (value : Binary64)
  | boolean (value : Bool)
  | symbol (name : String)
  | comment
  | endOfInput
  deriving DecidableEq

namespace Token

/-- The token as a message shows it. -/
def literal : Token → String
  | .leftParen => "("
  | .rightParen => ")"
  | .quote => "'"
  | .dot => "."
  | .string value => Text.describe value
  | .integer value => toString value
  | .rational value => Number.ratText value
  | .float value => value.text .literal
  | .boolean value => if value then "#t" else "#f"
  | .symbol name => name
  | .comment => ";"
  | .endOfInput => "end of input"

/-- Equality of tokens, where floating point numbers are equal by value. -/
def same : Token → Token → Bool
  | .float x, .float y => x.compare y == some .eq
  | a, b => a == b

end Token

/-- A token and where it stands. -/
structure Lexeme where
  token : Token
  span : Span
  deriving DecidableEq

end FrameLisp.Source
