import FrameLisp.Source.Token

/-!
# What is wrong with a source text

A lexical fault is one in the spelling of a token; a syntax fault is one in the order of tokens. A
fault is incomplete when further text may mend it.
-/
namespace FrameLisp.Source

inductive LexicalFault where
  | unterminatedString
  | unknownEscape (c : Char)
  | unknownHashLiteral
  | zeroDenominator
  deriving DecidableEq

structure LexicalError where
  fault : LexicalFault
  span : Span
  deriving DecidableEq

/-- A headline and the lines that explain it. -/
structure Details where
  message : String
  notes : List String

def LexicalFault.details : LexicalFault → Details
  | .unterminatedString => ⟨"Unterminated string literal", ["Add a closing `\"`."]⟩
  | .unknownEscape c =>
    ⟨"Unknown escape sequence",
      ["`\\" ++ c.toString ++ "` is not one of `\\\"`, `\\\\`, `\\n`, `\\t`."]⟩
  | .unknownHashLiteral =>
    ⟨"Unknown `#` literal", ["Expected one of `#t`, `#f`, `#true`, `#false`."]⟩
  | .zeroDenominator => ⟨"Rational literal has a zero denominator", []⟩

inductive SyntaxFault where
  /-- The text ended inside a list or after a quote. -/
  | unexpectedEnd
  | unmatchedParen
  | unexpectedDot
  | unexpectedToken (token : Token) (expected : List String)
  | lexical (error : LexicalError)
  deriving DecidableEq

structure SyntaxError where
  fault : SyntaxFault
  span : Span
  deriving DecidableEq

namespace SyntaxError

def ofLexical (e : LexicalError) : SyntaxError := ⟨.lexical e, e.span⟩

/-- Whether more text could complete the form. -/
def isIncomplete (e : SyntaxError) : Bool :=
  match e.fault with
  | .unexpectedEnd => true
  | .lexical e => e.fault = .unterminatedString
  | _ => false

/-- How a message names a token that it did not expect. -/
def describe (token : Token) : String :=
  match token with
  | .symbol name => s!"the symbol `{name}`"
  | .integer _ | .rational _ | .float _ => s!"the number `{token.literal}`"
  | _ => s!"`{token.literal}`"

def details (e : SyntaxError) : Details :=
  match e.fault with
  | .unexpectedEnd => ⟨"Unexpected end of input", ["A list or quote is still open here."]⟩
  | .unmatchedParen => ⟨"Unmatched closing parenthesis", ["There is no `(` for this `)`."]⟩
  | .unexpectedDot =>
    ⟨"Unexpected `.`",
      ["A dot may only appear before the last element of a non-empty list."]⟩
  | .unexpectedToken token expected =>
    ⟨"Not expected this",
      s!"Found {describe token}, expected one of: " :: expected.map ("- " ++ ·)⟩
  | .lexical e => e.fault.details

end SyntaxError

end FrameLisp.Source
