import FrameLisp.Console.Output
import FrameLisp.Datum.Text
import FrameLisp.Source.Reading

/-!
# Looking at tokens and forms

Two dialogues that show how a line is read: as tokens, or as forms. Both end with the line
`.exit` and pass over empty lines.
-/
namespace FrameLisp.Console

open Source

/-- The name of a token's kind with its value. -/
def tokenText : Token → String
  | .leftParen => "LParen"
  | .rightParen => "RParen"
  | .quote => "Quote"
  | .dot => "Dot"
  | .string value => "String(" ++ Text.describe value ++ ")"
  | .integer value => "Integer(" ++ toString value ++ ")"
  | .rational value =>
    "Rational(Ratio \x7b numer: " ++ toString value.num ++ ", denom: " ++ toString value.den
      ++ " \x7d)"
  | .float value => "Float(" ++ value.text .literal ++ ")"
  | .boolean value => "Boolean(" ++ (if value then "true" else "false") ++ ")"
  | .symbol name => "Symbol(" ++ Text.describe name ++ ")"
  | .comment => "Comment"
  | .endOfInput => "Eof"

/-- The lines that show items, up to the first that is faulty. -/
def itemLines : List Item → List Output
  | [] => []
  | .ok lexeme :: items =>
    .line (lexeme.span.text ++ " " ++ tokenText lexeme.token) :: itemLines items
  | .error e :: _ =>
    let details := e.fault.details
    .line s!"[at {e.span.text}] Lexical Error: {details.message}" ::
      if details.notes.isEmpty then [] else [.line ("\n".intercalate details.notes)]

def tokenLines (cs : List Char) : List Output :=
  itemLines ((Cursor.scanAll #[] ⟨0, cs⟩).map Prod.snd).toList

def formLines (cs : List Char) : List Output :=
  match Program.ofChars cs with
  | .ok program => program.data.map fun d => .line d.text
  | .error e =>
    let details := e.details
    [.line (s!"[at {e.span.text}] Parse error: {details.message}.\n\t"
      ++ ";\n\t".intercalate details.notes)]

/-- A dialogue that shows each line on its own. -/
def inspection (describe : List Char → List Output) : Dialogue Unit where
  prompt _ := ">> "
  answer _ cs :=
    if cs.isEmpty then ([], some ())
    else if cs = ".exit".toList then ([], none)
    else (describe cs, some ())
  farewell := []

end FrameLisp.Console
