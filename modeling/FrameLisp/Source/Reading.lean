import FrameLisp.Datum.Chain
import FrameLisp.Source.Scan

/-!
# From tokens to data

Forms are read token by token. A reading holds the lists and quotes that are still open, so that
each token decides on its own whether the text so far can be continued; nothing is looked ahead.
A quote before a datum is read as the list of the word `quote` and the datum.
-/
namespace FrameLisp.Source

/-- What a datum that is still to come belongs to. -/
inductive Context where
  | quote (span : Span)
  /-- The next element of the list that begins at `start`; `read` are those before it, the last
  one first. -/
  | element (start : Nat) (read : List Datum)
  /-- The end of the list, after a dot. -/
  | tail (start : Nat) (read : List Datum)

/-- Where a reading stands. -/
inductive Place where
  /-- Before a datum, or between forms where nothing is open. -/
  | datum (within : List Context)
  /-- Before the parenthesis that closes a list after its end `tail`. -/
  | closing (start : Nat) (read : List Datum) (tail : Datum) (within : List Context)

namespace Place

/-- Between forms. -/
def top : Place := .datum []

/-- What a token leads to. -/
inductive Step where
  | more (place : Place)
  | form (span : Span) (datum : Datum)

/-- Puts a finished datum where it belongs. -/
def finish (span : Span) (d : Datum) : List Context → Step
  | [] => .form span d
  | .quote q :: within => finish (q.merge span) (.ofList [.symbol "quote", d]) within
  | .element start read :: within => .more (.datum (.element start (d :: read) :: within))
  | .tail start read :: within => .more (.closing start read d within)

/-- The datum that a token is on its own. -/
def atom? : Token → Option Datum
  | .string value => some (.string value)
  | .integer value => some (.number (.ofInt value))
  | .rational value => some (.number (.exact value))
  | .float value => some (.number (.inexact value))
  | .boolean value => some (.boolean value)
  | .symbol name => some (.symbol name)
  | _ => none

/-- What the end of the text means at a place: an error unless nothing is open. -/
def atEnd (offset : Nat) : Place → Option SyntaxError
  | .datum [] => none
  | _ => some ⟨.unexpectedEnd, .point offset⟩

/-- Takes one token, which is neither a comment nor the end of the text. -/
def take (lexeme : Lexeme) : Place → Except SyntaxError Step
  | .closing start read tail within =>
    if lexeme.token = .rightParen then
      .ok (finish ⟨start, lexeme.span.stop⟩ (.ofChain read.reverse tail) within)
    else .error ⟨.unexpectedToken lexeme.token [Token.rightParen.literal], lexeme.span⟩
  | .datum within =>
    match lexeme.token, within with
    | .leftParen, within => .ok (.more (.datum (.element lexeme.span.start [] :: within)))
    | .quote, within => .ok (.more (.datum (.quote lexeme.span :: within)))
    | .rightParen, .element start read :: within =>
      .ok (finish ⟨start, lexeme.span.stop⟩ (.ofList read.reverse) within)
    | .rightParen, _ => .error ⟨.unmatchedParen, lexeme.span⟩
    | .dot, .element start (d :: read) :: within =>
      .ok (.more (.datum (.tail start (d :: read) :: within)))
    | .dot, _ => .error ⟨.unexpectedDot, lexeme.span⟩
    | token, within =>
      match atom? token with
      | some d => .ok (finish lexeme.span d within)
      | none => .error ⟨.unexpectedEnd, .point lexeme.span.start⟩

end Place

/-- A form and where it stands. -/
structure Form where
  span : Span
  datum : Datum

/-- A reading of forms; forms and comments are in source order. -/
structure Reading where
  place : Place
  forms : Array Form
  comments : Array Span

namespace Reading

def start : Reading := ⟨.top, #[], #[]⟩

/-- What an item leads to: further reading, or the end of it with the error that ended it, if
any. -/
inductive Progress where
  | more (r : Reading)
  | stop (error : Option SyntaxError)

def advance (r : Reading) : Item → Progress
  | .error e => .stop (some (.ofLexical e))
  | .ok lexeme =>
    match lexeme.token with
    | .comment => .more { r with comments := r.comments.push lexeme.span }
    | .endOfInput => .stop (r.place.atEnd lexeme.span.start)
    | _ =>
      match r.place.take lexeme with
      | .error e => .stop (some e)
      | .ok (.more place) => .more { r with place }
      | .ok (.form span datum) =>
        .more { r with place := .top, forms := r.forms.push ⟨span, datum⟩ }

/-- Reads items until one stops the reading, or until it has `enough`. Behind the last item is the
end of the text, at `last`. An item that is an error is used up; an end of the text between forms
is left over with the items behind it. -/
def run (enough : Reading → Bool) (last : Nat) (r : Reading) :
    List Item → Option SyntaxError × Reading × List Item
  | [] => (r.place.atEnd last, r, [])
  | item :: items =>
    match r.advance item with
    | .more r => if enough r then (none, r, items) else run enough last r items
    | .stop none => (none, r, item :: items)
    | .stop (some e) => (some e, r, items)

end Reading

/-- A whole text that was read: its forms and its comments in source order. Their offsets are those
that are counted in 32 bits, if the text has fewer than `2 ^ 32` bytes. -/
structure Program where
  forms : List Form
  comments : List Span

namespace Program

def data (p : Program) : List Datum := p.forms.map Form.datum

/-- The program that a text from a cursor on is. -/
def ofCursor (c : Cursor) : Except SyntaxError Program :=
  let items := ((Cursor.scanAll #[] c).map Prod.snd).toList
  match Reading.start.run (fun _ => false) 0 items with
  | (none, r, _) => .ok ⟨r.forms.toList, r.comments.toList⟩
  | (some e, _, _) => .error e

def ofChars (cs : List Char) : Except SyntaxError Program := ofCursor ⟨0, cs⟩

def ofString (s : String) : Except SyntaxError Program := ofChars s.toList

end Program

end FrameLisp.Source
