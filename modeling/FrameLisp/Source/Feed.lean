import FrameLisp.Source.Reading

/-!
# Reading step by step

A feed hands out the tokens of a text one by one, or the forms, and keeps the comments that it
passed. One token may be held back after it was looked at.
-/
namespace FrameLisp.Source

structure Feed where
  /-- A token that was looked at but not taken. -/
  current : Option Lexeme
  comments : Array Span
  items : List Item
  /-- Where the end of the text is reported once the items are used up. -/
  last : Nat

namespace Feed

def ofItems (items : List Item) : Feed := ⟨none, #[], items, 0⟩

def ofString (s : String) : Feed :=
  let items := ((Cursor.scanAll #[] (.ofString s)).map Prod.snd).toList
  ⟨none, #[], items, s.utf8ByteSize⟩

/-- The next token of the items that is not a comment; the comments before it are kept. -/
def pull (last : Nat) (comments : Array Span) :
    List Item → Except SyntaxError Lexeme × Array Span × List Item
  | [] => (.ok ⟨.endOfInput, .point last⟩, comments, [])
  | .error e :: items => (.error (.ofLexical e), comments, items)
  | .ok lexeme :: items =>
    if lexeme.token = .comment then pull last (comments.push lexeme.span) items
    else (.ok lexeme, comments, items)

/-- Takes a token. -/
def next (f : Feed) : Except SyntaxError Lexeme × Feed :=
  match f.current with
  | some lexeme => (.ok lexeme, { f with current := none })
  | none =>
    let (result, comments, items) := pull f.last f.comments f.items
    (result, { f with comments, items })

/-- Looks at a token without taking it. -/
def peek (f : Feed) : Except SyntaxError Lexeme × Feed :=
  match f.next with
  | (.ok lexeme, f) => (.ok lexeme, { f with current := some lexeme })
  | (.error e, f) => (.error e, f)

/-- Takes a token, which has to be the given one. -/
def expect (f : Feed) (token : Token) : Except SyntaxError Span × Feed :=
  match f.next with
  | (.error e, f) => (.error e, f)
  | (.ok lexeme, f) =>
    if lexeme.token.same token then (.ok lexeme.span, f)
    else if lexeme.token = .endOfInput then
      (.error ⟨.unexpectedEnd, .point lexeme.span.start⟩, f)
    else (.error ⟨.unexpectedToken lexeme.token [token.literal], lexeme.span⟩, f)

/-- All items that are still to be read. -/
def pending (f : Feed) : List Item :=
  match f.current with
  | some lexeme => .ok lexeme :: f.items
  | none => f.items

/-- Reads forms until `enough`; the end of the text between forms is looked at and not taken. -/
def read (enough : Reading → Bool) (f : Feed) : Except SyntaxError (List Form) × Feed :=
  match Reading.run enough f.last ⟨.top, #[], f.comments⟩ f.pending with
  | (some e, r, items) => (.error e, { f with current := none, comments := r.comments, items })
  | (none, r, items) =>
    let f := { f with current := none, comments := r.comments, items }
    (.ok r.forms.toList, if enough r then f else f.peek.2)

/-- Reads one form, if there is one. -/
def nextForm (f : Feed) : Except SyntaxError (Option Form) × Feed :=
  match f.read fun r => !r.forms.isEmpty with
  | (.ok forms, f) => (.ok forms.head?, f)
  | (.error e, f) => (.error e, f)

/-- Reads all forms and hands out the comments that were kept. -/
def program (f : Feed) : Except SyntaxError Program × Feed :=
  match f.read fun _ => false with
  | (.ok forms, f) => (.ok ⟨forms, f.comments.toList⟩, { f with comments := #[] })
  | (.error e, f) => (.error e, f)

end Feed

end FrameLisp.Source
