import FrameLisp.Report.Ink
import FrameLisp.Source.Span
import FrameLisp.Text.Blank
import FrameLisp.Text.Columns

/-!
# Source snippets

The lines of a source text that a label covers, under a header with the place of the label. A
label within one line is underlined with carets. A label over several lines is drawn as a bracket
on their left, of which lines far from both ends are left out.
-/
namespace FrameLisp.Report

open Source Text

/-- A label on a stretch of a source text. -/
structure Location where
  source : String
  path : String
  label : Option String
  span : Span

namespace Snippet

/-- A line of a source text: its index, its offset in bytes, and its characters with the newline
that ends it. -/
structure Line where
  index : Nat
  start : Nat
  chars : List Char

/-- The lines from a place on; `line` are the characters of the line so far, the last one first. A
text that ends in a newline has an empty line behind it. -/
def linesFrom (index start offset : Nat) (line : List Char) : List Char → List Line
  | [] => [⟨index, start, line.reverse⟩]
  | c :: cs =>
    let offset := offset + c.utf8Size
    if c = '\n' then
      ⟨index, start, (c :: line).reverse⟩ :: linesFrom (index + 1) offset offset [] cs
    else linesFrom index start offset (c :: line) cs

def lines (source : String) : List Line := linesFrom 0 0 0 [] source.toList

/-- The last line that begins at or before an offset. -/
def lineAt? (lines : List Line) (offset : Nat) : Option Line :=
  (lines.takeWhile fun l => l.start ≤ offset).getLast?

/-- A character of a line as it is displayed. -/
structure Cell where
  offset : Nat
  width : Nat
  char : Char

/-- The offset behind the character. -/
def Cell.stop (c : Cell) : Nat := c.offset + c.char.utf8Size

/-- A tab reaches to the next multiple of four columns. -/
def cellsFrom (offset column : Nat) : List Char → List Cell
  | [] => []
  | c :: cs =>
    let width := if c = '\t' then 4 - column % 4 else columns c
    ⟨offset, width, c⟩ :: cellsFrom (offset + c.utf8Size) (column + width) cs

/-- Whether a character at the end of a line is left out of the display. -/
def isLineEnd (c : Char) : Bool := c = '\n' || c = '\r' || c = '\x00'

def Line.shown (l : Line) : List Char := (l.chars.reverse.dropWhile isLineEnd).reverse

def Line.cells (l : Line) : List Cell := cellsFrom 0 0 l.shown

def byteLength (cs : List Char) : Nat := cs.foldl (fun n c => n + c.utf8Size) 0

/-- The number of characters of a line that end at or before an offset in it. -/
def Line.charsBefore (l : Line) (offset : Nat) : Nat :=
  ((cellsFrom 0 0 l.chars).takeWhile fun c => c.stop ≤ offset).length

/-- The numbers of the line and of the column of an offset, both counted from one. -/
def position (lines : List Line) (offset : Nat) : Nat × Nat :=
  match lineAt? lines offset with
  | some line => (line.index + 1, line.charsBefore (offset - line.start) + 1)
  | none => (1, 1)

def header : Style := ⟨true, true, some .red⟩
def headline : Style := ⟨true, true, none⟩
def border : Style := ⟨false, false, some .blue⟩
def mark : Style := ⟨false, false, some .red⟩

def styled (style : Style) (s : String) : List Ink := [.style style, .text s, .reset]

def blanks (n : Nat) : String := "".pushn ' ' n

/-- The left margin of a line without a number, `w` columns wide; `bar` stands at its right. -/
def gutter (w : Nat) (bar : String) : List Ink := .text (blanks w ++ " ") :: styled border bar

/-- The left margin of a line with its number. -/
def numberedGutter (w : Nat) (line : Line) : List Ink :=
  let number := toString (line.index + 1)
  [.style border, .text (blanks (w - number.length) ++ number), .reset, .text " "] ++
    styled border "│"

/-- Characters, of which the marked ones are set apart. -/
def writeCells (isMarked : Cell → Bool) (within : Bool) : List Cell → List Ink
  | [] => if within then [.reset] else []
  | c :: cs =>
    let change : List Ink :=
      match within, isMarked c with
      | false, true => [.style mark]
      | true, false => [.reset]
      | _, _ => []
    change ++ .text (if c.char = '\t' then blanks c.width else c.char.toString) ::
      writeCells isMarked (isMarked c) cs

/-- Carets under the marked characters and blanks before them; nothing is written from `stop` on. -/
def writeCarets (isMarked : Cell → Bool) (stop : Nat) (within : Bool) : List Cell → List Ink
  | [] => if within then [.reset] else []
  | c :: cs =>
    let marked := isMarked c
    let change : List Ink :=
      match within, marked with
      | false, true => [.style mark]
      | true, false => [.reset]
      | _, _ => []
    let sign : List Ink :=
      if marked then [.text ("".pushn '^' c.width)]
      else if c.offset < stop then [.text (blanks c.width)]
      else []
    change ++ sign ++ writeCarets isMarked stop marked cs

/-- A line and the carets below it. An empty label has one caret, which may stand in the column
behind the line. -/
def underlined (w : Nat) (line : Line) (span : Span) (message : String) : List Ink :=
  let start := span.start - line.start
  let stop := max (span.stop - line.start) (start + 1)
  let isMarked (c : Cell) : Bool := max start c.offset < min stop c.stop
  let behind : Cell := ⟨byteLength line.shown, 1, '\x00'⟩
  numberedGutter w line ++ [.text " "] ++ writeCells isMarked false line.cells ++ [.text "\n"] ++
    gutter w "│" ++ [.text " "] ++ writeCarets isMarked stop false (line.cells ++ [behind]) ++
    (if message.isEmpty then [] else .text " " :: styled mark message) ++ [.text "\n"]

/-- How a line belongs to a label over several lines. -/
inductive Part where
  /-- The first line, where the label begins at an offset. -/
  | first (start : Nat)
  | middle
  /-- The last line, where the label ends at an offset. -/
  | last (stop : Nat)
  /-- A line between the ends of a label that ends before it begins. -/
  | outside

def Part.marks : Part → Cell → Bool
  | .first start, c => start ≤ c.offset
  | .middle, _ => true
  | .last stop, c => c.stop ≤ stop
  | .outside, _ => false

/-- Whether nothing but white space comes before the label, so that its bracket begins beside the
line and not below it. -/
def opensBeside (line : Line) (start : Nat) : Bool :=
  start ≤ byteLength (line.shown.takeWhile isBlank)

/-- The bracket beside a line. -/
def bracket (line : Line) : Part → List Ink
  | .first start => if opensBeside line start then .text " " :: styled mark "╭" else [.text "  "]
  | .outside => [.text "  "]
  | _ => .text " " :: styled mark "│"

/-- The bracket beside the mark for lines left out behind a line. -/
def bracketBehind : Part → List Ink
  | .first _ | .outside => [.text "  "]
  | _ => .text " " :: styled mark "│"

/-- A rule as long as the characters with `p`, and the caret at its end. -/
def rule (p : Cell → Bool) (line : Line) : String :=
  (line.cells.takeWhile p).foldl (fun out c => out.pushn '─' c.width) "" ++ "^"

/-- The corner of the bracket below a line, if it has one there. -/
def corner (w : Nat) (line : Line) (message : String) : Part → List Ink
  | .first start =>
    if opensBeside line start then []
    else
      gutter w "│" ++ [.text " "] ++ styled mark "╭" ++
        styled mark (rule (fun c => c.offset ≤ start) line) ++ [.text "\n"]
  | .middle | .outside => []
  | .last stop =>
    gutter w "│" ++ [.text " "] ++ styled mark "╰" ++
      styled mark (rule (fun c => c.offset < stop) line ++
        (if message.isEmpty then "" else " " ++ message)) ++ [.text "\n"]

def bracketed (w : Nat) (message : String) (line : Line) (part : Part) : List Ink :=
  numberedGutter w line ++ bracket line part ++ [.text " "] ++
    writeCells part.marks false line.cells ++ [.text "\n"] ++ corner w line message part

/-- The lines from one end of a label to the other with their parts, of which those far from both
ends are not wanted: the first line, three after it, one before the last and the last are. If the
last line comes before the first one, only these two are. -/
def parts (first last : Line) (span : Span) (lines : List Line) : List (Line × Part × Bool) :=
  let top := min first.index last.index
  let bottom := max first.index last.index
  (lines.filter fun l => top ≤ l.index && l.index ≤ bottom).map fun l =>
    if l.index = first.index then (l, .first (span.start - l.start), true)
    else if l.index = last.index then (l, .last (span.stop - l.start), true)
    else if last.index < first.index then (l, .outside, false)
    else (l, .middle, l.index - first.index ≤ 3 || last.index - l.index ≤ 1)

/-- Writes the wanted lines. One line left out between two is written after all; for more there is
a mark. `skipped` are the lines left out so far, the last one first, behind a line with the part
`before`. -/
def writeParts (w : Nat) (message : String) (before : Part) (skipped : List (Line × Part)) :
    List (Line × Part × Bool) → List Ink
  | [] => []
  | (line, part, false) :: rest => writeParts w message before ((line, part) :: skipped) rest
  | (line, part, true) :: rest =>
    (match skipped with
      | [] => []
      | [(line, part)] => bracketed w message line part
      | _ => gutter w "·" ++ bracketBehind before ++ [.text "\n"]) ++
    bracketed w message line part ++ writeParts w message part [] rest

/-- The header, the place and the lines of a labelled stretch, and an empty line. -/
def write (title : String) (location : Location) : List Ink :=
  let all := lines location.source
  let message := location.label.getD ""
  let nowhere : Line := ⟨0, 0, []⟩
  let first := (lineAt? all location.span.start).getD nowhere
  let last := (lineAt? all location.span.stop).getD nowhere
  let w := (toString (max first.index last.index + 1)).length
  let severalLines := first.index ≠ last.index
  let (line, column) := position all location.span.start
  [.style header, .text "error", .style headline, .text (": " ++ title), .reset, .text "\n",
    .text (blanks w ++ " ")] ++ styled border "┌─" ++
    [.text s!" {location.path}:{line}:{column}\n"] ++
    gutter w "│" ++ [.text (if severalLines then "  \n" else "\n")] ++
    (if severalLines then writeParts w message .middle [] (parts first last location.span all)
      else underlined w first location.span message) ++ [.text "\n"]

end Snippet

end FrameLisp.Report
