import FrameLisp.Source.Scan

/-!
# Scanning a stream

Of a stream only two characters are looked at, and they are kept in a window with the offsets at
which they begin. A window moves by one character at a time; behind the last character both offsets
are the length of the text. Offsets are counted in 32 bits here.

Scanning through a window goes by the rules of a cursor, which has the whole text before it.
-/
namespace FrameLisp.Source

def describeChar? : Option Char → String
  | some c => "Some('" ++ Text.describeChar '\'' c ++ "')"
  | none => "None"

structure Window where
  position : UInt32
  following : UInt32
  current : Option Char
  next : Option Char
  /-- The characters that were not asked for yet, each with its offset. -/
  input : List (UInt32 × Char)

namespace Window

/-- Some characters with the offsets at which they begin. -/
def indexed (offset : Nat) : List Char → List (UInt32 × Char)
  | [] => []
  | c :: cs => (.ofNat offset, c) :: indexed (offset + c.utf8Size) cs

/-- Takes a character from the stream. At the end of the stream nothing says where the next
character would begin, so that the size of the last one counts. -/
def advance (w : Window) : Window :=
  match w.input with
  | (offset, c) :: input => ⟨w.following, offset, w.next, some c, input⟩
  | [] =>
    ⟨w.following, w.following + .ofNat ((w.next.map Char.utf8Size).getD 0), w.next, none, []⟩

/-- At the beginning of a text, when its first two characters were taken. -/
def ofString (s : String) : Window := advance (advance ⟨0, 0, none, none, indexed 0 s.toList⟩)

/-- How many characters are left. -/
def left (w : Window) : Nat :=
  w.input.length + w.next.toList.length + w.current.toList.length

theorem left_advance_lt {w : Window} {c : Char} (h : w.current = some c) :
    w.advance.left < w.left := by
  obtain ⟨position, following, current, next, input⟩ := w
  obtain rfl : current = some c := h
  cases input <;> simp [advance, left]

/-- Past the longest stretch of characters with `p`, which are put behind those in `read`, the last
one first. -/
def takeWhile (p : Char → Bool) (read : List Char) (w : Window) : List Char × Window :=
  match _h : w.current with
  | none => (read.reverse, w)
  | some c => if p c then takeWhile p (c :: read) w.advance else (read.reverse, w)
  termination_by w.left
  decreasing_by exact left_advance_lt _h

def skip (p : Char → Bool) (w : Window) : Window := (w.takeWhile p []).2

/-- The span from one window to another. -/
def spanTo (start stop : Window) : Span := ⟨start.position.toNat, stop.position.toNat⟩

/-- Reads a string that opened at the window `start` from behind its quote. -/
def scanString (start : Window) (value : String) (w : Window) : Item × Window :=
  match _h : w.current with
  | none => (.error ⟨.unterminatedString, start.spanTo w.advance⟩, w.advance)
  | some '"' => (.ok ⟨.string value, start.spanTo w.advance⟩, w.advance)
  | some '\\' =>
    match _h' : w.advance.current with
    | none => (.error ⟨.unterminatedString, start.spanTo w.advance.advance⟩, w.advance.advance)
    | some c =>
      match Text.unescape? c with
      | some d => scanString start (value.push d) w.advance.advance
      | none => (.error ⟨.unknownEscape c, w.spanTo w.advance.advance⟩, w.advance.advance)
  | some c => scanString start (value.push c) w.advance
  termination_by w.left
  decreasing_by
    · exact Nat.lt_trans (left_advance_lt _h') (left_advance_lt _h)
    · exact left_advance_lt _h

def scanAtom (w : Window) : Item × Window :=
  let (text, after) := w.takeWhile (fun c => !isDelimiter c) []
  match classify text with
  | .ok token => (.ok ⟨token, w.spanTo after⟩, after)
  | .error fault => (.error ⟨fault, w.spanTo after⟩, after)

def scanToken (w : Window) : Item × Window :=
  let upTo (token : Token) (after : Window) : Item × Window :=
    (.ok ⟨token, w.spanTo after⟩, after)
  match w.current with
  | none => upTo .endOfInput w
  | some ';' => upTo .comment (w.skip (· ≠ '\n'))
  | some '(' => upTo .leftParen w.advance
  | some ')' => upTo .rightParen w.advance
  | some '\'' => upTo .quote w.advance
  | some '"' => scanString w "" w.advance
  | some _ => w.scanAtom

def scan (w : Window) : Item × Window := (w.skip Text.isBlank).scanToken

def text (w : Window) : String :=
  "Lexer \x7b\n\tposition: " ++ toString w.position ++ ",\n\tnext_position: "
    ++ toString w.following ++ ",\n\tch: " ++ describeChar? w.current ++ ", next_ch: "
    ++ describeChar? w.next ++ "\n\x7d"

end Window

namespace Cursor

/-- The offset behind the next character. -/
def following (c : Cursor) : Nat := c.offset + (c.rest.head?.map Char.utf8Size).getD 0

/-- What is looked at from a cursor. -/
def window (c : Cursor) : Window where
  position := .ofNat c.offset
  following := .ofNat c.following
  current := c.rest[0]?
  next := c.rest[1]?
  input := Window.indexed (c.following + (c.rest[1]?.map Char.utf8Size).getD 0) (c.rest.drop 2)

def text (c : Cursor) : String := c.window.text

end Cursor

end FrameLisp.Source
