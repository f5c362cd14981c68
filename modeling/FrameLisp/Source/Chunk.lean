import FrameLisp.Eval.Error
import FrameLisp.Source.Reading
import FrameLisp.Text.Decoding
import FrameLisp.Text.Lines

/-!
# Texts that are read in pieces

A file can be read line by line: lines are gathered until they can be read as whole forms, so that
the forms of a chunk may be evaluated before later lines are looked at. Or it can be read as one
stream of characters, of which the scanner looks two characters ahead and no further.
-/
namespace FrameLisp.Source

open Text

/-- What a few lines of a file turn out to be. -/
inductive Chunk where
  | forms (data : List Datum)
  | unreadable (source : String) (error : SyntaxError)
  | fault (f : FileFault)

namespace Chunk

/-- Gathers lines behind the text `pending` that is still incomplete. Blank lines between chunks
are passed over, and nothing follows a chunk that is at fault. -/
def ofLines (pending : List Char) : List (List UInt8) → List Chunk
  | [] =>
    match Program.ofChars pending with
    | .ok _ => []
    | .error e => [.unreadable (String.ofList pending) e]
  | line :: lines =>
    match decode? line with
    | none => [.fault .invalidData]
    | some cs =>
      if isBlankLine cs && pending.isEmpty then ofLines pending lines
      else
        let pending := pending ++ cs ++ ['\n']
        match Program.ofChars pending with
        | .ok program => .forms program.data :: ofLines [] lines
        | .error e =>
          if e.isIncomplete then ofLines pending lines
          else [.unreadable (String.ofList pending) e]

def ofBytes (bytes : List UInt8) : List Chunk := ofLines [] ((lines bytes).map lineContent)

end Chunk

/-- Why a stream of characters is not a program. -/
inductive StreamError where
  | fault (f : FileFault)
  /-- The `source` is what was read by the time of the error. -/
  | unreadable (source : String) (error : SyntaxError)

namespace Program

/-- The number of characters that begin before a byte offset. -/
def charsBefore (offset : Nat) : List Char → Nat
  | [] => 0
  | c :: cs => if offset = 0 then 0 else charsBefore (offset - c.utf8Size) cs + 1

/-- How many characters are asked for when the text before a fault is read as `result`: all up to
where reading stopped, two more, and a third in search of a closing quote. -/
def requested (cs : List Char) (result : Except SyntaxError Program) : Nat :=
  match result with
  | .ok _ => cs.length + 2
  | .error e =>
    match e.fault with
    | .lexical ⟨.unterminatedString, _⟩ => cs.length + 3
    | _ => charsBefore e.span.stop cs + 2

def faultOf? : Decoded → Option FileFault
  | .char _ => none
  | .invalid => some .invalidData
  | .truncated => some .unexpectedEnd

/-- Reads a stream of characters as a program. A fault in the bytes counts only when it was asked
for, and then more than any error of syntax; of several the last one is reported. -/
def ofStream (bytes : List UInt8) : Except StreamError Program :=
  let events := decode bytes
  let cs := Decoded.leading events
  let result := ofChars cs
  let count := requested cs result
  match ((events.take count).filterMap faultOf?).getLast? with
  | some f => .error (.fault f)
  | none =>
    match result with
    | .ok program => .ok program
    | .error e => .error (.unreadable (String.ofList (cs.take count)) e)

end Program

end FrameLisp.Source
