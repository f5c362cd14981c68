import FrameLisp.Source.Atom

/-!
# Scanning a source text

A cursor stands at a byte offset before the rest of the text. `scan` skips white space and reads
one token; it always moves forward, also past a faulty token, until the end of the text, where it
stays.
-/
namespace FrameLisp.Source

structure Cursor where
  offset : Nat
  rest : List Char

/-- A token, or what is wrong with it. -/
abbrev Item := Except LexicalError Lexeme

def Item.isEnd : Item → Bool
  | .ok lexeme => lexeme.token = .endOfInput
  | .error _ => false

namespace Cursor

def ofString (s : String) : Cursor := ⟨0, s.toList⟩

/-- Past the longest stretch of characters with `p`. -/
def skipFrom (p : Char → Bool) (offset : Nat) : List Char → Cursor
  | [] => ⟨offset, []⟩
  | c :: cs => if p c then skipFrom p (offset + c.utf8Size) cs else ⟨offset, c :: cs⟩

def skip (p : Char → Bool) (c : Cursor) : Cursor := skipFrom p c.offset c.rest

/-- Reads a string from behind its opening quote at `start`; `value` is the text so far. -/
def scanString (start : Nat) (value : String) (offset : Nat) : List Char → Item × Cursor
  | [] => (.error ⟨.unterminatedString, ⟨start, offset⟩⟩, ⟨offset, []⟩)
  | '"' :: cs => (.ok ⟨.string value, ⟨start, offset + 1⟩⟩, ⟨offset + 1, cs⟩)
  | ['\\'] => (.error ⟨.unterminatedString, ⟨start, offset + 1⟩⟩, ⟨offset + 1, []⟩)
  | '\\' :: c :: cs =>
    match Text.unescape? c with
    | some d => scanString start (value.push d) (offset + 1 + c.utf8Size) cs
    | none =>
      (.error ⟨.unknownEscape c, ⟨offset, offset + 1 + c.utf8Size⟩⟩,
        ⟨offset + 1 + c.utf8Size, cs⟩)
  | c :: cs => scanString start (value.push c) (offset + c.utf8Size) cs

/-- Reads an atom that begins at the cursor. -/
def scanAtom (c : Cursor) : Item × Cursor :=
  let after := c.skip fun ch => !isDelimiter ch
  let span : Span := ⟨c.offset, after.offset⟩
  match classify (c.rest.takeWhile fun ch => !isDelimiter ch) with
  | .ok token => (.ok ⟨token, span⟩, after)
  | .error fault => (.error ⟨fault, span⟩, after)

/-- Reads a token that begins at the cursor. -/
def scanToken (c : Cursor) : Item × Cursor :=
  let single (token : Token) (cs : List Char) : Item × Cursor :=
    (.ok ⟨token, ⟨c.offset, c.offset + 1⟩⟩, ⟨c.offset + 1, cs⟩)
  match c.rest with
  | [] => (.ok ⟨.endOfInput, .point c.offset⟩, c)
  | '(' :: cs => single .leftParen cs
  | ')' :: cs => single .rightParen cs
  | '\'' :: cs => single .quote cs
  | ';' :: _ =>
    let after := c.skip (· ≠ '\n')
    (.ok ⟨.comment, ⟨c.offset, after.offset⟩⟩, after)
  | '"' :: cs => scanString c.offset "" (c.offset + 1) cs
  | _ :: _ => c.scanAtom

def scan (c : Cursor) : Item × Cursor := (c.skip Text.isBlank).scanToken

theorem skipFrom_rest_length_le (p : Char → Bool) (offset : Nat) (cs : List Char) :
    (skipFrom p offset cs).rest.length ≤ cs.length := by
  induction cs generalizing offset with
  | nil => simp [skipFrom]
  | cons c cs ih =>
    simp only [skipFrom]
    split
    · exact Nat.le_succ_of_le (ih _)
    · simp

theorem scanString_rest_length_le (start : Nat) (value : String) (offset : Nat)
    (cs : List Char) : (scanString start value offset cs).2.rest.length ≤ cs.length := by
  fun_induction scanString start value offset cs <;> simp_all <;> omega

/-- A character that opens no other token belongs to the atom that begins with it. -/
theorem skip_rest_length_lt {c : Cursor} {p : Char → Bool} {ch : Char} {cs : List Char}
    (hrest : c.rest = ch :: cs) (hp : p ch = true) :
    (c.skip p).rest.length < c.rest.length := by
  simp only [skip, hrest, skipFrom, hp, if_true, List.length_cons]
  exact Nat.lt_succ_of_le (skipFrom_rest_length_le _ _ _)

theorem skipFrom_rest_head {p : Char → Bool} {offset : Nat} {cs : List Char} {ch : Char}
    {rest : List Char} (h : (skipFrom p offset cs).rest = ch :: rest) : p ch = false := by
  induction cs generalizing offset with
  | nil => simp [skipFrom] at h
  | cons c cs ih =>
    simp only [skipFrom] at h
    split at h
    · exact ih h
    · simp_all

theorem skip_rest_length_le (c : Cursor) (p : Char → Bool) :
    (c.skip p).rest.length ≤ c.rest.length := skipFrom_rest_length_le _ _ _

theorem scanAtom_snd (c : Cursor) : c.scanAtom.2 = c.skip fun ch => !isDelimiter ch := by
  unfold scanAtom
  split <;> rfl

theorem scanToken_rest_length_lt {c : Cursor} {ch : Char} {cs : List Char}
    (h : c.rest = ch :: cs) (hch : Text.isBlank ch = false) :
    c.scanToken.2.rest.length < c.rest.length := by
  unfold scanToken
  split
  case h_1 heq => simp [h] at heq
  case h_2 heq => simp [heq]
  case h_3 heq => simp [heq]
  case h_4 heq => simp [heq]
  case h_5 heq => exact skip_rest_length_lt heq (by decide)
  case h_6 heq =>
    rw [heq]
    exact Nat.lt_succ_of_le (scanString_rest_length_le _ _ _ _)
  case h_7 heq =>
    rw [scanAtom_snd]
    refine skip_rest_length_lt h ?_
    simp_all [isDelimiter]

/-- Every token and every fault takes at least one character, short of the end of the text. -/
theorem scan_rest_length_lt {c : Cursor} (h : ¬c.scan.1.isEnd = true) :
    c.scan.2.rest.length < c.rest.length := by
  refine Nat.lt_of_lt_of_le ?_ (skip_rest_length_le c Text.isBlank)
  match hrest : (c.skip Text.isBlank).rest with
  | [] => simp [scan, scanToken, hrest, Item.isEnd] at h
  | _ :: _ =>
    rw [← hrest]
    exact scanToken_rest_length_lt hrest (skipFrom_rest_head hrest)

/-- The items of the text from the cursor on, each with the cursor before it, after those in
`read`; the last one is the end of the text. -/
def scanAll (read : Array (Cursor × Item)) (c : Cursor) : Array (Cursor × Item) :=
  if c.scan.1.isEnd then read.push (c, c.scan.1)
  else scanAll (read.push (c, c.scan.1)) c.scan.2
  termination_by c.rest.length
  decreasing_by exact scan_rest_length_lt ‹_›

end Cursor

end FrameLisp.Source
