import FrameLisp.Source.Chunk

/-!
# Decoding while scanning

A file that is run is not decoded first: the scanner asks for one character at a time and keeps two
of them ahead. Where the bytes are at fault it gets none, which is what it gets at the end of the
file, too, and the fault is noted aside. When it asks again it gets what stands behind the fault.

What becomes of such a file is put in closed form by `Program.ofStream`.
-/
namespace FrameLisp.Source

open Text

/-- A file that is being decoded, with the two characters that were taken from it last and the
offsets at which they begin. -/
structure CharStream where
  position : Nat
  following : Nat
  current : Option Char
  next : Option Char
  /-- What stands in the bytes that were not decoded yet. -/
  input : List Decoded
  /-- All characters that were decoded, the last one first. -/
  decoded : List Char
  /-- The number of bytes of those. -/
  offset : Nat
  /-- The fault that was met last. -/
  fault : Option FileFault

namespace CharStream

/-- Asks for a character. If there is none, nothing says where it would begin, so that the size of
the one before counts. -/
def advance (s : CharStream) : CharStream :=
  let moved := { s with position := s.following, current := s.next, input := s.input.tail }
  match s.input.head? with
  | some (.char c) =>
    { moved with
      following := s.offset, next := some c
      decoded := c :: s.decoded, offset := s.offset + c.utf8Size }
  | event =>
    { moved with
      following := s.following + (s.next.map Char.utf8Size).getD 0, next := none
      fault := (event.bind Program.faultOf?).or s.fault }

/-- Before anything was decoded. -/
def unread (input : List Decoded) : CharStream :=
  { position := 0, following := 0, current := none, next := none, input
    decoded := [], offset := 0, fault := none }

/-- At the beginning of a file, when two characters were asked for. -/
def start (input : List Decoded) : CharStream := (unread input).advance.advance

/-- A bound on how many characters are left. -/
def left (s : CharStream) : Nat :=
  s.input.length + s.next.toList.length + s.current.toList.length

section Left

variable {s : CharStream}

theorem left_advance_lt {c : Char} (h : s.current = some c) : s.advance.left < s.left := by
  obtain ⟨position, following, current, next, input, decoded, offset, fault⟩ := s
  obtain rfl : current = some c := h
  rcases input with _ | ⟨_ | _ | _, input⟩ <;> simp +arith [advance, left]

theorem left_advance_le (s : CharStream) : s.advance.left ≤ s.left := by
  obtain ⟨position, following, current, next, input, decoded, offset, fault⟩ := s
  rcases input with _ | ⟨_ | _ | _, input⟩ <;> simp +arith [advance, left]

end Left

/-- Past the longest stretch of characters with `p`, which are put behind those in `read`, the last
one first. -/
def takeWhile (p : Char → Bool) (read : List Char) (s : CharStream) : List Char × CharStream :=
  match _h : s.current with
  | none => (read.reverse, s)
  | some c => if p c then takeWhile p (c :: read) s.advance else (read.reverse, s)
  termination_by s.left
  decreasing_by exact left_advance_lt _h

def skip (p : Char → Bool) (s : CharStream) : CharStream := (s.takeWhile p []).2

/-- Reads a string whose quote opens at the offset `start` from behind the quote. -/
def scanString (start : Nat) (value : String) (s : CharStream) : Item × CharStream :=
  match _h : s.current with
  | none => (.error ⟨.unterminatedString, ⟨start, s.advance.position⟩⟩, s.advance)
  | some '"' => (.ok ⟨.string value, ⟨start, s.advance.position⟩⟩, s.advance)
  | some '\\' =>
    match _h' : s.advance.current with
    | none =>
      (.error ⟨.unterminatedString, ⟨start, s.advance.advance.position⟩⟩, s.advance.advance)
    | some c =>
      match Text.unescape? c with
      | some d => scanString start (value.push d) s.advance.advance
      | none =>
        (.error ⟨.unknownEscape c, ⟨s.position, s.advance.advance.position⟩⟩,
          s.advance.advance)
  | some c => scanString start (value.push c) s.advance
  termination_by s.left
  decreasing_by
    · exact Nat.lt_trans (left_advance_lt _h') (left_advance_lt _h)
    · exact left_advance_lt _h

def scanAtom (s : CharStream) : Item × CharStream :=
  let (text, after) := s.takeWhile (fun c => !isDelimiter c) []
  match classify text with
  | .ok token => (.ok ⟨token, ⟨s.position, after.position⟩⟩, after)
  | .error fault => (.error ⟨fault, ⟨s.position, after.position⟩⟩, after)

def scanToken (s : CharStream) : Item × CharStream :=
  let upTo (token : Token) (after : CharStream) : Item × CharStream :=
    (.ok ⟨token, ⟨s.position, after.position⟩⟩, after)
  match s.current with
  | none => upTo .endOfInput s
  | some ';' => upTo .comment (s.skip (· ≠ '\n'))
  | some '(' => upTo .leftParen s.advance
  | some ')' => upTo .rightParen s.advance
  | some '\'' => upTo .quote s.advance
  | some '"' => scanString s.position "" s.advance
  | some _ => s.scanAtom

def scan (s : CharStream) : Item × CharStream := (s.skip Text.isBlank).scanToken

section Left

theorem left_takeWhile_le (p : Char → Bool) (read : List Char) (s : CharStream) :
    (s.takeWhile p read).2.left ≤ s.left := by
  fun_induction takeWhile p read s with
  | case1 => exact Nat.le_refl _
  | case2 read s c hcurrent hp ih => exact Nat.le_trans ih (left_advance_le s)
  | case3 => exact Nat.le_refl _

theorem left_takeWhile_lt {p : Char → Bool} {s : CharStream} {c : Char}
    (hcurrent : s.current = some c) (hp : p c = true) (read : List Char) :
    (s.takeWhile p read).2.left < s.left := by
  rw [takeWhile]
  split
  · next hnone => simp [hcurrent] at hnone
  · next c' hsome =>
    obtain rfl := Option.some.inj (hcurrent.symm.trans hsome)
    rw [if_pos hp]
    exact Nat.lt_of_le_of_lt (left_takeWhile_le p _ _) (left_advance_lt hcurrent)

theorem current_takeWhile {p : Char → Bool} {read : List Char} {s : CharStream} {c : Char}
    (h : (s.takeWhile p read).2.current = some c) : p c = false := by
  fun_induction takeWhile p read s with
  | case1 read s hcurrent => simp [hcurrent] at h
  | case2 read s c' hcurrent hp ih => exact ih h
  | case3 read s c' hcurrent hp =>
    obtain rfl := Option.some.inj (hcurrent.symm.trans h)
    exact Bool.eq_false_iff.2 hp

theorem left_scanString_le (start : Nat) (value : String) (s : CharStream) :
    (scanString start value s).2.left ≤ s.left := by
  have htwice : ∀ s : CharStream, s.advance.advance.left ≤ s.left := fun s =>
    Nat.le_trans (left_advance_le _) (left_advance_le s)
  fun_induction scanString start value s with
  | case1 value s hcurrent => exact left_advance_le s
  | case2 value s hcurrent => exact left_advance_le s
  | case3 value s hcurrent hnext => exact htwice s
  | case4 value s hcurrent c hnext d hd ih => exact Nat.le_trans ih (htwice s)
  | case5 value s hcurrent c hnext hc => exact htwice s
  | case6 value s c hne hne' hcurrent ih => exact Nat.le_trans ih (left_advance_le s)

theorem scanAtom_snd (s : CharStream) : s.scanAtom.2 = s.skip fun c => !isDelimiter c := by
  unfold scanAtom
  dsimp only
  split <;> rfl

theorem left_scanToken_lt {s : CharStream} {c : Char} (hcurrent : s.current = some c)
    (hc : isBlank c = false) : s.scanToken.2.left < s.left := by
  unfold scanToken
  split
  · next hnone => simp [hcurrent] at hnone
  · next hcomment => exact left_takeWhile_lt hcomment (by decide) _
  · next hparen => exact left_advance_lt hparen
  · next hparen => exact left_advance_lt hparen
  · next hquote => exact left_advance_lt hquote
  · next hstring =>
    exact Nat.lt_of_le_of_lt (left_scanString_le _ _ _) (left_advance_lt hstring)
  · rw [scanAtom_snd]
    refine left_takeWhile_lt hcurrent ?_ _
    simp_all [isDelimiter]

/-- Every token and every fault takes at least one character, short of the end. -/
theorem left_scan_lt {s : CharStream} (h : ¬s.scan.1.isEnd = true) : s.scan.2.left < s.left := by
  refine Nat.lt_of_lt_of_le ?_ (left_takeWhile_le isBlank [] s)
  cases hcurrent : (s.skip isBlank).current with
  | none => simp [scan, scanToken, hcurrent, Item.isEnd] at h
  | some c => exact left_scanToken_lt hcurrent (current_takeWhile hcurrent)

end Left

/-- No reading goes on behind the end. -/
theorem not_isEnd_of_advance_eq_more {r r' : Reading} {item : Item}
    (h : r.advance item = .more r') : ¬item.isEnd = true := by
  intro hend
  match item, hend with
  | .ok ⟨token, span⟩, hend =>
    obtain rfl : token = .endOfInput := by simpa [Item.isEnd] using hend
    cases h

/-- Reads items as far as the reading goes on, and returns how far that is. -/
def read (r : Reading) (s : CharStream) : Except SyntaxError Reading × CharStream :=
  match _h : r.advance s.scan.1 with
  | .more r => read r s.scan.2
  | .stop none => (.ok r, s.scan.2)
  | .stop (some e) => (.error e, s.scan.2)
  termination_by s.left
  decreasing_by exact left_scan_lt (not_isEnd_of_advance_eq_more _h)

/-- The program in a file. A fault in its bytes counts if it was met, whatever was read. -/
def program (input : List Decoded) : Except StreamError Program :=
  let (result, s) := read .start (start input)
  match s.fault, result with
  | some f, _ => .error (.fault f)
  | none, .ok r => .ok ⟨r.forms.toList, r.comments.toList⟩
  | none, .error e => .error (.unreadable (String.ofList s.decoded.reverse) e)

end CharStream

end FrameLisp.Source
