/-!
# Characters from bytes

UTF-8: no overlong forms, no surrogates, nothing above U+10FFFF. A first byte announces how many
bytes follow, and only when all of them have been read does it show whether they are a character;
a byte that does not continue a character ends it and is read again as a first byte.
-/
namespace FrameLisp.Text

/-- What stands at a place in a row of bytes. -/
inductive Decoded where
  | char (c : Char)
  | invalid
  /-- The bytes end inside a character. -/
  | truncated
  deriving DecidableEq

/-- What a first byte announces: the bits it brings, how many bytes follow, and the least code
point that needs so many. -/
structure Lead where
  bits : Nat
  tails : Nat
  least : Nat

def lead? (b : Nat) : Option Lead :=
  if b < 0x80 then some ⟨b, 0, 0⟩
  else if b < 0xC0 then none
  else if b < 0xE0 then some ⟨b - 0xC0, 1, 0x80⟩
  else if b < 0xF0 then some ⟨b - 0xE0, 2, 0x800⟩
  else if b < 0xF8 then some ⟨b - 0xF0, 3, 0x10000⟩
  else none

/-- The character with a code point, which is at least `least`. -/
def Decoded.ofCodePoint (least code : Nat) : Decoded :=
  if least ≤ code ∧ code.isValidChar then .char (Char.ofNat code) else .invalid

/-- Reads the bytes that follow a first one. -/
def decodeTails (least bits : Nat) : Nat → List UInt8 → Decoded × List UInt8
  | 0, bytes => (.ofCodePoint least bits, bytes)
  | _ + 1, [] => (.truncated, [])
  | tails + 1, b :: bytes =>
    if 0x80 ≤ b.toNat ∧ b.toNat < 0xC0 then
      decodeTails least (bits * 64 + (b.toNat - 0x80)) tails bytes
    else (.invalid, b :: bytes)

/-- Reads a character that begins with the byte `b`. -/
def decodeFirst (b : UInt8) (bytes : List UInt8) : Decoded × List UInt8 :=
  match lead? b.toNat with
  | some lead => decodeTails lead.least lead.bits lead.tails bytes
  | none => (.invalid, bytes)

theorem decodeTails_length_le (least bits tails : Nat) (bytes : List UInt8) :
    (decodeTails least bits tails bytes).2.length ≤ bytes.length := by
  induction tails generalizing bits bytes with
  | zero => simp [decodeTails]
  | succ tails ih =>
    match bytes with
    | [] => simp [decodeTails]
    | b :: bytes =>
      simp only [decodeTails]
      split
      · exact Nat.le_succ_of_le (ih _ _)
      · simp

theorem decodeFirst_length_le (b : UInt8) (bytes : List UInt8) :
    (decodeFirst b bytes).2.length ≤ bytes.length := by
  unfold decodeFirst
  split
  · exact decodeTails_length_le _ _ _ _
  · simp

/-- The characters and faults in a row of bytes, after those in `read`. -/
def decodeFrom (read : Array Decoded) : List UInt8 → Array Decoded
  | [] => read
  | b :: bytes => decodeFrom (read.push (decodeFirst b bytes).1) (decodeFirst b bytes).2
  termination_by bytes => bytes.length
  decreasing_by exact Nat.lt_succ_of_le (decodeFirst_length_le b bytes)

def decode (bytes : List UInt8) : List Decoded := (decodeFrom #[] bytes).toList

namespace Decoded

def char? : Decoded → Option Char
  | .char c => some c
  | _ => none

/-- The characters before the first fault. -/
def leading (events : List Decoded) : List Char :=
  (events.takeWhile fun e => e.char?.isSome).filterMap char?

end Decoded

/-- The characters of a valid row of bytes. -/
def decode? (bytes : List UInt8) : Option (List Char) :=
  let events := decode bytes
  if events.all fun e => e.char?.isSome then some (events.filterMap Decoded.char?) else none

end FrameLisp.Text
