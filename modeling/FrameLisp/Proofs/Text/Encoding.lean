import Mathlib
import FrameLisp.Proofs.Text.Decoding

/-!
# Bytes from characters

A row of bytes is decoded as a text if it is the encoding of the text, and not otherwise. Behind its
first byte a character is written in digits of six bits each, and the first byte brings the rest.
-/
namespace FrameLisp.Text

open String (utf8EncodeChar)

/-- The bytes of a code point that follow the first one. -/
def tailBytes (code : Nat) : Nat → List UInt8
  | 0 => []
  | tails + 1 => UInt8.ofNat (code / 64 ^ tails % 64 + 0x80) :: tailBytes code tails

theorem toNat_tailByte (digits : Nat) :
    (UInt8.ofNat (digits % 64 + 0x80)).toNat = digits % 64 + 0x80 := by
  rw [UInt8.toNat_ofNat']
  omega

theorem div_pow_succ (code tails : Nat) :
    code / 64 ^ (tails + 1) = code / 64 ^ tails / 64 := by
  rw [Nat.pow_succ, Nat.div_div_eq_div_mul]

theorem decodeTails_tailBytes (least code tails : Nat) (rest : List UInt8) :
    decodeTails least (code / 64 ^ tails) tails (tailBytes code tails ++ rest) =
      (.ofCodePoint least code, rest) := by
  induction tails with
  | zero => rw [Nat.pow_zero, Nat.div_one, tailBytes, List.nil_append, decodeTails]
  | succ tails ih =>
    have hdigits := Nat.div_add_mod' (code / 64 ^ tails) 64
    rw [tailBytes, List.cons_append, decodeTails, toNat_tailByte, if_pos (by omega),
      Nat.add_sub_cancel, div_pow_succ, hdigits, ih]

/-- Only the digits of a character are read as it. -/
theorem eq_tailBytes_of_decodeTails {least bits tails : Nat} {bytes rest : List UInt8} {c : Char}
    (h : decodeTails least bits tails bytes = (.char c, rest)) :
    bytes = tailBytes c.toNat tails ++ rest ∧ least ≤ c.toNat ∧ c.toNat / 64 ^ tails = bits := by
  induction tails generalizing bits bytes with
  | zero =>
    obtain ⟨hc, rfl⟩ := Prod.mk.inj h
    obtain ⟨hleast, hcode⟩ := ofCodePoint_eq_char hc
    exact ⟨rfl, hcode ▸ hleast, by rw [Nat.pow_zero, Nat.div_one, hcode]⟩
  | succ tails ih =>
    cases bytes with
    | nil => simp [decodeTails] at h
    | cons b bytes =>
      rw [decodeTails] at h
      split at h
      · next hb =>
        obtain ⟨rfl, hleast, hbits⟩ := ih h
        have hdigit : c.toNat / 64 ^ tails % 64 + 0x80 = b.toNat := by omega
        refine ⟨?_, hleast, by rw [div_pow_succ]; omega⟩
        rw [tailBytes, hdigit, UInt8.ofNat_toNat, List.cons_append]
      · cases h

/-- Whether a first byte that announces this is that of a code point. -/
structure Lead.Fits (lead : Lead) (code : Nat) : Prop where
  least : lead.least ≤ code
  bits : code / 64 ^ lead.tails = lead.bits

theorem exists_lead_fits {code : Nat} (hcode : code < 0x110000) :
    ∃ b : UInt8, ∃ lead, lead? b.toNat = some lead ∧ lead.Fits code := by
  have hfirst : ∀ {n : Nat}, n < 0x100 → (UInt8.ofNat n).toNat = n := fun hn => by
    rw [UInt8.toNat_ofNat', Nat.mod_eq_of_lt hn]
  by_cases h₁ : code < 0x80
  · refine ⟨.ofNat code, ⟨code, 0, 0⟩, ?_, Nat.zero_le _, Nat.div_one _⟩
    rw [hfirst (by omega), lead?, if_pos h₁]
  by_cases h₂ : code < 0x800
  · refine ⟨.ofNat (0xC0 + code / 64), ⟨code / 64, 1, 0x80⟩, ?_, Nat.le_of_not_lt h₁, rfl⟩
    rw [hfirst (by omega), lead?, if_neg (by omega), if_neg (by omega), if_pos (by omega),
      Nat.add_sub_cancel_left]
  by_cases h₃ : code < 0x10000
  · refine ⟨.ofNat (0xE0 + code / 64 ^ 2), ⟨code / 64 ^ 2, 2, 0x800⟩, ?_, Nat.le_of_not_lt h₂, rfl⟩
    rw [hfirst (by omega), lead?, if_neg (by omega), if_neg (by omega), if_neg (by omega),
      if_pos (by omega), Nat.add_sub_cancel_left]
  · refine ⟨.ofNat (0xF0 + code / 64 ^ 3), ⟨code / 64 ^ 3, 3, 0x10000⟩, ?_, Nat.le_of_not_lt h₃,
      rfl⟩
    rw [hfirst (by omega), lead?, if_neg (by omega), if_neg (by omega), if_neg (by omega),
      if_neg (by omega), if_pos (by omega), Nat.add_sub_cancel_left]

theorem utf8EncodeChar_of_fits {b : UInt8} {lead : Lead} {c : Char}
    (hlead : lead? b.toNat = some lead) (hfits : lead.Fits c.toNat) :
    utf8EncodeChar c = b :: tailBytes c.toNat lead.tails := by
  obtain ⟨hleast, hbits⟩ := hfits
  have hfirst : ∀ {n : Nat}, n = b.toNat → UInt8.ofNat n = b := fun hn => by
    rw [hn, UInt8.ofNat_toNat]
  have hcode : c.val.toNat = c.toNat := rfl
  rw [utf8EncodeChar, hcode]
  rw [lead?] at hlead
  split at hlead
  · obtain rfl := Option.some.inj hlead
    dsimp only at hleast hbits
    rw [if_pos (by omega), hfirst (by omega), tailBytes]
  split at hlead
  · cases hlead
  split at hlead
  · obtain rfl := Option.some.inj hlead
    dsimp only at hleast hbits
    rw [if_neg (by omega), if_pos (by omega), hfirst (by omega)]
    simp [tailBytes]
  split at hlead
  · obtain rfl := Option.some.inj hlead
    dsimp only at hleast hbits
    rw [if_neg (by omega), if_neg (by omega), if_pos (by omega), hfirst (by omega)]
    simp [tailBytes]
  split at hlead
  · obtain rfl := Option.some.inj hlead
    dsimp only at hleast hbits
    rw [if_neg (by omega), if_neg (by omega), if_neg (by omega), hfirst (by omega)]
    simp [tailBytes]
  · cases hlead

theorem toNat_lt (c : Char) : c.toNat < 0x110000 := by
  rcases c.valid with h | h
  · exact h.trans (by decide)
  · exact h.2

theorem ofCodePoint_toNat {least : Nat} {c : Char} (h : least ≤ c.toNat) :
    Decoded.ofCodePoint least c.toNat = .char c := by
  rw [Decoded.ofCodePoint, if_pos ⟨h, c.valid⟩, Char.ofNat_toNat]

theorem decodeFirst_eq_of_encode {b : UInt8} {c : Char} {tails : List UInt8}
    (h : utf8EncodeChar c = b :: tails) (rest : List UInt8) :
    decodeFirst b (tails ++ rest) = (.char c, rest) := by
  obtain ⟨b', lead, hlead, hfits⟩ := exists_lead_fits (toNat_lt c)
  obtain ⟨rfl, rfl⟩ := List.cons.inj ((utf8EncodeChar_of_fits hlead hfits).symm.trans h)
  rw [decodeFirst, hlead]
  dsimp only
  rw [← hfits.bits, decodeTails_tailBytes, ofCodePoint_toNat hfits.least]

theorem encode_of_decodeFirst {b : UInt8} {bytes rest : List UInt8} {c : Char}
    (h : decodeFirst b bytes = (.char c, rest)) : b :: bytes = utf8EncodeChar c ++ rest := by
  rw [decodeFirst] at h
  split at h
  · next lead hlead =>
    obtain ⟨rfl, hleast, hbits⟩ := eq_tailBytes_of_decodeTails h
    rw [utf8EncodeChar_of_fits hlead ⟨hleast, hbits⟩, List.cons_append]
  · cases h

section Texts

variable {bytes : List UInt8} {cs : List Char}

theorem exists_utf8EncodeChar_eq_cons (c : Char) : ∃ b tails, utf8EncodeChar c = b :: tails := by
  obtain ⟨b, lead, hlead, hfits⟩ := exists_lead_fits (toNat_lt c)
  exact ⟨b, _, utf8EncodeChar_of_fits hlead hfits⟩

theorem decode_utf8EncodeChar_append (c : Char) (rest : List UInt8) :
    decode (utf8EncodeChar c ++ rest) = .char c :: decode rest := by
  obtain ⟨b, tails, hc⟩ := exists_utf8EncodeChar_eq_cons c
  rw [hc, List.cons_append, decode_cons, decodeFirst_eq_of_encode hc]

/-- Characters are decoded from their encoding only. -/
theorem decode_eq_map_iff : decode bytes = cs.map .char ↔ cs.flatMap utf8EncodeChar = bytes := by
  induction cs generalizing bytes with
  | nil =>
    cases bytes with
    | nil => simp
    | cons b bytes => simp [decode_cons]
  | cons c cs ih =>
    constructor
    · intro h
      match bytes, h with
      | [], h => simp at h
      | b :: bytes, h =>
        rw [decode_cons] at h
        obtain ⟨hfirst, hrest⟩ := List.cons.inj h
        rw [List.flatMap_cons, ih.1 hrest, encode_of_decodeFirst (Prod.ext hfirst rfl)]
    · rintro rfl
      rw [List.flatMap_cons, decode_utf8EncodeChar_append, ih.2 rfl, List.map_cons]

theorem decode?_eq_some_iff : decode? bytes = some cs ↔ decode bytes = cs.map .char := by
  refine ⟨decode_eq_of_decode?, fun h => ?_⟩
  have hall : (cs.map Decoded.char).all (·.char?.isSome) = true := by simp [Decoded.char?]
  rw [decode?, h, if_pos hall, List.filterMap_map]
  exact congrArg some List.filterMap_some

theorem toByteArray_injective {bytes bytes' : List UInt8}
    (h : bytes.toByteArray = bytes'.toByteArray) : bytes = bytes' := by
  rw [← List.toList_data_toByteArray (l := bytes), h, List.toList_data_toByteArray]

/-- The bytes that are decoded as a text are those of the text. -/
theorem decode?_eq_some_iff_toUTF8 {text : String} :
    decode? bytes = some text.toList ↔ text.toUTF8 = bytes.toByteArray := by
  have htext : text.toUTF8 = (text.toList.flatMap utf8EncodeChar).toByteArray := by
    conv_lhs => rw [← String.ofList_toList (s := text)]
    rfl
  rw [decode?_eq_some_iff, decode_eq_map_iff, htext]
  exact ⟨congrArg _, toByteArray_injective⟩

end Texts

end FrameLisp.Text
