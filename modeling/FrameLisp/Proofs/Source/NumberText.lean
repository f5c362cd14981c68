import FrameLisp.Proofs.Numeric.Shortest
import FrameLisp.Proofs.Source.Atoms
import FrameLisp.Source.Reading

/-!
# The texts of numbers are read back

The text of an exact number is an integer or a fraction of its numerator and its denominator. The
text of a finite floating point number is a decimal number that has a point or a power of ten,
whatever its layout, and spells the shortest decimal that rounds to the number.
-/
namespace FrameLisp.Source

open Numeric

section Digits

theorem isDigit_iff {c : Char} : isDigit c = true ↔ c.isDigit = true := by
  simp [isDigit, Char.isDigit, Char.le_def]

theorem digitsValue_eq {cs : List Char} (h : ∀ c ∈ cs, isDigit c = true) :
    digitsValue cs = Nat.ofDigitChars 10 cs 0 := by
  rw [digitsValue, Nat.ofDigitChars_eq_foldl]
  refine List.foldl_ext _ _ 0 fun n c hc => ?_
  rw [if_pos (h c hc)]
  rfl

theorem areDigits_toDigits (n : Nat) : AreDigits 1 (Nat.toDigits 10 n) :=
  ⟨Nat.length_toDigits_pos, fun _ hc => isDigit_iff.2
    (Nat.isDigit_of_mem_toDigits (by decide) (by decide) hc)⟩

/-- The digits of a number between zeros. -/
def paddedDigits (before : Nat) (n : Nat) (behind : Nat) : List Char :=
  List.replicate before '0' ++ Nat.toDigits 10 n ++ List.replicate behind '0'

theorem areDigits_paddedDigits (before n behind : Nat) :
    AreDigits 1 (paddedDigits before n behind) := by
  have hzero : isDigit '0' = true := by decide
  obtain ⟨hlength, hdigits⟩ := areDigits_toDigits n
  refine ⟨by simp [paddedDigits]; omega, ?_⟩
  simp only [paddedDigits, List.forall_mem_append, List.mem_replicate]
  exact ⟨⟨fun c hc => hc.2 ▸ hzero, hdigits⟩, fun c hc => hc.2 ▸ hzero⟩

theorem digitsValue_paddedDigits (before n behind : Nat) :
    digitsValue (paddedDigits before n behind) = n * 10 ^ behind := by
  rw [digitsValue_eq (areDigits_paddedDigits before n behind).2, paddedDigits,
    Nat.ofDigitChars_append, Nat.ofDigitChars_append, Nat.ofDigitChars_replicate_zero,
    Nat.ofDigitChars_replicate_zero, Nat.mul_zero, Nat.ofDigitChars_ten_toDigits, Nat.mul_comm]

theorem digitsValue_toDigits (n : Nat) : digitsValue (Nat.toDigits 10 n) = n := by
  simpa [paddedDigits] using digitsValue_paddedDigits 0 n 0

theorem AreDigits.isNumeral {cs : List Char} (h : AreDigits 1 cs) : IsNumeral cs := by
  match cs with
  | [] => exact absurd h.1 (by simp)
  | c :: cs =>
    obtain ⟨hc, hcs⟩ := List.forall_mem_cons.1 h.2
    exact ⟨hc, fun x hx => .inl (hcs x hx)⟩

end Digits

section Delimiters

variable {cs : List Char}

theorem isDelimiter_of_isDigit {c : Char} (h : isDigit c = true) : isDelimiter c = false := by
  have hrange : 48 ≤ c.toNat ∧ c.toNat ≤ 57 := by
    simpa [isDigit, Char.le_def, UInt32.le_iff_toNat_le] using h
  have hblank : Text.isBlank c = false := by
    simp [Text.isBlank, Text.Ranges.contains, Text.whiteSpace]
    omega
  have hne : c ∉ ['(', ')', '"', ';', '\''] := by
    intro hc
    have hall : ∀ c ∈ ['(', ')', '"', ';', '\''], isDigit c = false := by simp [isDigit]
    rw [hall c hc] at h
    cases h
  simp_all [isDelimiter]

/-- The other characters of numbers. -/
theorem isDelimiter_of_mem :
    ∀ c ∈ ['_', '.', 'e', 'E', '+', '-', '/'], isDelimiter c = false := by
  simp [isDelimiter, Text.isBlank, Text.Ranges.contains, Text.whiteSpace]

theorem IsDecimal.undelimited (h : IsDecimal cs) : ∀ c ∈ cs, isDelimiter c = false := by
  intro c hc
  rcases h.mem c hc with hc | hc
  · exact isDelimiter_of_isDigit hc
  · refine isDelimiter_of_mem c ?_
    revert hc
    simp only [List.mem_cons]
    tauto

theorem IsInteger.undelimited (h : IsInteger cs) : ∀ c ∈ cs, isDelimiter c = false := by
  intro c hc
  rcases h.mem hc with (hc | rfl) | rfl | rfl
  · exact isDelimiter_of_isDigit hc
  all_goals exact isDelimiter_of_mem _ (by simp)

end Delimiters

section Exact

theorem isNumeral_toString (n : Nat) :
    IsNumeral (toString n).toList ∧ digitsValue (toString n).toList = n := by
  rw [Nat.toString_eq_repr, Nat.toList_repr]
  exact ⟨(areDigits_toDigits n).isNumeral, digitsValue_toDigits n⟩

theorem toList_toString_int (n : Int) : (toString n).toList =
    if 0 ≤ n then Nat.toDigits 10 n.toNat else '-' :: Nat.toDigits 10 (-n).toNat := by
  rw [Int.toString_eq_repr, Int.repr_eq_if]
  split <;> simp

theorem signed_toString_int {n : Int} : Signed (AreDigits 1) (toString n).toList := by
  rw [toList_toString_int]
  split
  · exact .inl (areDigits_toDigits _)
  · exact .inr ⟨_, .inr rfl, areDigits_toDigits _⟩

theorem integerValue_toString (n : Int) : integerValue (toString n).toList = n := by
  rw [toList_toString_int]
  split
  · next hn =>
    rw [integerValue_of_noSign (noSign_of_unsigned unsigned_areDigits (areDigits_toDigits _)),
      digitsValue_toDigits]
    omega
  · next hn =>
    rw [integerValue, digitsValue_toDigits]
    omega

theorem isInteger_toString (n : Int) : IsInteger (toString n).toList :=
  signed_toString_int.mono fun _ => AreDigits.isNumeral

/-- The text of an exact number is read as this number. -/
theorem spellsAtom_ratText (q : Rat) :
    SpellsAtom (Number.ratText q).toList (.number (.exact q)) := by
  have hn := isInteger_toString q.num
  rw [Number.ratText]
  split
  · next hden =>
    have hq : (q.num : Rat) = q := Rat.coe_int_num_of_den_eq_one hden
    refine ⟨hn.ne_nil, hn.undelimited, _, classify_of_isInteger hn, ?_⟩
    rw [integerValue_toString, Place.atom?, Number.ofInt, hq]
  · obtain ⟨hd, hvalue⟩ := isNumeral_toString q.den
    have hq : (q.num : Rat) / ((q.den : Int) : Rat) = q := by
      rw [Int.cast_natCast]
      exact Rat.num_div_den q
    have htext : (toString q.num ++ "/" ++ toString q.den).toList =
        (toString q.num).toList ++ '/' :: (toString q.den).toList := by
      simp
    rw [htext]
    refine ⟨by simp, ?_, .rational q, ?_, rfl⟩
    · refine List.forall_mem_append.2 ⟨hn.undelimited, List.forall_mem_cons.2 ⟨?_, ?_⟩⟩
      · exact isDelimiter_of_mem '/' (by simp)
      · exact IsInteger.undelimited (.inl hd)
    · rw [classify_of_fraction hn hd, hvalue, if_neg q.den_ne_zero, integerValue_toString, hq]

end Exact

section Layout

/-- An unsigned decimal number with a point or a power of ten that is read from its digits, which
may have got zeros behind. -/
structure SpellsDecimal (cs : List Char) (digits : Nat) (p : Int) : Prop where
  mark : ∃ c ∈ cs, c = '.' ∨ c = 'e'
  exists_read : ∃ behind : Nat, ∀ negative, magnitude? negative cs =
    some (.ofDecimal negative (digits * 10 ^ behind) (p - behind))

variable {whole fraction exponent : List Char} {e p : Int} {before n behind : Nat}

theorem splitMantissa_point (h : whole ++ fraction = paddedDigits before n behind) :
    SplitMantissa whole fraction (whole ++ '.' :: fraction) := by
  obtain ⟨hlength, hdigits⟩ := h ▸ areDigits_paddedDigits before n behind
  obtain ⟨hwhole, hfraction⟩ := List.forall_mem_append.1 hdigits
  exact .point ⟨Nat.zero_le _, hwhole⟩ ⟨Nat.zero_le _, hfraction⟩ (by simpa using hlength)

/-- Digits with a point between them, as many behind it as the power of ten says. -/
theorem spellsDecimal_point (h : whole ++ fraction = paddedDigits before n behind)
    (hp : p = behind - fraction.length) : SpellsDecimal (whole ++ '.' :: fraction) n p := by
  refine ⟨⟨'.', by simp, .inl rfl⟩, behind, fun negative => ?_⟩
  have hread := magnitude?_eq negative (splitMantissa_point h) .none
  have hexponent : (0 : Int) - fraction.length = p - behind := by omega
  rwa [List.append_nil, h, digitsValue_paddedDigits, hexponent] at hread

/-- The digits with a point behind the first one, if there are more, and a power of ten. -/
theorem spellsDecimal_scientific {first more : List Char}
    (h : first ++ more = Nat.toDigits 10 n) (hp : p = e - more.length) :
    SpellsDecimal (first ++ (if more.isEmpty then [] else '.' :: more) ++
      'e' :: (toString e).toList) n p := by
  have hexponent : SplitExponent ('e' :: (toString e).toList) e := by
    have hvalue := SplitExponent.some (.inl rfl) (signed_toString_int (n := e))
    rwa [integerValue_toString] at hvalue
  refine ⟨⟨'e', by simp, .inr rfl⟩, 0, fun negative => ?_⟩
  rw [Nat.pow_zero, Nat.mul_one, Nat.cast_zero, sub_zero, hp]
  split
  · next hempty =>
    obtain rfl := List.isEmpty_iff.1 hempty
    rw [List.append_nil] at h
    have hm : SplitMantissa first [] first := .whole (h ▸ areDigits_toDigits n)
    rw [List.append_nil, magnitude?_eq negative hm hexponent, List.append_nil, h,
      digitsValue_toDigits]
  · have hpadded : first ++ more = paddedDigits 0 n 0 := h.trans (by simp [paddedDigits])
    rw [magnitude?_eq negative (splitMantissa_point hpadded) hexponent, h, digitsValue_toDigits]

theorem toList_zeros (n : Nat) : (zeros n).toList = List.replicate n '0' := by
  rw [zeros, String.pushn_eq_repeat_push]
  induction n with
  | zero => rfl
  | succ n ih => rw [Nat.repeat, String.toList_push, ih, List.replicate_succ']

/-- However a decimal is laid out, it is read as that decimal. -/
theorem spellsDecimal_decimal (style : FloatStyle) (digits : Nat) (p : Int) :
    SpellsDecimal (style.decimal digits p).toList digits p := by
  have htext : (toString digits).toList = Nat.toDigits 10 digits := by simp
  have hlength : ((toString digits).length : Int) = (Nat.toDigits 10 digits).length := by
    rw [← htext, String.length_toList]
  rw [FloatStyle.decimal]
  dsimp only
  rw [hlength]
  generalize hk : ((Nat.toDigits 10 digits).length : Int) + p = k
  split
  · split
    · have h : ['0'] ++ (List.replicate (-k).toNat '0' ++ Nat.toDigits 10 digits) =
          paddedDigits ((-k).toNat + 1) digits 0 := by
        simp [paddedDigits, List.replicate_succ]
      simpa [toList_zeros] using spellsDecimal_point h (by simp; omega)
    · split
      · have h : (Nat.toDigits 10 digits ++ List.replicate p.toNat '0') ++ ['0'] =
            paddedDigits 0 digits (p.toNat + 1) := by
          simp [paddedDigits, List.replicate_succ']
        simpa [toList_zeros] using spellsDecimal_point h (by simp; omega)
      · have h : (Nat.toDigits 10 digits).take k.toNat ++ (Nat.toDigits 10 digits).drop k.toNat =
            paddedDigits 0 digits 0 := by
          simp [paddedDigits]
        simpa using spellsDecimal_point h (by simp; omega)
  · have h := List.take_append_drop 1 (Nat.toDigits 10 digits)
    have hpos := (areDigits_toDigits digits).1
    have hp : p = (k - 1) - ((Nat.toDigits 10 digits).drop 1).length := by
      rw [List.length_drop]
      omega
    simpa [htext, apply_ite String.toList] using spellsDecimal_scientific h hp

end Layout

section Inexact

theorem spellsDecimal_zero : SpellsDecimal "0.0".toList 0 0 := by
  have h : ['0'] ++ ['0'] = paddedDigits 0 0 1 := by simp [paddedDigits]
  simpa using spellsDecimal_point h (p := 0) (by simp)

/-- The text of the magnitude of a finite number. -/
def magnitudeText (x : Binary64.Finite) : List Char :=
  (if x.mantissa = 0 then "0.0" else FloatStyle.value.decimal x.shortest.1 x.shortest.2).toList

theorem mark_magnitudeText (x : Binary64.Finite) :
    ∃ c ∈ magnitudeText x, c = '.' ∨ c = 'e' := by
  rw [magnitudeText]
  split
  · exact spellsDecimal_zero.mark
  · exact (spellsDecimal_decimal .value x.shortest.1 x.shortest.2).mark

/-- A number is read back from the text of its magnitude, with the sign that it is given. -/
theorem magnitude?_magnitudeText (x : Binary64.Finite) (negative : Bool) :
    magnitude? negative (magnitudeText x) = some (.finite (x.signed negative)) := by
  rw [magnitudeText]
  split
  · next hzero =>
    obtain ⟨sign, m, e, hcanonical⟩ := x
    obtain rfl : m = 0 := hzero
    obtain rfl : e = -1074 := hcanonical.2.2.2 (by decide)
    obtain ⟨behind, hread⟩ := spellsDecimal_zero.exists_read
    rw [hread, Nat.zero_mul]
    rfl
  · next hpos =>
    obtain ⟨behind, hread⟩ := (spellsDecimal_decimal .value x.shortest.1 x.shortest.2).exists_read
    have hm : 0 < x.mantissa := Nat.pos_of_ne_zero hpos
    have hvalue : ((x.shortest.1 * 10 ^ behind : Nat) : ℚ) * 10 ^ (x.shortest.2 - behind) =
        x.shortest.1 * 10 ^ x.shortest.2 := by
      rw [zpow_sub₀ (by norm_num), zpow_natCast]
      push_cast
      field_simp
    rw [hread, Binary64.Finite.ofDecimal_eq (hvalue ▸ Binary64.Finite.catches_shortest hm) hm]

theorem toList_text (x : Binary64.Finite) : (Binary64.text .value (.finite x)).toList =
    (if x.negative then ['-'] else []) ++ magnitudeText x := by
  rw [Binary64.text, String.toList_append, magnitudeText]
  cases x.negative <;> rfl

theorem decimal?_text (x : Binary64.Finite) :
    decimal? (Binary64.text .value (.finite x)).toList = some (.finite x) := by
  rw [toList_text]
  have hread := magnitude?_magnitudeText x x.negative
  have hsigned : x.signed x.negative = x := rfl
  rw [hsigned] at hread
  cases hsign : x.negative with
  | true =>
    rw [hsign] at hread
    exact hread
  | false =>
    rw [hsign] at hread
    have hmagnitude : IsMagnitude (magnitudeText x) := isMagnitude_iff.2 ⟨_, hread⟩
    exact (decimal?_of_noSign (noSign_of_unsigned unsigned_isMagnitude hmagnitude)).trans hread

/-- The text of a finite floating point number is read as this number. -/
theorem spellsAtom_float (x : Binary64.Finite) : SpellsAtom
    (Binary64.text .value (.finite x)).toList (.number (.inexact (.finite x))) := by
  have hdecimal := isDecimal_iff.2 ⟨_, decimal?_text x⟩
  obtain ⟨c, hc, hmark⟩ := mark_magnitudeText x
  have hmem : c ∈ (Binary64.text .value (.finite x)).toList :=
    toList_text x ▸ List.mem_append_right _ hc
  have hinteger : ¬IsInteger (Binary64.text .value (.finite x)).toList := by
    intro hinteger
    have hallowed := hinteger.mem hmem
    rcases hmark with rfl | rfl
    · exact absurd hallowed (by decide)
    · exact absurd hallowed (by decide)
  exact ⟨List.ne_nil_of_mem hmem, hdecimal.undelimited, _,
    classify_of_decimal (decimal?_text x) hinteger, rfl⟩

end Inexact

end FrameLisp.Source
