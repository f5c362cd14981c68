import Mathlib.Data.Nat.Digits.Defs
import FrameLisp.Proofs.Source.Lossless
import FrameLisp.Proofs.Source.Spelled

/-!
# Classes of atoms

A text without delimiters is scanned as one item. Which one it is can be seen from its spelling
alone: a number has one of the patterns of `FrameLisp.Source.Spelling`, where a fraction must not
be one by zero, a lone point is the dot, and a text that begins with a `#` is one of the four names
of the booleans or a fault. Whatever is left is a symbol. Numbers have the values that are usual
for their digits.
-/
namespace FrameLisp.Source

open Numeric

section Values

/-- The number that digits write in positional notation. Underscores are passed over. -/
def numeralValue (cs : List Char) : Nat :=
  Nat.ofDigits 10 ((cs.filter isDigit).map digitValue).reverse

theorem digitsValue_eq_numeralValue (cs : List Char) : digitsValue cs = numeralValue cs := by
  rw [numeralValue, Nat.ofDigits_eq_foldr, List.foldr_reverse, List.foldl_map, List.foldl_filter,
    digitsValue]
  simp only [Nat.cast_id, Nat.add_comm]

/-- The integers and how they are written. -/
inductive WritesInteger : List Char → Int → Prop
  | unsigned {cs} : IsNumeral cs → WritesInteger cs (numeralValue cs)
  | plus {cs} : IsNumeral cs → WritesInteger ('+' :: cs) (numeralValue cs)
  | minus {cs} : IsNumeral cs → WritesInteger ('-' :: cs) (-(numeralValue cs : Int))

/-- The fractions and how they are written, with numerator and denominator as they are written. -/
inductive WritesFraction : List Char → Int → Nat → Prop
  | mk {numerator denominator n} : WritesInteger numerator n → IsNumeral denominator →
      WritesFraction (numerator ++ '/' :: denominator) n (numeralValue denominator)

/-- An unsigned decimal number is that of its digits times a power of ten, and is rounded. -/
inductive WritesMagnitude (negative : Bool) : List Char → Binary64 → Prop
  | mk {mantissa exponent whole fraction e} : SplitMantissa whole fraction mantissa →
      SplitExponent exponent e → WritesMagnitude negative (mantissa ++ exponent)
        (.ofDecimal negative (numeralValue (whole ++ fraction)) (e - fraction.length))

/-- The floating point numbers and how they are written. -/
inductive WritesFloat : List Char → Binary64 → Prop
  | unsigned {cs x} : WritesMagnitude false cs x → WritesFloat cs x
  | plus {cs x} : WritesMagnitude false cs x → WritesFloat ('+' :: cs) x
  | minus {cs x} : WritesMagnitude true cs x → WritesFloat ('-' :: cs) x

variable {cs : List Char} {n : Int} {x : Binary64}

theorem writesInteger_iff : WritesInteger cs n ↔ IsInteger cs ∧ n = integerValue cs := by
  constructor
  · intro h
    cases h with
    | unsigned h =>
      rw [integerValue_of_noSign (noSign_of_unsigned unsigned_isNumeral h),
        digitsValue_eq_numeralValue]
      exact ⟨.inl h, rfl⟩
    | @plus cs h =>
      rw [integerValue_plus, digitsValue_eq_numeralValue]
      exact ⟨.inr ⟨cs, .inl rfl, h⟩, rfl⟩
    | @minus cs h =>
      rw [integerValue, digitsValue_eq_numeralValue]
      exact ⟨.inr ⟨cs, .inr rfl, h⟩, rfl⟩
  · rintro ⟨h | ⟨rest, rfl | rfl, h⟩, rfl⟩
    · rw [integerValue_of_noSign (noSign_of_unsigned unsigned_isNumeral h),
        digitsValue_eq_numeralValue]
      exact .unsigned h
    · rw [integerValue_plus, digitsValue_eq_numeralValue]
      exact .plus h
    · rw [integerValue, digitsValue_eq_numeralValue]
      exact .minus h

theorem writesMagnitude_iff {negative : Bool} :
    WritesMagnitude negative cs x ↔ magnitude? negative cs = some x := by
  constructor
  · rintro ⟨hm, he⟩
    rw [magnitude?_eq negative hm he, digitsValue_eq_numeralValue]
  · intro h
    obtain ⟨whole, fraction, mantissa, exponent, e, rfl, hm, he⟩ := exists_of_magnitude? h
    rw [magnitude?_eq negative hm he, digitsValue_eq_numeralValue] at h
    exact Option.some.inj h ▸ .mk hm he

theorem writesFloat_iff : WritesFloat cs x ↔ decimal? cs = some x := by
  constructor
  · intro h
    cases h with
    | unsigned h =>
      have hmagnitude := isMagnitude_iff.2 ⟨x, writesMagnitude_iff.1 h⟩
      rw [decimal?_of_noSign (noSign_of_unsigned unsigned_isMagnitude hmagnitude)]
      exact writesMagnitude_iff.1 h
    | plus h => exact writesMagnitude_iff.1 h
    | minus h => exact writesMagnitude_iff.1 h
  · intro h
    rcases sign_cases cs with ⟨rest, rfl⟩ | ⟨rest, rfl⟩ | hno
    · exact .minus (writesMagnitude_iff.2 h)
    · exact .plus (writesMagnitude_iff.2 h)
    · rw [decimal?_of_noSign hno] at h
      exact .unsigned (writesMagnitude_iff.2 h)

/-- The texts that are written as fractions. -/
theorem exists_writesFraction_iff : (∃ n d, WritesFraction cs n d) ↔ IsFraction cs := by
  constructor
  · rintro ⟨n, d, ⟨hn, hd⟩⟩
    exact ⟨_, _, rfl, (writesInteger_iff.1 hn).1, hd⟩
  · rintro ⟨numerator, denominator, rfl, hn, hd⟩
    exact ⟨_, _, .mk (writesInteger_iff.2 ⟨hn, rfl⟩) hd⟩

/-- The texts that are written as decimal numbers. -/
theorem exists_writesFloat_iff : (∃ x, WritesFloat cs x) ↔ IsDecimal cs := by
  simp only [writesFloat_iff, isDecimal_iff]

end Values

section Classes

/-- The texts of a boolean. -/
def booleanTexts (b : Bool) : List (List Char) :=
  if b then ["#t".toList, "#true".toList] else ["#f".toList, "#false".toList]

/-- What a text without delimiters is. -/
inductive Denotes : List Char → Except LexicalFault Token → Prop
  | integer {cs n} : WritesInteger cs n → Denotes cs (.ok (.integer n))
  | rational {cs n d q} : WritesFraction cs n d → d ≠ 0 → q.num * d = n * q.den →
      Denotes cs (.ok (.rational q))
  | zeroDenominator {cs n} : WritesFraction cs n 0 → Denotes cs (.error .zeroDenominator)
  | float {cs x} : ¬IsInteger cs → WritesFloat cs x → Denotes cs (.ok (.float x))
  | dot : Denotes ['.'] (.ok .dot)
  | boolean {cs b} : cs ∈ booleanTexts b → Denotes cs (.ok (.boolean b))
  | unknownHash {cs} : cs.head? = some '#' → (∀ b, cs ∉ booleanTexts b) →
      Denotes cs (.error .unknownHashLiteral)
  | symbol {cs} : IsName cs → Denotes cs (.ok (.symbol (String.ofList cs)))

variable {cs rest : List Char} {outcome : Except LexicalFault Token}

theorem head?_of_mem_booleanTexts {b : Bool} (h : cs ∈ booleanTexts b) : cs.head? = some '#' := by
  cases b <;> (rcases List.mem_pair.1 h with rfl | rfl <;> rfl)

theorem hashLiteral?_eq_some_iff {b : Bool} :
    hashLiteral? rest = some b ↔ '#' :: rest ∈ booleanTexts b := by
  unfold hashLiteral?
  split <;> cases b <;> simp_all [booleanTexts]

theorem classify_hash (rest : List Char) : classify ('#' :: rest) =
    match hashLiteral? rest with
    | some b => .ok (.boolean b)
    | none => .error .unknownHashLiteral := by
  cases h : hashLiteral? rest <;> rw [classify, h]

/-- A quotient is the fraction in lowest terms that equals it. -/
theorem div_eq_iff_num_mul_eq {n : Int} {d : Nat} (hd : d ≠ 0) (q : Rat) :
    (n : Rat) / (d : Int) = q ↔ q.num * d = n * q.den := by
  have hd' : ((d : Int) : Rat) ≠ 0 := by exact_mod_cast hd
  have hq : (q.den : Rat) ≠ 0 := by exact_mod_cast q.den_ne_zero
  rw [← Rat.num_div_den q, div_eq_div_iff hd' hq, eq_comm]
  simp only [Rat.num_div_den]
  exact_mod_cast Iff.rfl

theorem classify_of_writesFraction {n : Int} {d : Nat} (h : WritesFraction cs n d) :
    classify cs = if d = 0 then .error .zeroDenominator
      else .ok (.rational ((n : Rat) / (d : Int))) := by
  obtain ⟨hn, hd⟩ := h
  obtain ⟨hinteger, rfl⟩ := writesInteger_iff.1 hn
  rw [classify_of_fraction hinteger hd, digitsValue_eq_numeralValue]

theorem Denotes.classify_eq (h : Denotes cs outcome) : classify cs = outcome := by
  cases h with
  | integer h =>
    obtain ⟨hinteger, rfl⟩ := writesInteger_iff.1 h
    exact classify_of_isInteger hinteger
  | rational h hd hq =>
    rw [classify_of_writesFraction h, if_neg hd, (div_eq_iff_num_mul_eq hd _).2 hq]
  | zeroDenominator h => rw [classify_of_writesFraction h, if_pos rfl]
  | float hinteger h => exact classify_of_decimal (writesFloat_iff.1 h) hinteger
  | dot => rfl
  | boolean h =>
    obtain ⟨rest, rfl⟩ := List.head?_eq_some_iff.1 (head?_of_mem_booleanTexts h)
    rw [classify_hash, hashLiteral?_eq_some_iff.2 h]
  | unknownHash hhash h =>
    obtain ⟨rest, rfl⟩ := List.head?_eq_some_iff.1 hhash
    have hnone : hashLiteral? rest = none :=
      Option.eq_none_iff_forall_ne_some.2 fun b hb => h b (hashLiteral?_eq_some_iff.1 hb)
    rw [classify_hash, hnone]
  | symbol h => exact classify_of_isName h

/-- Every text is something. -/
theorem denotes_classify (hne : cs ≠ []) (hcs : ∀ c ∈ cs, isDelimiter c = false) :
    Denotes cs (classify cs) := by
  by_cases hinteger : IsInteger cs
  · rw [classify_of_isInteger hinteger]
    exact .integer (writesInteger_iff.2 ⟨hinteger, rfl⟩)
  by_cases hfraction : IsFraction cs
  · obtain ⟨n, d, h⟩ := exists_writesFraction_iff.2 hfraction
    rw [classify_of_writesFraction h]
    split
    · next hd => exact .zeroDenominator (hd ▸ h)
    · next hd => exact .rational h hd ((div_eq_iff_num_mul_eq hd _).1 rfl)
  by_cases hdecimal : IsDecimal cs
  · obtain ⟨x, hx⟩ := exists_writesFloat_iff.2 hdecimal
    rw [classify_of_decimal (writesFloat_iff.1 hx) hinteger]
    exact .float hinteger hx
  by_cases hdot : cs = ['.']
  · subst hdot
    exact .dot
  by_cases hhash : cs.head? = some '#'
  · obtain ⟨rest, rfl⟩ := List.head?_eq_some_iff.1 hhash
    rw [classify_hash]
    cases hrest : hashLiteral? rest with
    | some b => exact .boolean (hashLiteral?_eq_some_iff.1 hrest)
    | none =>
      refine .unknownHash hhash fun b hb => ?_
      rw [hashLiteral?_eq_some_iff.2 hb] at hrest
      cases hrest
  · have hname : IsName cs := ⟨hne, hcs, hdot, hhash, hinteger, hfraction, hdecimal⟩
    rw [classify_of_isName hname]
    exact .symbol hname

theorem denotes_iff (hne : cs ≠ []) (hcs : ∀ c ∈ cs, isDelimiter c = false) :
    Denotes cs outcome ↔ classify cs = outcome :=
  ⟨Denotes.classify_eq, fun h => h ▸ denotes_classify hne hcs⟩

section Inversion

variable {n : Int} {q : Rat} {x : Binary64} {b : Bool} {name : String}

theorem denotes_integer_iff : Denotes cs (.ok (.integer n)) ↔ WritesInteger cs n := by
  refine ⟨fun h => ?_, .integer⟩
  cases h
  assumption

theorem denotes_rational_iff : Denotes cs (.ok (.rational q)) ↔
    ∃ n d, WritesFraction cs n d ∧ d ≠ 0 ∧ q.num * d = n * q.den := by
  refine ⟨fun h => ?_, fun ⟨n, d, h, hd, hq⟩ => .rational h hd hq⟩
  cases h with
  | rational h hd hq => exact ⟨_, _, h, hd, hq⟩

theorem denotes_zeroDenominator_iff :
    Denotes cs (.error .zeroDenominator) ↔ ∃ n, WritesFraction cs n 0 := by
  refine ⟨fun h => ?_, fun ⟨n, h⟩ => .zeroDenominator h⟩
  cases h with
  | zeroDenominator h => exact ⟨_, h⟩

theorem denotes_float_iff :
    Denotes cs (.ok (.float x)) ↔ ¬IsInteger cs ∧ WritesFloat cs x := by
  refine ⟨fun h => ?_, fun h => .float h.1 h.2⟩
  cases h with
  | float hinteger h => exact ⟨hinteger, h⟩

/-- A decimal number has no slash. -/
theorem exists_denotes_float_iff : (∃ x, Denotes cs (.ok (.float x))) ↔
    ¬IsInteger cs ∧ ¬IsFraction cs ∧ IsDecimal cs := by
  simp only [denotes_float_iff, exists_and_left, exists_writesFloat_iff]
  refine and_congr_right fun _ => (and_iff_right_of_imp ?_).symm
  rintro hdecimal ⟨n, d, rfl, -, -⟩
  exact not_mem_slash_of_isDecimal hdecimal (by simp)

theorem denotes_dot_iff : Denotes cs (.ok .dot) ↔ cs = ['.'] := by
  refine ⟨fun h => ?_, fun h => h ▸ .dot⟩
  cases h
  rfl

theorem denotes_boolean_iff : Denotes cs (.ok (.boolean b)) ↔ cs ∈ booleanTexts b := by
  refine ⟨fun h => ?_, .boolean⟩
  cases h
  assumption

theorem denotes_unknownHash_iff : Denotes cs (.error .unknownHashLiteral) ↔
    cs.head? = some '#' ∧ ∀ b, cs ∉ booleanTexts b := by
  refine ⟨fun h => ?_, fun h => .unknownHash h.1 h.2⟩
  cases h with
  | unknownHash hhash h => exact ⟨hhash, h⟩

theorem denotes_symbol_iff :
    Denotes cs (.ok (.symbol name)) ↔ IsName cs ∧ name = String.ofList cs := by
  refine ⟨fun h => ?_, fun ⟨h, hname⟩ => hname ▸ .symbol h⟩
  cases h with
  | symbol h => exact ⟨h, rfl⟩

end Inversion

/-- How a text is spelled for each of the things that it can be. -/
structure Classified (cs : List Char) (outcome : Except LexicalFault Token) : Prop where
  integer : ∀ n, outcome = .ok (.integer n) ↔ WritesInteger cs n
  rational : ∀ q, outcome = .ok (.rational q) ↔
    ∃ n d, WritesFraction cs n d ∧ d ≠ 0 ∧ q.num * d = n * q.den
  lowestTerms : ∀ q, outcome = .ok (.rational q) → 0 < q.den ∧ q.num.natAbs.Coprime q.den
  zeroDenominator : outcome = .error .zeroDenominator ↔ ∃ n, WritesFraction cs n 0
  float : (∃ x, outcome = .ok (.float x)) ↔ ¬IsInteger cs ∧ ¬IsFraction cs ∧ IsDecimal cs
  floatValue : ∀ x, outcome = .ok (.float x) → WritesFloat cs x
  dot : outcome = .ok .dot ↔ cs = ['.']
  boolean : ∀ b, outcome = .ok (.boolean b) ↔ cs ∈ booleanTexts b
  unknownHash : outcome = .error .unknownHashLiteral ↔
    cs.head? = some '#' ∧ ∀ b, cs ∉ booleanTexts b
  /-- In every other case the text is a symbol, and its name is the text. -/
  symbol : ∀ name, outcome = .ok (.symbol name) ↔ IsName cs ∧ name = String.ofList cs

theorem classified (hne : cs ≠ []) (hcs : ∀ c ∈ cs, isDelimiter c = false) :
    Classified cs (classify cs) := by
  have hiff : ∀ outcome, classify cs = outcome ↔ Denotes cs outcome := fun _ =>
    (denotes_iff hne hcs).symm
  constructor
  case integer => exact fun n => (hiff _).trans denotes_integer_iff
  case rational => exact fun q => (hiff _).trans denotes_rational_iff
  case lowestTerms => exact fun q _ => ⟨q.den_pos, q.reduced⟩
  case zeroDenominator => exact (hiff _).trans denotes_zeroDenominator_iff
  case float => exact (exists_congr fun x => hiff _).trans exists_denotes_float_iff
  case floatValue => exact fun x h => (denotes_float_iff.1 ((hiff _).1 h)).2
  case dot => exact (hiff _).trans denotes_dot_iff
  case boolean => exact fun b => (hiff _).trans denotes_boolean_iff
  case unknownHash => exact (hiff _).trans denotes_unknownHash_iff
  case symbol => exact fun name => (hiff _).trans denotes_symbol_iff

end Classes

section Items

/-- A text without delimiters is one item, which its spelling tells. -/
theorem Cursor.items_of_undelimited {source : String} (hne : source ≠ "")
    (hcs : ∀ c ∈ source.toList, isDelimiter c = false) :
    ∃ outcome, Classified source.toList outcome ∧
      (ofString source).items = [.of ⟨0, source.utf8ByteSize⟩ outcome,
        .ok ⟨.endOfInput, .point source.utf8ByteSize⟩] := by
  have hne' : source.toList ≠ [] := mt String.toList_eq_nil_iff.1 hne
  have hbreaks : Breaks [] := by simp [Breaks]
  have hscan := scan_undelimited hne' hcs hbreaks 0
  rw [List.append_nil, Nat.zero_add, ← utf8ByteSize_eq_width] at hscan
  have hend : ¬(ofString source).scan.1.isEnd = true := by
    intro hend
    obtain ⟨c, hc⟩ := List.exists_mem_of_ne_nil _ hne'
    have hdelimiter := isDelimiter_of_isBlank (all_isBlank_of_isEnd hend c hc)
    rw [hcs c hc] at hdelimiter
    cases hdelimiter
  refine ⟨_, classified hne' hcs, ?_⟩
  rw [items_of_not_isEnd hend, show (ofString source).scan = _ from hscan, items_of_isEnd rfl]
  rfl

/-- Signs and underscores, and zeros that do not make the denominator zero. -/
theorem Cursor.items_of_undelimited_fraction : "-1_2/0_8" ≠ "" ∧
    (∀ c ∈ "-1_2/0_8".toList, isDelimiter c = false) ∧
    (ofString "-1_2/0_8").items =
      [.ok ⟨.rational (-3 / 2), ⟨0, 8⟩⟩, .ok ⟨.endOfInput, .point 8⟩] := by
  have hne : "-1_2/0_8" ≠ "" := by decide
  have hcs : ∀ c ∈ "-1_2/0_8".toList, isDelimiter c = false := by
    simp [isDelimiter, Text.isBlank, Text.Ranges.contains, Text.whiteSpace]
  have htail : ∀ d, isDigit d = true → ∀ c ∈ ['_', d], isDigit c = true ∨ c = '_' := by
    simp +contextual
  have hnumerator : IsNumeral ['1', '_', '2'] := ⟨rfl, htail '2' rfl⟩
  have hdenominator : IsNumeral ['0', '_', '8'] := ⟨rfl, htail '8' rfl⟩
  have hfraction : WritesFraction "-1_2/0_8".toList (-12) 8 := .mk (.minus hnumerator) hdenominator
  have hlowest : (-3 / 2 : Rat).num * (8 : Nat) = -12 * (-3 / 2 : Rat).den := by norm_num
  obtain ⟨outcome, hclass, hitems⟩ := items_of_undelimited hne hcs
  rw [(hclass.rational (-3 / 2)).2 ⟨-12, 8, hfraction, by decide, hlowest⟩] at hitems
  exact ⟨hne, hcs, hitems⟩

end Items

end FrameLisp.Source
