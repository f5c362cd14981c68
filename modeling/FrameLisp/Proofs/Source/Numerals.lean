import Mathlib.Data.List.TakeWhile
import FrameLisp.Source.Spelling

/-!
# Integers and decimal numbers as they are spelled

What is read as an integer or as a decimal number is what has the spelling of one, and its value is
that of the parts of the spelling.
-/
namespace FrameLisp.Source

open Numeric

section Signs

/-- Whether no text with a sign in front has the pattern. -/
def Unsigned (pattern : List Char → Prop) : Prop :=
  ∀ c cs, pattern (c :: cs) → c ≠ '+' ∧ c ≠ '-'

variable {pattern : List Char → Prop} {cs : List Char}

theorem signed_cons_iff (h : Unsigned pattern) {c : Char} (hc : c = '+' ∨ c = '-') :
    Signed pattern (c :: cs) ↔ pattern cs := by
  constructor
  · rintro (hp | ⟨rest, heq | heq, hp⟩)
    · obtain ⟨hplus, hminus⟩ := h c cs hp
      exact absurd hc (not_or.2 ⟨hplus, hminus⟩)
    · exact (List.cons.inj heq).2 ▸ hp
    · exact (List.cons.inj heq).2 ▸ hp
  · intro hp
    rcases hc with rfl | rfl
    · exact .inr ⟨cs, .inl rfl, hp⟩
    · exact .inr ⟨cs, .inr rfl, hp⟩

/-- Whether a text has no sign in front. -/
def NoSign (cs : List Char) : Prop := ∀ c ∈ cs.head?, c ≠ '+' ∧ c ≠ '-'

theorem sign_cases (cs : List Char) :
    (∃ rest, cs = '-' :: rest) ∨ (∃ rest, cs = '+' :: rest) ∨ NoSign cs := by
  match cs with
  | [] => exact .inr (.inr (by simp [NoSign]))
  | c :: cs =>
    by_cases hminus : c = '-'
    · exact .inl ⟨cs, hminus ▸ rfl⟩
    by_cases hplus : c = '+'
    · exact .inr (.inl ⟨cs, hplus ▸ rfl⟩)
    · exact .inr (.inr (by simp [NoSign, hplus, hminus]))

theorem noSign_of_unsigned (h : Unsigned pattern) (hp : pattern cs) : NoSign cs := by
  intro c hc
  obtain ⟨rest, rfl⟩ := List.head?_eq_some_iff.1 hc
  exact h c rest hp

theorem signed_iff_of_noSign (hc : NoSign cs) :
    Signed pattern cs ↔ pattern cs := by
  constructor
  · rintro (hp | ⟨rest, rfl | rfl, -⟩)
    · exact hp
    · exact absurd rfl (hc '+' rfl).1
    · exact absurd rfl (hc '-' rfl).2
  · exact .inl

theorem Signed.mono {pattern' : List Char → Prop} (h : Signed pattern cs)
    (himp : ∀ cs, pattern cs → pattern' cs) : Signed pattern' cs :=
  h.imp (himp cs) fun ⟨rest, hrest, hp⟩ => ⟨rest, hrest, himp rest hp⟩

theorem Signed.mem {allowed : Char → Prop} (h : Signed pattern cs)
    (hp : ∀ cs, pattern cs → ∀ c ∈ cs, allowed c) {c : Char} (hc : c ∈ cs) :
    allowed c ∨ c = '+' ∨ c = '-' := by
  rcases h with h | ⟨rest, rfl | rfl, h⟩
  · exact .inl (hp cs h c hc)
  · rcases List.mem_cons.1 hc with hc | hc
    · exact .inr (.inl hc)
    · exact .inl (hp rest h c hc)
  · rcases List.mem_cons.1 hc with hc | hc
    · exact .inr (.inr hc)
    · exact .inl (hp rest h c hc)

theorem ne_of_isDigit {c x : Char} (hc : isDigit c = true) (hx : isDigit x = false) : c ≠ x := by
  rintro rfl
  rw [hc] at hx
  cases hx

theorem unsigned_of_isDigit (h : ∀ c cs, pattern (c :: cs) → isDigit c = true) :
    Unsigned pattern := fun c cs hp =>
  ⟨ne_of_isDigit (h c cs hp) (by decide), ne_of_isDigit (h c cs hp) (by decide)⟩

theorem unsigned_isNumeral : Unsigned IsNumeral := unsigned_of_isDigit fun _ _ h => h.1

theorem unsigned_areDigits : Unsigned (AreDigits 1) :=
  unsigned_of_isDigit fun _ _ h => h.2 _ List.mem_cons_self

end Signs

section Integers

variable {cs : List Char}

theorem IsNumeral.mem (h : IsNumeral cs) : ∀ c ∈ cs, isDigit c = true ∨ c = '_' := by
  match cs with
  | _ :: _ => exact List.forall_mem_cons.2 ⟨.inl h.1, h.2⟩

/-- The characters of integers. -/
theorem IsInteger.mem (h : IsInteger cs) {c : Char} (hc : c ∈ cs) :
    (isDigit c = true ∨ c = '_') ∨ c = '+' ∨ c = '-' :=
  Signed.mem h (fun _ => IsNumeral.mem) hc

theorem digitsValue_cons_of_not_digit {c : Char} (hc : isDigit c = false) :
    digitsValue (c :: cs) = digitsValue cs := by
  simp [digitsValue, hc]

theorem natural?_eq_some_iff {n : Nat} :
    natural? cs = some n ↔ IsNumeral cs ∧ n = digitsValue cs := by
  match cs with
  | [] => simp [natural?, IsNumeral]
  | c :: cs =>
    have hiff : (c ≠ '_' ∧ ((c :: cs).all fun c => isDigit c || c == '_') = true) ↔
        IsNumeral (c :: cs) := by
      simp only [List.all_cons, Bool.and_eq_true, Bool.or_eq_true, beq_iff_eq, List.all_eq_true,
        IsNumeral]
      constructor
      · rintro ⟨hc, hd | rfl, hrest⟩
        · exact ⟨hd, hrest⟩
        · exact absurd rfl hc
      · rintro ⟨hd, hrest⟩
        exact ⟨ne_of_isDigit hd (by decide), .inl hd, hrest⟩
    rw [natural?]
    by_cases h : IsNumeral (c :: cs)
    · rw [if_pos (hiff.2 h)]
      simp [h, eq_comm]
    · rw [if_neg (mt hiff.1 h)]
      simp [h]

theorem integerValue_of_noSign (h : NoSign cs) : integerValue cs = digitsValue cs := by
  rw [integerValue]
  rintro rest rfl
  exact (h '-' rfl).2 rfl

theorem integerValue_plus (cs : List Char) : integerValue ('+' :: cs) = digitsValue cs := by
  rw [integerValue, digitsValue_cons_of_not_digit (by decide)]
  simp

theorem integer?_minus (cs : List Char) :
    integer? ('-' :: cs) = (natural? cs).map fun n : Nat => -(n : Int) := by
  rw [integer?]
  cases natural? cs <;> rfl

theorem integer?_plus (cs : List Char) :
    integer? ('+' :: cs) = (natural? cs).map fun n : Nat => (n : Int) := by
  rw [integer?]
  cases natural? cs <;> rfl

theorem integer?_of_noSign (h : NoSign cs) :
    integer? cs = (natural? cs).map fun n : Nat => (n : Int) := by
  rw [integer?]
  · cases natural? cs <;> rfl
  · rintro rest rfl
    exact (h '-' rfl).2 rfl
  · rintro rest rfl
    exact (h '+' rfl).1 rfl

theorem exponent?_of_noSign (h : NoSign cs) : exponent? cs =
    if cs.isEmpty ∨ ¬cs.all isDigit then none else some (digitsValue cs : Int) := by
  rw [exponent?]
  · rintro rest rfl
    exact (h '-' rfl).2 rfl
  · rintro rest rfl
    exact (h '+' rfl).1 rfl

theorem natural?_map_eq_some_iff {f : Nat → Int} {n : Int} :
    (natural? cs).map f = some n ↔ IsNumeral cs ∧ n = f (digitsValue cs) := by
  rw [Option.map_eq_some_iff]
  constructor
  · rintro ⟨m, hm, rfl⟩
    obtain ⟨hcs, rfl⟩ := natural?_eq_some_iff.1 hm
    exact ⟨hcs, rfl⟩
  · rintro ⟨hcs, rfl⟩
    exact ⟨_, natural?_eq_some_iff.2 ⟨hcs, rfl⟩, rfl⟩

theorem integer?_eq_some_iff {n : Int} :
    integer? cs = some n ↔ IsInteger cs ∧ n = integerValue cs := by
  rcases sign_cases cs with ⟨rest, rfl⟩ | ⟨rest, rfl⟩ | h
  · rw [integer?_minus, IsInteger, signed_cons_iff unsigned_isNumeral (.inr rfl)]
    exact natural?_map_eq_some_iff
  · rw [integer?_plus, IsInteger, signed_cons_iff unsigned_isNumeral (.inl rfl),
      integerValue_plus]
    exact natural?_map_eq_some_iff
  · rw [integer?_of_noSign h, IsInteger, signed_iff_of_noSign h, integerValue_of_noSign h]
    exact natural?_map_eq_some_iff

theorem exponentDigits_eq_some_iff {value e : Int} :
    (if cs.isEmpty ∨ ¬cs.all isDigit then none else some value) = some e ↔
      AreDigits 1 cs ∧ e = value := by
  have hiff : ¬(cs.isEmpty = true ∨ ¬cs.all isDigit = true) ↔ AreDigits 1 cs := by
    rw [not_or, not_not, List.all_eq_true, AreDigits]
    cases cs <;> simp
  rw [Option.ite_none_left_eq_some, hiff, Option.some.injEq, eq_comm]

theorem exponent?_eq_some_iff {e : Int} :
    exponent? cs = some e ↔ Signed (AreDigits 1) cs ∧ e = integerValue cs := by
  rcases sign_cases cs with ⟨rest, rfl⟩ | ⟨rest, rfl⟩ | h
  · rw [signed_cons_iff unsigned_areDigits (.inr rfl)]
    exact exponentDigits_eq_some_iff
  · rw [signed_cons_iff unsigned_areDigits (.inl rfl), integerValue_plus]
    exact exponentDigits_eq_some_iff
  · rw [exponent?_of_noSign h, signed_iff_of_noSign h, integerValue_of_noSign h]
    exact exponentDigits_eq_some_iff

end Integers

section Decimals

variable {cs : List Char}

/-- The digits before and behind the point of a mantissa. -/
inductive SplitMantissa : List Char → List Char → List Char → Prop
  | whole {whole} : AreDigits 1 whole → SplitMantissa whole [] whole
  | point {whole fraction} : AreDigits 0 whole → AreDigits 0 fraction →
      1 ≤ whole.length + fraction.length → SplitMantissa whole fraction (whole ++ '.' :: fraction)

/-- The power of ten that an exponent means. -/
inductive SplitExponent : List Char → Int → Prop
  | none : SplitExponent [] 0
  | some {c cs} : c = 'e' ∨ c = 'E' → Signed (AreDigits 1) cs →
      SplitExponent (c :: cs) (integerValue cs)

theorem isMantissa_iff : IsMantissa cs ↔ ∃ whole fraction, SplitMantissa whole fraction cs := by
  constructor
  · rintro (h | ⟨whole, fraction, rfl, hwhole, hfraction, hlength⟩)
    · exact ⟨cs, [], .whole h⟩
    · exact ⟨whole, fraction, .point hwhole hfraction hlength⟩
  · rintro ⟨whole, fraction, h⟩
    cases h with
    | whole h => exact .inl h
    | point hwhole hfraction hlength =>
      exact .inr ⟨whole, fraction, rfl, hwhole, hfraction, hlength⟩

theorem isExponent_iff : IsExponent cs ↔ ∃ e, SplitExponent cs e := by
  constructor
  · rintro (rfl | ⟨rest, rfl | rfl, h⟩)
    · exact ⟨0, .none⟩
    · exact ⟨_, .some (.inl rfl) h⟩
    · exact ⟨_, .some (.inr rfl) h⟩
  · rintro ⟨e, h⟩
    cases h with
    | none => exact .inl rfl
    | some hc h => exact .inr ⟨_, hc.imp (fun h => by rw [h]) (fun h => by rw [h]), h⟩

/-- Characters of a class end where what follows does not begin with one. -/
theorem takeWhile_front {p : Char → Bool} {front rest : List Char}
    (hfront : ∀ c ∈ front, p c = true) (hrest : ∀ c ∈ rest.head?, p c = false) :
    (front ++ rest).takeWhile p = front ∧ (front ++ rest).dropWhile p = rest := by
  rw [List.takeWhile_append_of_pos hfront, List.dropWhile_append_of_pos hfront]
  match rest with
  | [] => simp
  | c :: rest => simp [hrest c rfl]

theorem SplitExponent.head {cs : List Char} {e : Int} (h : SplitExponent cs e) :
    ∀ c ∈ cs.head?, isDigit c = false ∧ c ≠ '.' := by
  cases h with
  | none => simp
  | some hc h => rcases hc with rfl | rfl <;> simp <;> decide

/-- An unsigned decimal number is read from its digits and its power of ten. -/
theorem magnitude?_eq {whole fraction mantissa exponent : List Char} {e : Int} (negative : Bool)
    (hm : SplitMantissa whole fraction mantissa) (he : SplitExponent exponent e) :
    magnitude? negative (mantissa ++ exponent) =
      some (.ofDecimal negative (digitsValue (whole ++ fraction)) (e - fraction.length)) := by
  have hhead : ∀ c ∈ exponent.head?, isDigit c = false := fun c hc => (he.head c hc).1
  cases hm with
  | whole hwhole =>
    obtain ⟨htake, hdrop⟩ := takeWhile_front hwhole.2 hhead
    have hne : whole ≠ [] := List.ne_nil_of_length_pos hwhole.1
    rw [magnitude?, htake, hdrop]
    cases he with
    | none => simp [hne]
    | @some c cs hc h =>
      have hexponent := exponent?_eq_some_iff.2 ⟨h, rfl⟩
      rcases hc with rfl | rfl <;> simp [hne, hexponent]
  | point hwhole hfraction hlength =>
    have hpoint : ∀ c ∈ ('.' :: (fraction ++ exponent)).head?, isDigit c = false := by
      simp
      decide
    obtain ⟨htake, hdrop⟩ := takeWhile_front hwhole.2 hpoint
    obtain ⟨htake', hdrop'⟩ := takeWhile_front hfraction.2 hhead
    have hne : ¬(whole.isEmpty && fraction.isEmpty) = true := by
      cases whole <;> cases fraction <;> simp_all
    rw [List.append_assoc, List.cons_append, magnitude?, htake, hdrop]
    simp only [htake', hdrop', hne]
    cases he with
    | none => simp
    | @some c cs hc h =>
      have hexponent := exponent?_eq_some_iff.2 ⟨h, rfl⟩
      rcases hc with rfl | rfl <;> simp [hexponent]

theorem exists_splitExponent {rest : List Char} {value x : Binary64} {f : Int → Binary64}
    (h : (match rest with
      | [] => some value
      | c :: cs => if c = 'e' ∨ c = 'E' then (exponent? cs).map f else none) = some x) :
    ∃ e, SplitExponent rest e := by
  match rest with
  | [] => exact ⟨0, .none⟩
  | c :: rest =>
    simp only [Option.ite_none_right_eq_some, Option.map_eq_some_iff] at h
    obtain ⟨hc, e, he, -⟩ := h
    exact ⟨_, .some hc (exponent?_eq_some_iff.1 he).1⟩

/-- What is read as an unsigned decimal number is one. -/
theorem exists_of_magnitude? {negative : Bool} {x : Binary64}
    (h : magnitude? negative cs = some x) : ∃ whole fraction mantissa exponent e,
      cs = mantissa ++ exponent ∧ SplitMantissa whole fraction mantissa ∧
        SplitExponent exponent e := by
  have hdigits : ∀ cs : List Char, AreDigits 0 (cs.takeWhile isDigit) := fun cs =>
    ⟨Nat.zero_le _, fun c hc => List.mem_takeWhile_imp hc⟩
  have hcs : cs = cs.takeWhile isDigit ++ cs.dropWhile isDigit :=
    List.takeWhile_append_dropWhile.symm
  rw [magnitude?] at h
  generalize cs.dropWhile isDigit = afterWhole at h hcs
  dsimp only at h
  split at h
  · next rest =>
    simp only [Option.ite_none_left_eq_some, Bool.and_eq_true, List.isEmpty_iff] at h
    obtain ⟨hne, hrest⟩ := h
    obtain ⟨e, he⟩ := exists_splitExponent hrest
    have hlength : 1 ≤ (cs.takeWhile isDigit).length + (rest.takeWhile isDigit).length := by
      by_contra hzero
      exact hne ⟨List.length_eq_zero_iff.1 (by omega), List.length_eq_zero_iff.1 (by omega)⟩
    refine ⟨_, _, _, _, e, ?_, .point (hdigits cs) (hdigits rest) hlength, he⟩
    rw [List.append_assoc, List.cons_append, List.takeWhile_append_dropWhile]
    exact hcs
  · simp only [Option.ite_none_left_eq_some, Bool.and_eq_true, List.isEmpty_iff, and_true] at h
    obtain ⟨hne, hrest⟩ := h
    obtain ⟨e, he⟩ := exists_splitExponent hrest
    exact ⟨_, _, _, _, e, hcs, .whole ⟨List.length_pos_iff.2 hne, (hdigits cs).2⟩, he⟩

/-- An unsigned decimal number. -/
def IsMagnitude (cs : List Char) : Prop :=
  ∃ mantissa exponent, cs = mantissa ++ exponent ∧ IsMantissa mantissa ∧ IsExponent exponent

/-- Whether a character stands in decimal numbers. -/
def IsDecimalChar (c : Char) : Prop := isDigit c = true ∨ c ∈ ['.', 'e', 'E', '+', '-']

instance (c : Char) : Decidable (IsDecimalChar c) := inferInstanceAs (Decidable (_ ∨ _))

theorem IsMantissa.mem (h : IsMantissa cs) : ∀ c ∈ cs, IsDecimalChar c := by
  rcases h with h | ⟨whole, fraction, rfl, hwhole, hfraction, -⟩
  · exact fun c hc => .inl (h.2 c hc)
  · refine List.forall_mem_append.2 ⟨fun c hc => .inl (hwhole.2 c hc), ?_⟩
    exact List.forall_mem_cons.2 ⟨.inr (by decide), fun c hc => .inl (hfraction.2 c hc)⟩

theorem IsExponent.mem (h : IsExponent cs) : ∀ c ∈ cs, IsDecimalChar c := by
  have hsigned : ∀ rest, Signed (AreDigits 1) rest → ∀ c ∈ rest, IsDecimalChar c := by
    intro rest hrest c hc
    rcases hrest.mem (fun _ h => h.2) hc with hc | rfl | rfl
    · exact .inl hc
    · exact .inr (by decide)
    · exact .inr (by decide)
  rcases h with rfl | ⟨rest, rfl | rfl, h⟩
  · simp
  · exact List.forall_mem_cons.2 ⟨.inr (by decide), hsigned rest h⟩
  · exact List.forall_mem_cons.2 ⟨.inr (by decide), hsigned rest h⟩

theorem IsDecimal.mem (h : IsDecimal cs) : ∀ c ∈ cs, IsDecimalChar c := by
  intro c hc
  have hmagnitude : ∀ cs, IsMagnitude cs → ∀ c ∈ cs, IsDecimalChar c := by
    rintro _ ⟨mantissa, exponent, rfl, hm, he⟩
    exact List.forall_mem_append.2 ⟨hm.mem, he.mem⟩
  rcases Signed.mem h hmagnitude hc with hc | rfl | rfl
  · exact hc
  · exact .inr (by decide)
  · exact .inr (by decide)

theorem isMagnitude_iff {negative : Bool} :
    IsMagnitude cs ↔ ∃ x, magnitude? negative cs = some x := by
  constructor
  · rintro ⟨mantissa, exponent, rfl, hm, he⟩
    obtain ⟨whole, fraction, hm⟩ := isMantissa_iff.1 hm
    obtain ⟨e, he⟩ := isExponent_iff.1 he
    exact ⟨_, magnitude?_eq negative hm he⟩
  · rintro ⟨x, hx⟩
    obtain ⟨_, _, mantissa, exponent, _, hcs, hm, he⟩ := exists_of_magnitude? hx
    exact ⟨mantissa, exponent, hcs, isMantissa_iff.2 ⟨_, _, hm⟩, isExponent_iff.2 ⟨_, he⟩⟩

/-- A digit, or a point in front of one. -/
def BeginsNumber : List Char → Prop
  | c :: cs => isDigit c = true ∨ c = '.' ∧ ∃ d ∈ cs.head?, isDigit d = true
  | [] => False

theorem unsigned_beginsNumber : Unsigned BeginsNumber := by
  rintro c cs (hc | ⟨rfl, -⟩)
  · exact ⟨ne_of_isDigit hc (by decide), ne_of_isDigit hc (by decide)⟩
  · decide

theorem IsNumeral.beginsNumber (h : IsNumeral cs) : BeginsNumber cs := by
  match cs with
  | c :: _ => exact .inl h.1

theorem IsMagnitude.beginsNumber (h : IsMagnitude cs) : BeginsNumber cs := by
  obtain ⟨mantissa, exponent, rfl, hm, -⟩ := h
  have hdigits : ∀ ds rest, AreDigits 1 ds → BeginsNumber (ds ++ rest) := by
    rintro (_ | ⟨d, ds⟩) rest ⟨hlength, hds⟩
    · simp at hlength
    · exact .inl (hds d List.mem_cons_self)
  rcases hm with hm | ⟨whole, fraction, rfl, hwhole, hfraction, hlength⟩
  · exact hdigits _ _ hm
  · match whole, fraction with
    | d :: whole, _ =>
      rw [List.append_assoc]
      exact hdigits _ _ ⟨by simp, hwhole.2⟩
    | [], d :: fraction => exact .inr ⟨rfl, d, rfl, hfraction.2 d List.mem_cons_self⟩
    | [], [] => simp at hlength

theorem unsigned_isMagnitude : Unsigned IsMagnitude := fun c cs h =>
  unsigned_beginsNumber c cs h.beginsNumber

theorem decimal?_of_noSign (h : NoSign cs) : decimal? cs = magnitude? false cs := by
  rw [decimal?]
  · rintro rest rfl
    exact (h '-' rfl).2 rfl
  · rintro rest rfl
    exact (h '+' rfl).1 rfl

theorem isDecimal_iff : IsDecimal cs ↔ ∃ x, decimal? cs = some x := by
  have hsigned : IsDecimal cs ↔ Signed IsMagnitude cs := Iff.rfl
  rw [hsigned]
  rcases sign_cases cs with ⟨rest, rfl⟩ | ⟨rest, rfl⟩ | h
  · rw [signed_cons_iff unsigned_isMagnitude (.inr rfl)]
    exact isMagnitude_iff
  · rw [signed_cons_iff unsigned_isMagnitude (.inl rfl)]
    exact isMagnitude_iff
  · rw [signed_iff_of_noSign h, decimal?_of_noSign h]
    exact isMagnitude_iff

end Decimals

end FrameLisp.Source
