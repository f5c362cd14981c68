import FrameLisp.Proofs.Source.Numerals
import FrameLisp.Source.Reading

/-!
# Atoms as they are spelled

An atom is the number that it is spelled like, and what is spelled otherwise is a symbol unless it
is a dot or begins with a `#`. A text that looks numeric has at most one sign in front, so that the
plus sign which is taken off first is the only one.
-/
namespace FrameLisp.Source

open Numeric

section Numbers

variable {cs : List Char}

theorem looksNumeric_of_sign {c : Char} (hc : c = '+' ∨ c = '-') :
    looksNumeric (c :: cs) = true ↔ BeginsNumber cs := by
  have hdigit : isDigit c = false := by
    rcases hc with rfl | rfl <;> decide
  have hpoint : isDigit '.' = false := by decide
  unfold looksNumeric
  dsimp only
  rw [if_neg (by simp [hdigit]), if_pos hc]
  split
  · next d rest => simp [BeginsNumber, hpoint]
  · next d rest hne =>
    have hnot : ∀ e ∈ rest.head?, d ≠ '.' := by
      rintro e he rfl
      obtain ⟨rest, rfl⟩ := List.head?_eq_some_iff.1 he
      exact hne e rest rfl rfl
    simp only [BeginsNumber, iff_self_or]
    rintro ⟨hd, e, he, -⟩
    exact absurd hd (hnot e he)
  · simp [BeginsNumber]

theorem looksNumeric_iff : looksNumeric cs = true ↔ Signed BeginsNumber cs := by
  rcases sign_cases cs with ⟨rest, rfl⟩ | ⟨rest, rfl⟩ | h
  · rw [looksNumeric_of_sign (.inr rfl), signed_cons_iff unsigned_beginsNumber (.inr rfl)]
  · rw [looksNumeric_of_sign (.inl rfl), signed_cons_iff unsigned_beginsNumber (.inl rfl)]
  · rw [signed_iff_of_noSign h]
    match cs with
    | [] => simp [looksNumeric, BeginsNumber]
    | c :: cs =>
      have hc : ¬(c = '+' ∨ c = '-') := not_or.2 (h c rfl)
      unfold looksNumeric
      dsimp only
      rw [if_neg hc]
      cases cs <;> simp [BeginsNumber]

/-- A text without a plus sign in front. -/
def withoutPlus (cs : List Char) : List Char := if cs.head? = some '+' then cs.drop 1 else cs

theorem withoutPlus_of_noSign (h : NoSign cs) : withoutPlus cs = cs := by
  refine if_neg fun hplus => ?_
  exact (h '+' hplus).1 rfl

/-- The sign that is left of a numeric text is the one that it had. -/
theorem signed_withoutPlus_iff {pattern : List Char → Prop} (hp : Unsigned pattern)
    (h : Signed BeginsNumber cs) : Signed pattern (withoutPlus cs) ↔ Signed pattern cs := by
  rcases sign_cases cs with ⟨rest, rfl⟩ | ⟨rest, rfl⟩ | hno
  · rfl
  · rw [signed_cons_iff unsigned_beginsNumber (.inl rfl)] at h
    rw [signed_cons_iff hp (.inl rfl)]
    exact signed_iff_of_noSign (noSign_of_unsigned unsigned_beginsNumber h)
  · rw [withoutPlus_of_noSign hno]

theorem integerValue_withoutPlus (h : IsInteger cs) :
    integerValue (withoutPlus cs) = integerValue cs := by
  rcases sign_cases cs with ⟨rest, rfl⟩ | ⟨rest, rfl⟩ | hno
  · rfl
  · have hrest := (signed_cons_iff unsigned_isNumeral (.inl rfl)).1 h
    rw [integerValue_plus]
    exact integerValue_of_noSign (noSign_of_unsigned unsigned_isNumeral hrest)
  · rw [withoutPlus_of_noSign hno]

theorem decimal?_withoutPlus (h : Signed BeginsNumber cs) :
    decimal? (withoutPlus cs) = decimal? cs := by
  rcases sign_cases cs with ⟨rest, rfl⟩ | ⟨rest, rfl⟩ | hno
  · rfl
  · rw [signed_cons_iff unsigned_beginsNumber (.inl rfl)] at h
    exact decimal?_of_noSign (noSign_of_unsigned unsigned_beginsNumber h)
  · rw [withoutPlus_of_noSign hno]

/-- A fraction without a sign. -/
def IsRatio (cs : List Char) : Prop :=
  ∃ numerator denominator, cs = numerator ++ '/' :: denominator ∧ IsNumeral numerator ∧
    IsNumeral denominator

theorem isFraction_iff : IsFraction cs ↔ Signed IsRatio cs := by
  constructor
  · rintro ⟨numerator, denominator, rfl, hn | ⟨rest, rfl | rfl, hn⟩, hd⟩
    · exact .inl ⟨numerator, denominator, rfl, hn, hd⟩
    · exact .inr ⟨_, .inl rfl, rest, denominator, rfl, hn, hd⟩
    · exact .inr ⟨_, .inr rfl, rest, denominator, rfl, hn, hd⟩
  · rintro (⟨n, d, rfl, hn, hd⟩ | ⟨_, rfl | rfl, n, d, rfl, hn, hd⟩)
    · exact ⟨n, d, rfl, .inl hn, hd⟩
    · exact ⟨'+' :: n, d, rfl, .inr ⟨n, .inl rfl, hn⟩, hd⟩
    · exact ⟨'-' :: n, d, rfl, .inr ⟨n, .inr rfl, hn⟩, hd⟩

theorem IsRatio.beginsNumber (h : IsRatio cs) : BeginsNumber cs := by
  obtain ⟨n, d, rfl, hn, -⟩ := h
  match n with
  | c :: _ => exact .inl hn.1

theorem unsigned_isRatio : Unsigned IsRatio := fun c cs h =>
  unsigned_beginsNumber c cs h.beginsNumber

/-- Only fractions have a slash. -/
theorem not_mem_slash_of_isInteger (h : IsInteger cs) : '/' ∉ cs := fun hmem =>
  absurd (h.mem hmem) (by decide)

theorem not_mem_slash_of_isDecimal (h : IsDecimal cs) : '/' ∉ cs := fun hmem =>
  absurd (h.mem _ hmem) (by decide)

theorem number?_eq (cs : List Char) : number? cs =
    if '/' ∈ withoutPlus cs then
      fraction? ((withoutPlus cs).takeWhile (· ≠ '/'))
        (((withoutPlus cs).dropWhile (· ≠ '/')).drop 1)
    else
      match integer? (withoutPlus cs) with
      | some n => .ok (some (.integer n))
      | none => .ok ((decimal? (withoutPlus cs)).map .float) := rfl

theorem IsInteger.signed (h : IsInteger cs) : Signed BeginsNumber cs :=
  h.mono fun _ => IsNumeral.beginsNumber

theorem IsFraction.signed (h : IsFraction cs) : Signed BeginsNumber cs :=
  (isFraction_iff.1 h).mono fun _ => IsRatio.beginsNumber

theorem IsDecimal.signed (h : IsDecimal cs) : Signed BeginsNumber cs :=
  Signed.mono h fun _ => IsMagnitude.beginsNumber

theorem isInteger_withoutPlus_iff (h : Signed BeginsNumber cs) :
    IsInteger (withoutPlus cs) ↔ IsInteger cs := signed_withoutPlus_iff unsigned_isNumeral h

theorem isFraction_withoutPlus_iff (h : Signed BeginsNumber cs) :
    IsFraction (withoutPlus cs) ↔ IsFraction cs := by
  rw [isFraction_iff, isFraction_iff, signed_withoutPlus_iff unsigned_isRatio h]

theorem isDecimal_withoutPlus_iff (h : Signed BeginsNumber cs) :
    IsDecimal (withoutPlus cs) ↔ IsDecimal cs := signed_withoutPlus_iff unsigned_isMagnitude h

theorem number?_of_isInteger (h : IsInteger cs) :
    number? cs = .ok (some (.integer (integerValue cs))) := by
  have hcs := (isInteger_withoutPlus_iff h.signed).2 h
  rw [number?_eq, if_neg (not_mem_slash_of_isInteger hcs),
    integer?_eq_some_iff.2 ⟨hcs, rfl⟩, integerValue_withoutPlus h]

theorem number?_of_isDecimal (h : IsDecimal cs) (hinteger : ¬IsInteger cs) :
    number? cs = .ok ((decimal? cs).map .float) := by
  have hcs := (isDecimal_withoutPlus_iff h.signed).2 h
  have hnone : integer? (withoutPlus cs) = none := by
    rw [Option.eq_none_iff_forall_ne_some]
    intro n hn
    exact hinteger ((isInteger_withoutPlus_iff h.signed).1 (integer?_eq_some_iff.1 hn).1)
  rw [number?_eq, if_neg (not_mem_slash_of_isDecimal hcs), hnone, decimal?_withoutPlus h.signed]

theorem fraction?_eq {n d : List Char} (hn : IsInteger n) (hd : IsNumeral d) :
    fraction? n d = if digitsValue d = 0 then .error .zeroDenominator
      else .ok (some (.rational ((integerValue n : Rat) / (digitsValue d : Int)))) := by
  have hno := noSign_of_unsigned unsigned_isNumeral hd
  have hvalue : integer? d = some (digitsValue d : Int) :=
    integer?_eq_some_iff.2 ⟨.inl hd, (integerValue_of_noSign hno).symm⟩
  match d with
  | c :: cs =>
    simp only [fraction?, hd.1, if_true, integer?_eq_some_iff.2 ⟨hn, rfl⟩, hvalue,
      Int.natCast_eq_zero]

theorem fraction?_eq_none {n d : List Char} (h : ¬(IsInteger n ∧ IsNumeral d)) :
    fraction? n d = .ok none := by
  match d with
  | [] => rfl
  | c :: cs =>
    by_cases hc : isDigit c = true
    · simp only [fraction?, hc, if_true]
      split
      · next hn hd =>
        have hno : NoSign (c :: cs) := by
          intro x hx
          obtain rfl := Option.some.inj hx
          exact ⟨ne_of_isDigit hc (by decide), ne_of_isDigit hc (by decide)⟩
        have hd := (integer?_eq_some_iff.1 hd).1
        exact absurd ⟨(integer?_eq_some_iff.1 hn).1, (signed_iff_of_noSign hno).1 hd⟩ h
      · rfl
    · simp [fraction?, hc]

theorem withoutPlus_append {n : List Char} (hn : n ≠ []) (rest : List Char) :
    withoutPlus (n ++ rest) = withoutPlus n ++ rest := by
  obtain ⟨c, n, rfl⟩ := List.exists_cons_of_ne_nil hn
  by_cases hc : c = '+'
  · simp [withoutPlus, hc]
  · simp [withoutPlus, hc]

theorem IsInteger.ne_nil (h : IsInteger cs) : cs ≠ [] := by
  rintro rfl
  rcases h with h | ⟨rest, heq | heq, -⟩
  · exact h
  · cases heq
  · cases heq

/-- What stands before the first slash, and behind it. -/
theorem slash_split {n : List Char} (hn : '/' ∉ n) (d : List Char) :
    (n ++ '/' :: d).takeWhile (· ≠ '/') = n ∧
      ((n ++ '/' :: d).dropWhile (· ≠ '/')).drop 1 = d := by
  have hall : ∀ c ∈ n, decide (c ≠ '/') = true := fun c hc =>
    decide_eq_true fun heq => hn (heq ▸ hc)
  have hstop : ∀ c ∈ ('/' :: d).head?, decide (c ≠ '/') = false := by simp
  obtain ⟨htake, hdrop⟩ := takeWhile_front hall hstop
  exact ⟨htake, by rw [hdrop, List.drop_one, List.tail_cons]⟩

theorem number?_of_fraction {n d : List Char} (hn : IsInteger n) (hd : IsNumeral d) :
    number? (n ++ '/' :: d) = if digitsValue d = 0 then .error .zeroDenominator
      else .ok (some (.rational ((integerValue n : Rat) / (digitsValue d : Int)))) := by
  have hn' := (isInteger_withoutPlus_iff hn.signed).2 hn
  obtain ⟨htake, hdrop⟩ := slash_split (not_mem_slash_of_isInteger hn') d
  rw [number?_eq, withoutPlus_append hn.ne_nil, if_pos (by simp), htake, hdrop,
    fraction?_eq hn' hd, integerValue_withoutPlus hn]

theorem exists_slash_split (h : '/' ∈ cs) :
    cs = cs.takeWhile (· ≠ '/') ++ '/' :: (cs.dropWhile (· ≠ '/')).drop 1 := by
  obtain ⟨n, d, rfl, hn⟩ := List.eq_append_cons_of_mem h
  obtain ⟨htake, hdrop⟩ := slash_split hn d
  rw [htake, hdrop]

theorem number?_eq_none (h : Signed BeginsNumber cs) (hinteger : ¬IsInteger cs)
    (hfraction : ¬IsFraction cs) (hdecimal : ¬IsDecimal cs) : number? cs = .ok none := by
  rw [← isInteger_withoutPlus_iff h] at hinteger
  rw [← isFraction_withoutPlus_iff h] at hfraction
  rw [← isDecimal_withoutPlus_iff h] at hdecimal
  rw [number?_eq]
  generalize withoutPlus cs = cs at hinteger hfraction hdecimal
  split
  · next hmem =>
    refine fraction?_eq_none fun hboth => hfraction ?_
    exact ⟨_, _, exists_slash_split hmem, hboth.1, hboth.2⟩
  · have hnone : integer? cs = none := by
      rw [Option.eq_none_iff_forall_ne_some]
      exact fun n hn => hinteger (integer?_eq_some_iff.1 hn).1
    have hnone' : decimal? cs = none := by
      rw [Option.eq_none_iff_forall_ne_some]
      exact fun x hx => hdecimal (isDecimal_iff.2 ⟨x, hx⟩)
    rw [hnone, hnone']
    rfl

end Numbers

section Classification

variable {cs : List Char}

theorem classify_eq (hdot : cs ≠ ['.']) (hhash : cs.head? ≠ some '#') : classify cs =
    if looksNumeric cs then
      match number? cs with
      | .error e => .error e
      | .ok (some token) => .ok token
      | .ok none => .ok (.symbol (String.ofList cs))
    else .ok (.symbol (String.ofList cs)) := by
  rw [classify.eq_def]
  dsimp only
  split
  · exact absurd rfl hdot
  · exact absurd rfl hhash
  · rfl

/-- A numeric text is neither a dot nor does it begin with a hash. -/
theorem classify_of_signed (h : Signed BeginsNumber cs) : classify cs =
    match number? cs with
    | .error e => .error e
    | .ok (some token) => .ok token
    | .ok none => .ok (.symbol (String.ofList cs)) := by
  have hdot : cs ≠ ['.'] := by
    rintro rfl
    rcases h with h | ⟨rest, heq | heq, -⟩
    · simp [BeginsNumber] at h
      exact absurd h (by decide)
    · cases heq
    · cases heq
  have hhash : cs.head? ≠ some '#' := by
    intro hhash
    obtain ⟨rest, rfl⟩ := List.head?_eq_some_iff.1 hhash
    rcases h with (h | h) | ⟨rest, heq | heq, -⟩
    · exact absurd h (by decide)
    · exact absurd h.1 (by decide)
    · exact absurd (List.cons.inj heq).1 (by decide)
    · exact absurd (List.cons.inj heq).1 (by decide)
  rw [classify_eq hdot hhash, if_pos (looksNumeric_iff.2 h)]

theorem classify_of_isInteger (h : IsInteger cs) :
    classify cs = .ok (.integer (integerValue cs)) := by
  rw [classify_of_signed h.signed, number?_of_isInteger h]

theorem classify_of_fraction {n d : List Char} (hn : IsInteger n) (hd : IsNumeral d) :
    classify (n ++ '/' :: d) = if digitsValue d = 0 then .error .zeroDenominator
      else .ok (.rational ((integerValue n : Rat) / (digitsValue d : Int))) := by
  have h : IsFraction (n ++ '/' :: d) := ⟨n, d, rfl, hn, hd⟩
  rw [classify_of_signed h.signed, number?_of_fraction hn hd]
  by_cases hzero : digitsValue d = 0
  · rw [if_pos hzero, if_pos hzero]
  · rw [if_neg hzero, if_neg hzero]

theorem classify_of_decimal {x : Binary64} (h : decimal? cs = some x) (hinteger : ¬IsInteger cs) :
    classify cs = .ok (.float x) := by
  have hdecimal := isDecimal_iff.2 ⟨x, h⟩
  rw [classify_of_signed hdecimal.signed, number?_of_isDecimal hdecimal hinteger, h]
  rfl

theorem classify_of_isName (h : IsName cs) : classify cs = .ok (.symbol (String.ofList cs)) := by
  by_cases hsigned : Signed BeginsNumber cs
  · rw [classify_of_signed hsigned,
      number?_eq_none hsigned h.not_integer h.not_fraction h.not_decimal]
  · rw [classify_eq h.not_dot h.not_hash, if_neg (mt looksNumeric_iff.1 hsigned)]

theorem classify_hash_ne_symbol {name : String} (cs : List Char) :
    classify ('#' :: cs) ≠ .ok (.symbol name) := by
  rw [classify]
  cases hashLiteral? cs <;> simp

/-- What is a symbol is spelled like a name. -/
theorem isName_of_classify {name : String} (hne : cs ≠ [])
    (hcs : ∀ c ∈ cs, isDelimiter c = false) (h : classify cs = .ok (.symbol name)) :
    IsName cs ∧ name = String.ofList cs := by
  have hinteger : ¬IsInteger cs := by
    intro hinteger
    rw [classify_of_isInteger hinteger] at h
    cases h
  have hname : IsName cs := by
    refine ⟨hne, hcs, ?_, ?_, hinteger, ?_, ?_⟩
    · rintro rfl
      cases h
    · intro hhash
      obtain ⟨rest, rfl⟩ := List.head?_eq_some_iff.1 hhash
      exact classify_hash_ne_symbol rest h
    · rintro ⟨n, d, rfl, hn, hd⟩
      rw [classify_of_fraction hn hd] at h
      split at h <;> cases h
    · intro hdecimal
      obtain ⟨x, hx⟩ := isDecimal_iff.1 hdecimal
      rw [classify_of_decimal hx hinteger] at h
      cases h
  refine ⟨hname, ?_⟩
  rw [classify_of_isName hname] at h
  exact (Token.symbol.inj (Except.ok.inj h)).symm

/-- The names are the atoms that are read as symbols. -/
theorem isName_iff (hne : cs ≠ []) (hcs : ∀ c ∈ cs, isDelimiter c = false) :
    IsName cs ↔ classify cs = .ok (.symbol (String.ofList cs)) :=
  ⟨classify_of_isName, fun h => (isName_of_classify hne hcs h).1⟩

/-- A text that is an atom and denotes a datum. -/
structure SpellsAtom (cs : List Char) (d : Datum) : Prop where
  ne_nil : cs ≠ []
  undelimited : ∀ c ∈ cs, isDelimiter c = false
  exists_token : ∃ token, classify cs = .ok token ∧ Place.atom? token = some d

theorem IsName.spellsAtom {name : String} (h : IsName name.toList) :
    SpellsAtom name.toList (.symbol name) where
  ne_nil := h.ne_nil
  undelimited := h.undelimited
  exists_token := ⟨.symbol name, by rw [classify_of_isName h, String.ofList_toList], rfl⟩

theorem spellsAtom_boolean (b : Bool) :
    SpellsAtom (if b then "#t" else "#f").toList (.boolean b) where
  ne_nil := by cases b <;> decide
  undelimited := by
    cases b <;> simp [isDelimiter, Text.isBlank, Text.Ranges.contains, Text.whiteSpace]
  exists_token := ⟨.boolean b, by cases b <;> rfl, rfl⟩

end Classification

end FrameLisp.Source
