import FrameLisp.Proofs.Numeric.Rounding

/-!
# What rounds to an infinity

The greatest finite number is `2 ^ 1024 - 2 ^ 971`, and the next multiple of its grid would be
`2 ^ 1024`. A quotient rounds to an infinity exactly from half way between the two on, as the tie
there goes to the even mantissa, which is the one that is too large.
-/
namespace FrameLisp.Numeric

/-- A quotient lies between the halves around the integer that it rounds to. -/
theorem between_roundHalfEven {n d : Nat} (hd : 0 < d) :
    Between (roundHalfEven n d) (roundHalfEven n d - 1 / 2) (roundHalfEven n d + 1 / 2)
      ((n : ℚ) / d) := by
  have hd' : (0 : ℚ) < d := by exact_mod_cast hd
  have hr : (n % d : ℕ) < (d : ℚ) := by exact_mod_cast Nat.mod_lt n hd
  have hr' : (0 : ℚ) ≤ (n % d : ℕ) := Nat.cast_nonneg _
  have hn : (n : ℚ) = (n / d : ℕ) * d + (n % d : ℕ) := by
    exact_mod_cast (Nat.div_add_mod' n d).symm
  simp only [roundHalfEven]
  split
  · next hup =>
    have hle : (d : ℚ) ≤ 2 * (n % d : ℕ) := by
      have hnat : d ≤ 2 * (n % d) := by omega
      exact_mod_cast hnat
    refine ⟨(le_div_iff₀ hd').2 ?_, (div_le_iff₀ hd').2 ?_, fun hodd =>
      ⟨(lt_div_iff₀ hd').2 ?_, (div_lt_iff₀ hd').2 ?_⟩⟩
    · push_cast
      nlinarith
    · push_cast
      nlinarith
    · have hlt : (d : ℚ) < 2 * (n % d : ℕ) := by
        have hnat : d < 2 * (n % d) := by omega
        exact_mod_cast hnat
      push_cast
      nlinarith
    · push_cast
      nlinarith
  · next hdown =>
    have hle : 2 * (n % d : ℕ) ≤ (d : ℚ) := by
      have hnat : 2 * (n % d) ≤ d := by omega
      exact_mod_cast hnat
    refine ⟨(le_div_iff₀ hd').2 ?_, (div_le_iff₀ hd').2 ?_, fun hodd =>
      ⟨(lt_div_iff₀ hd').2 ?_, (div_lt_iff₀ hd').2 ?_⟩⟩
    · nlinarith
    · nlinarith
    · nlinarith
    · have hlt : 2 * (n % d : ℕ) < (d : ℚ) := by
        have hnat : 2 * (n % d) < d := by omega
        exact_mod_cast hnat
      nlinarith

namespace Binary64

/-- The least magnitude that rounds to an infinity, `2 ^ 1024 - 2 ^ 970`. -/
def overflow : ℚ := (2 ^ 53 - 1 / 2) * 2 ^ (971 : ℤ)

theorem overflow_pos : 0 < overflow := mul_pos (by norm_num) (by positivity)

theorem overflow_bounds : (2 : ℚ) ^ (1023 : ℤ) < overflow ∧ overflow ≤ 2 ^ (1024 : ℤ) := by
  have hu : (0 : ℚ) < 2 ^ (971 : ℤ) := by positivity
  have hlow : (2 : ℚ) ^ (1023 : ℤ) = 2 ^ (52 : ℤ) * 2 ^ (971 : ℤ) := by
    rw [← zpow_add₀ two_ne_zero, show (52 + 971 : ℤ) = 1023 from rfl]
  have hhigh : (2 : ℚ) ^ (1024 : ℤ) = 2 ^ (53 : ℤ) * 2 ^ (971 : ℤ) := by
    rw [← zpow_add₀ two_ne_zero, show (53 + 971 : ℤ) = 1024 from rfl]
  rw [overflow, hlow, hhigh]
  constructor
  · gcongr
    norm_num
  · gcongr
    norm_num

theorem cast_mantissaBound : (mantissaBound : ℚ) = 2 ^ 53 := by norm_num [mantissaBound]

theorem cast_leastMantissa : (leastMantissa : ℚ) = 2 ^ 52 := by norm_num [leastMantissa]

theorem pack_eq_infinite_iff {negative sign : Bool} {m : Nat} {e : Int} :
    pack negative m e = .infinite sign ↔ negative = sign ∧ ¬Canonical m e := by
  rw [pack]
  split
  · next h => simp [h]
  · next h => simp [h]

section Round

variable {n d : Nat}

/-- A quotient is rounded on the grid of its binary exponent, or on the finest grid. -/
theorem exists_between_grid (n : Nat) (hd : 0 < d) :
    ∃ m : Nat, ∃ s : ℤ, max (binaryExponent n d - 52) (-1074) = s ∧
      Between m (m - 1 / 2) (m + 1 / 2) ((n : ℚ) / d / 2 ^ s) := by
  obtain ⟨s, hs⟩ : ∃ s, max (binaryExponent n d - 52) (-1074) = s := ⟨_, rfl⟩
  have hratio := power_ratio two_pos s
  have hbetween := between_roundHalfEven (n := n * (power 2 s).2)
    (Nat.mul_pos hd (power_pos two_pos s).1)
  rw [Nat.cast_mul, Nat.cast_mul d, ← div_div_div_eq, hratio, Nat.cast_ofNat] at hbetween
  exact ⟨_, s, hs, hbetween⟩

/-- The mantissa on the grid of a quotient is full, but for the finest grid. -/
theorem mantissa_bounds (hn : 0 < n) (hd : 0 < d) {m : Nat} {s : ℤ}
    (hs : max (binaryExponent n d - 52) (-1074) = s)
    (h : Between m (m - 1 / 2) (m + 1 / 2) ((n : ℚ) / d / 2 ^ s)) :
    m ≤ mantissaBound ∧ (m < leastMantissa → s = -1074) := by
  have hu : (0 : ℚ) < 2 ^ s := by positivity
  obtain ⟨hlow, hhigh⟩ := binaryExponent_spec hn hd
  constructor
  · have hlt : (n : ℚ) / d / 2 ^ s < 2 ^ 53 := by
      rw [div_lt_iff₀ hu]
      calc (n : ℚ) / d < 2 ^ (binaryExponent n d + 1) := hhigh
        _ ≤ 2 ^ ((53 : ℕ) + s) := zpow_le_zpow_right₀ one_le_two (by push_cast; omega)
        _ = 2 ^ 53 * 2 ^ s := by rw [zpow_add₀ two_ne_zero, zpow_natCast]
    have hcast : (m : ℚ) < mantissaBound + 1 := by
      rw [cast_mantissaBound]
      linarith [h.low_le]
    exact Nat.lt_succ_iff.1 (by exact_mod_cast hcast)
  · intro hm
    by_contra hne
    have hle : (2 : ℚ) ^ 52 ≤ (n : ℚ) / d / 2 ^ s := by
      rw [le_div_iff₀ hu]
      calc (2 : ℚ) ^ 52 * 2 ^ s = 2 ^ ((52 : ℕ) + s) := by
            rw [zpow_add₀ two_ne_zero, zpow_natCast]
        _ ≤ 2 ^ binaryExponent n d := zpow_le_zpow_right₀ one_le_two (by push_cast; omega)
        _ ≤ n / d := hlow
    have hcast : (m : ℚ) + 1 ≤ leastMantissa := by exact_mod_cast hm
    rw [cast_leastMantissa] at hcast
    linarith [h.le_high]

/-- Rounding overflows beyond the greatest exponent, and where it carries into the next one. -/
theorem round_eq_infinite_iff_grid (hn : 0 < n) (hd : 0 < d) {negative sign : Bool} {m : Nat}
    {s : ℤ} (hs : max (binaryExponent n d - 52) (-1074) = s)
    (h : Between m (m - 1 / 2) (m + 1 / 2) ((n : ℚ) / d / 2 ^ s)) :
    round negative n d = .infinite sign ↔
      negative = sign ∧ (971 < s ∨ s = 971 ∧ m = mantissaBound) := by
  obtain ⟨hbound, hleast⟩ := mantissa_bounds hn hd hs h
  have hlt : leastMantissa < mantissaBound := by decide
  rw [Finite.round_of_grid hn hd hs h]
  split
  · rw [pack_eq_infinite_iff]
    refine and_congr_right fun _ => ?_
    simp only [Canonical]
    omega
  · rw [pack_eq_infinite_iff]
    refine and_congr_right fun _ => ?_
    simp only [Canonical]
    omega

/-- On the last grid, what carries is what is at least half way to the bound. -/
theorem eq_mantissaBound_iff {m : Nat} (hm : m ≤ mantissaBound) {q : ℚ}
    (h : Between m (m - 1 / 2) (m + 1 / 2) (q / 2 ^ (971 : ℤ))) :
    m = mantissaBound ↔ overflow ≤ q := by
  have hu : (0 : ℚ) < 2 ^ (971 : ℤ) := by positivity
  rw [overflow, ← le_div_iff₀ hu]
  constructor
  · rintro rfl
    have hle := h.low_le
    rw [cast_mantissaBound] at hle
    exact hle
  · intro hle
    by_contra hne
    have hcast : (m : ℚ) + 1 ≤ 2 ^ 53 := by
      rw [← cast_mantissaBound]
      exact_mod_cast Nat.lt_of_le_of_ne hm hne
    -- only the tie with the odd mantissa below the bound remains
    have htie : (m : ℚ) + 1 = 2 ^ 53 := le_antisymm hcast (by linarith [h.le_high])
    have hodd : m % 2 = 1 := by
      have hnat : m + 1 = 2 ^ 53 := by exact_mod_cast htie
      omega
    linarith [(h.odd hodd).2]

/-- A quotient rounds to an infinity exactly from the overflow on. -/
theorem round_eq_infinite_iff (hn : 0 < n) (hd : 0 < d) {negative sign : Bool} :
    round negative n d = .infinite sign ↔ negative = sign ∧ overflow ≤ (n : ℚ) / d := by
  obtain ⟨m, s, hs, hbetween⟩ := exists_between_grid n hd
  obtain ⟨hbound, -⟩ := mantissa_bounds hn hd hs hbetween
  obtain ⟨hlow, hhigh⟩ := binaryExponent_spec hn hd
  rw [round_eq_infinite_iff_grid hn hd hs hbetween]
  refine and_congr_right fun _ => ?_
  rcases lt_trichotomy s 971 with hlt | rfl | hgt
  · have hsmall : (n : ℚ) / d < overflow := by
      calc (n : ℚ) / d < 2 ^ (binaryExponent n d + 1) := hhigh
        _ ≤ 2 ^ (1023 : ℤ) := zpow_le_zpow_right₀ one_le_two (by omega)
        _ < overflow := overflow_bounds.1
    exact iff_of_false (by omega) (not_le.2 hsmall)
  · rw [← eq_mantissaBound_iff hbound hbetween]
    omega
  · have hlarge : overflow ≤ (n : ℚ) / d := by
      calc overflow ≤ 2 ^ (1024 : ℤ) := overflow_bounds.2
        _ ≤ 2 ^ binaryExponent n d := zpow_le_zpow_right₀ one_le_two (by omega)
        _ ≤ n / d := hlow
    exact iff_of_true (.inl hgt) hlarge

end Round

theorem abs_eq_natAbs_div (q : ℚ) : |q| = (q.num.natAbs : ℚ) / q.den := by
  conv_lhs => rw [← Rat.num_div_den q]
  rw [abs_div, Nat.abs_cast, Nat.cast_natAbs, Int.cast_abs]

/-- The rationals that round to an infinity. -/
theorem ofRat_eq_infinite_iff {q : ℚ} {sign : Bool} :
    ofRat q = .infinite sign ↔ decide (q < 0) = sign ∧ overflow ≤ |q| := by
  rw [ofRat, abs_eq_natAbs_div]
  have hsign : decide (q.num < 0) = decide (q < 0) := by simp
  rw [hsign]
  by_cases hq : q.num = 0
  · have hpos := overflow_pos
    simp [hq, round, zero, hpos.not_ge]
  · exact round_eq_infinite_iff (by omega) q.den_pos

/-- The finite numbers lie below the overflow. -/
theorem Finite.abs_value_lt (x : Finite) : |x.value| < overflow := by
  obtain ⟨hbound, -, hgreatest, -⟩ := x.canonical
  have hmagnitude : x.magnitude = x.mantissa * 2 ^ x.exponent := by
    have hratio := power_ratio two_pos x.exponent
    rw [Nat.cast_ofNat] at hratio
    rw [magnitude, Rat.mkRat_eq_div, ← hratio]
    push_cast
    ring
  have habs : |x.value| = x.magnitude := by
    have hnonneg : 0 ≤ x.magnitude := by
      rw [hmagnitude]
      positivity
    rw [value]
    split
    · rw [abs_neg, abs_of_nonneg hnonneg]
    · exact abs_of_nonneg hnonneg
  have hm : (x.mantissa : ℚ) + 1 ≤ 2 ^ 53 := by
    rw [← cast_mantissaBound]
    exact_mod_cast hbound
  calc |x.value| = x.mantissa * 2 ^ x.exponent := habs.trans hmagnitude
    _ ≤ x.mantissa * 2 ^ (971 : ℤ) := by
      gcongr
      norm_num
    _ < overflow := by
      rw [overflow]
      gcongr
      linarith

end Binary64

end FrameLisp.Numeric
