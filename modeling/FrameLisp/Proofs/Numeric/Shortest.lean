import FrameLisp.Proofs.Numeric.Rounding

/-!
# The shortest decimal rounds back

What is accepted as the text of a number lies in the interval of rationals that round to it. The
search ends at the latest on a grid that holds the number itself.
-/
namespace FrameLisp.Numeric.Binary64.Finite

variable {x : Finite} {p : ℤ} {d : Nat}

section Grid

theorem unit_pos (x : Finite) (p : ℤ) :
    (0 : ℚ) < (x.unit p).1 ∧ (0 : ℚ) < (x.unit p).2 := by
  have htwo := power_pos two_pos (x.exponent - 2)
  have hten := power_pos (show 0 < 10 by decide) p
  exact_mod_cast And.intro (Nat.mul_pos htwo.1 hten.2) (Nat.mul_pos htwo.2 hten.1)

theorem unit_ratio (x : Finite) (p : ℤ) :
    ((x.unit p).1 : ℚ) / (x.unit p).2 = 2 ^ (x.exponent - 2) / 10 ^ p := by
  have htwo := power_ratio two_pos (x.exponent - 2)
  have hten := power_ratio (show 0 < 10 by decide) p
  rw [Nat.cast_ofNat] at htwo hten
  rw [← htwo, ← hten, div_div_div_eq]
  simp [unit]

/-- Products in units of a grid compare the rationals that they stand for. -/
theorem mul_unit_le_iff (x : Finite) (p : ℤ) (a d : Nat) :
    a * (x.unit p).1 ≤ d * (x.unit p).2 ↔ (a : ℚ) * 2 ^ (x.exponent - 2) ≤ d * 10 ^ p := by
  have hten : (0 : ℚ) < 10 ^ p := by positivity
  calc a * (x.unit p).1 ≤ d * (x.unit p).2
      ↔ (a : ℚ) * (x.unit p).1 ≤ d * (x.unit p).2 := by exact_mod_cast Iff.rfl
    _ ↔ (a : ℚ) * ((x.unit p).1 / (x.unit p).2) ≤ d := by
      rw [← mul_div_assoc, div_le_iff₀ (unit_pos x p).2]
    _ ↔ (a : ℚ) * 2 ^ (x.exponent - 2) ≤ d * 10 ^ p := by
      rw [unit_ratio, ← mul_div_assoc, div_le_iff₀ hten]

theorem le_mul_unit_iff (x : Finite) (p : ℤ) (a d : Nat) :
    d * (x.unit p).2 ≤ a * (x.unit p).1 ↔ (d : ℚ) * 10 ^ p ≤ a * 2 ^ (x.exponent - 2) := by
  have hten : (0 : ℚ) < 10 ^ p := by positivity
  calc d * (x.unit p).2 ≤ a * (x.unit p).1
      ↔ (d : ℚ) * (x.unit p).2 ≤ a * (x.unit p).1 := by exact_mod_cast Iff.rfl
    _ ↔ (d : ℚ) ≤ a * ((x.unit p).1 / (x.unit p).2) := by
      rw [← mul_div_assoc, le_div_iff₀ (unit_pos x p).2]
    _ ↔ (d : ℚ) * 10 ^ p ≤ a * 2 ^ (x.exponent - 2) := by
      rw [unit_ratio, ← mul_div_assoc, le_div_iff₀ hten]

/-- What is accepted rounds to the number. -/
theorem catches_of_accepts (h : x.accepts p d = true) : x.Catches (d * 10 ^ p) := by
  simp only [accepts] at h
  split at h
  · next heven =>
    simp only [Bool.and_eq_true, decide_eq_true_eq] at h
    exact ⟨(mul_unit_le_iff x p _ d).1 h.1, (le_mul_unit_iff x p _ d).1 h.2, fun hodd => by omega⟩
  · simp only [Bool.and_eq_true, decide_eq_true_eq] at h
    have hlow := lt_of_not_ge (mt (le_mul_unit_iff x p _ d).2 (Nat.not_le_of_lt h.1))
    have hhigh := lt_of_not_ge (mt (mul_unit_le_iff x p _ d).2 (Nat.not_le_of_lt h.2))
    exact ⟨hlow.le, hhigh.le, fun _ => ⟨hlow, hhigh⟩⟩

theorem accepts_of_onGrid? (h : x.onGrid? p = some d) : x.accepts p d = true := by
  simp only [onGrid?] at h
  split at h
  · next hbelow habove =>
    obtain rfl := Option.some.inj h
    split
    · exact hbelow
    · exact habove
  · next hbelow _ => exact Option.some.inj h ▸ hbelow
  · next _ habove => exact Option.some.inj h ▸ habove
  · cases h

end Grid

section Search

/-- The number itself lies between the ends of its interval. -/
theorem catches_self (hm : 0 < x.mantissa) : x.Catches (x.mantissa * 2 ^ x.exponent) := by
  have hu : (0 : ℚ) < 2 ^ x.exponent := by positivity
  have hlow : (x.interval.1 : ℚ) < 4 * x.mantissa := by
    have hnat : x.interval.1 < 4 * x.mantissa := by
      simp only [interval]
      split <;> omega
    exact_mod_cast hnat
  have hhigh : (x.interval.2.2 : ℚ) = 4 * x.mantissa + 2 := by simp [interval]
  have hlt : (x.interval.1 : ℚ) * 2 ^ (x.exponent - 2) < x.mantissa * 2 ^ x.exponent ∧
      (x.mantissa : ℚ) * 2 ^ x.exponent < x.interval.2.2 * 2 ^ (x.exponent - 2) := by
    rw [two_zpow_sub_two, hhigh]
    constructor <;> nlinarith
  exact ⟨hlt.1.le, hlt.2.le, fun _ => hlt⟩

theorem two_pow_mul_five_pow (k n : ℕ) :
    (2 : ℚ) ^ k * 5 ^ n * 10 ^ (-n : ℤ) = 2 ^ ((k : ℤ) - n) := by
  have hten : (10 : ℚ) ^ n = 2 ^ n * 5 ^ n := by
    rw [← mul_pow]
    norm_num
  rw [zpow_neg, zpow_natCast, hten, zpow_sub₀ two_ne_zero, zpow_natCast, zpow_natCast]
  field_simp

/-- A grid that is as fine as the number's own holds the number. -/
theorem gridBelow_of_exponent {k n : ℕ} (hk : x.exponent = k - n) :
    (x.gridBelow (-n) : ℚ) * 10 ^ (-n : ℤ) = x.mantissa * 2 ^ x.exponent := by
  have hvalue : ((x.mantissa * (2 ^ k * 5 ^ n) : ℕ) : ℚ) * 10 ^ (-n : ℤ) =
      x.mantissa * 2 ^ x.exponent := by
    rw [hk, ← two_pow_mul_five_pow k n]
    push_cast
    ring
  have hunit : ((4 * x.mantissa : ℕ) : ℚ) * 2 ^ (x.exponent - 2) =
      ((x.mantissa * (2 ^ k * 5 ^ n) : ℕ) : ℚ) * 10 ^ (-n : ℤ) := by
    rw [hvalue, two_zpow_sub_two]
    push_cast
    ring
  have hmul : 4 * x.mantissa * (x.unit (-n)).1 = x.mantissa * (2 ^ k * 5 ^ n) * (x.unit (-n)).2 :=
    le_antisymm ((mul_unit_le_iff x _ _ _).2 hunit.le) ((le_mul_unit_iff x _ _ _).2 hunit.ge)
  have hpos : 0 < (x.unit (-n)).2 := by exact_mod_cast (unit_pos x (-n)).2
  have hgrid : x.gridBelow (-n) = x.mantissa * (2 ^ k * 5 ^ n) := by
    rw [gridBelow]
    dsimp only [interval]
    rw [hmul, Nat.mul_div_cancel _ hpos]
  rw [hgrid, hvalue]

theorem gridBelow_finest (x : Finite) :
    (x.gridBelow (-1074) : ℚ) * 10 ^ (-1074 : ℤ) = x.mantissa * 2 ^ x.exponent := by
  have hleast := x.canonical.2.1
  have hk : x.exponent = ((x.exponent + 1074).toNat : ℤ) - (1074 : ℕ) := by omega
  exact gridBelow_of_exponent hk

/-- A search that goes on to the finest grid finds what rounds to the number. -/
theorem catches_search (hm : 0 < x.mantissa) (steps : Nat) (p : ℤ) (hp : p - steps = -1074) :
    x.Catches ((x.search steps p).1 * 10 ^ (x.search steps p).2) := by
  induction steps generalizing p with
  | zero =>
    obtain rfl : p = -1074 := by simpa using hp
    rw [search, gridBelow_finest]
    exact catches_self hm
  | succ steps ih =>
    rw [search]
    split
    · next d hd => exact catches_of_accepts (accepts_of_onGrid? hd)
    · exact ih (p - 1) (by push_cast at hp; omega)

/-- The shortest decimal of a number rounds to it. -/
theorem catches_shortest (hm : 0 < x.mantissa) :
    x.Catches (x.shortest.1 * 10 ^ x.shortest.2) := by
  refine catches_search hm _ _ ?_
  have hexponent := x.canonical.2.1
  have hcoarsest : -1074 ≤ x.coarsest := by
    rw [coarsest]
    omega
  omega

end Search

section Range

/-- What rounds to a positive number is positive itself, and neither tiny nor huge. -/
theorem Catches.bounds {q : ℚ} (h : x.Catches q) (hm : 0 < x.mantissa) :
    (2 : ℚ) ^ (-1075 : ℤ) ≤ q ∧ q < 2 ^ (1024 : ℤ) := by
  obtain ⟨hbound, hleast, hgreatest, -⟩ := x.canonical
  have hbetween := h.between hm
  have hone : (1 : ℚ) ≤ x.mantissa := by exact_mod_cast hm
  have hmantissa : (x.mantissa : ℚ) + 1 ≤ 2 ^ (53 : ℤ) := by exact_mod_cast hbound
  constructor
  · refine le_trans ?_ hbetween.low_le
    calc (2 : ℚ) ^ (-1075 : ℤ) = 1 / 2 * 2 ^ (-1074 : ℤ) := by
          rw [show (-1075 : ℤ) = -1 + -1074 by norm_num, zpow_add₀ two_ne_zero]
          norm_num
      _ ≤ 1 / 2 * 2 ^ x.exponent := by gcongr; norm_num
      _ ≤ (x.mantissa - 1 / 2) * 2 ^ x.exponent := by gcongr; linarith
  · refine hbetween.le_high.trans_lt ?_
    calc (x.mantissa + 1 / 2 : ℚ) * 2 ^ x.exponent < 2 ^ (53 : ℤ) * 2 ^ x.exponent := by
          gcongr
          linarith
      _ ≤ 2 ^ (53 : ℤ) * 2 ^ (971 : ℤ) := by gcongr; norm_num
      _ = 2 ^ (1024 : ℤ) := by rw [← zpow_add₀ two_ne_zero]; norm_num

theorem two_zpow_le_ten_zpow (k : ℕ) : (2 : ℚ) ^ (3 * k : ℤ) ≤ 10 ^ (k : ℤ) := by
  rw [zpow_mul, zpow_natCast, zpow_natCast]
  gcongr
  norm_num

/-- Decimals that round to a positive number are within the range in which they are computed. -/
theorem Catches.exponent_bounds {digits : Nat} {e : ℤ} (h : x.Catches (digits * 10 ^ e))
    (hm : 0 < x.mantissa) : digits ≠ 0 ∧ e ≤ 400 ∧ -400 ≤ e + digits.log2 + 1 := by
  obtain ⟨hlow, hhigh⟩ := h.bounds hm
  have hten : (0 : ℚ) < 10 ^ e := by positivity
  have hdigits : digits ≠ 0 := by
    rintro rfl
    rw [Nat.cast_zero, zero_mul] at hlow
    exact absurd hlow (not_le.2 (by positivity))
  have hone : (1 : ℚ) ≤ digits := by exact_mod_cast Nat.one_le_iff_ne_zero.2 hdigits
  refine ⟨hdigits, ?_, ?_⟩
  · by_contra hlarge
    have hle : (2 : ℚ) ^ (1024 : ℤ) ≤ digits * 10 ^ e := by
      calc (2 : ℚ) ^ (1024 : ℤ) ≤ 2 ^ (3 * (400 : ℕ) : ℤ) := by gcongr <;> norm_num
        _ ≤ 10 ^ ((400 : ℕ) : ℤ) := two_zpow_le_ten_zpow 400
        _ ≤ 10 ^ e := by
          gcongr
          · norm_num
          · push_cast
            omega
        _ ≤ digits * 10 ^ e := le_mul_of_one_le_left hten.le hone
    exact absurd hhigh (not_lt.2 hle)
  · by_contra hsmall
    have hlog : (digits : ℚ) < 10 ^ ((digits.log2 : ℤ) + 1) := by
      refine (cast_log2_bounds (Nat.pos_of_ne_zero hdigits)).2.trans_le ?_
      exact zpow_le_zpow_left₀ (by omega) (by norm_num) (by norm_num)
    have hlt : digits * 10 ^ e < (2 : ℚ) ^ (-1075 : ℤ) := by
      calc (digits : ℚ) * 10 ^ e < 10 ^ ((digits.log2 : ℤ) + 1) * 10 ^ e := by gcongr
        _ = 10 ^ ((digits.log2 : ℤ) + 1 + e) := (zpow_add₀ (by norm_num) _ _).symm
        _ ≤ 10 ^ (-(400 : ℕ) : ℤ) := by
          gcongr
          · norm_num
          · push_cast
            omega
        _ ≤ 2 ^ (-(3 * (400 : ℕ)) : ℤ) := by
          rw [zpow_neg, zpow_neg]
          gcongr
          exact two_zpow_le_ten_zpow 400
        _ ≤ 2 ^ (-1075 : ℤ) := by gcongr <;> norm_num
    exact absurd hlow (not_le.2 hlt)

/-- A decimal that a positive number catches is that number. -/
theorem ofDecimal_eq {digits : Nat} {e : ℤ} (h : x.Catches (digits * 10 ^ e))
    (hm : 0 < x.mantissa) (negative : Bool) :
    ofDecimal negative digits e = .finite (x.signed negative) := by
  obtain ⟨hdigits, hlarge, hsmall⟩ := h.exponent_bounds hm
  obtain ⟨hn, hd⟩ := power_pos (show 0 < 10 by decide) e
  have hratio := power_ratio (show 0 < 10 by decide) e
  have hq : ((digits * (power 10 e).1 : ℕ) : ℚ) / (power 10 e).2 = digits * 10 ^ e := by
    rw [Nat.cast_mul, mul_div_assoc, hratio, Nat.cast_ofNat]
  rw [ofDecimal, if_neg hdigits, if_neg (by omega), if_neg (by omega)]
  exact round_eq (Nat.mul_pos (Nat.pos_of_ne_zero hdigits) hn) hd hm (hq ▸ h) negative

end Range

end FrameLisp.Numeric.Binary64.Finite
