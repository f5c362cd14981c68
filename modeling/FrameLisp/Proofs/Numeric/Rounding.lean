import Mathlib
import FrameLisp.Numeric.Shortest

/-!
# What rounds to a number

The rationals near a finite number round to it: those in an interval around it, whose ends count
when its mantissa is even. Below a power of two the interval ends earlier, as the numbers there lie
closer together; what lies between is rounded on the finer grid, up to the next power of two.
-/
namespace FrameLisp.Numeric

theorem power_ratio {base : Nat} (h : 0 < base) (e : Int) :
    ((power base e).1 : ℚ) / (power base e).2 = (base : ℚ) ^ e := by
  have hbase : (base : ℚ) ≠ 0 := by exact_mod_cast h.ne'
  obtain ⟨n, rfl | rfl⟩ := Int.eq_nat_or_neg e
  · simp [power]
  · simp [power]

theorem cast_power_pos {base : Nat} (h : 0 < base) (e : Int) :
    (0 : ℚ) < (power base e).1 ∧ (0 : ℚ) < (power base e).2 := by
  exact_mod_cast power_pos h e

/-- Between two ends, which count for an even number only. -/
structure Between (m : Nat) (low high q : ℚ) : Prop where
  low_le : low ≤ q
  le_high : q ≤ high
  odd : m % 2 = 1 → low < q ∧ q < high

theorem Between.mono {m : Nat} {low low' high high' q : ℚ} (h : Between m low high q)
    (hlow : low' ≤ low) (hhigh : high ≤ high') : Between m low' high' q :=
  ⟨hlow.trans h.low_le, h.le_high.trans hhigh, fun hm =>
    ⟨hlow.trans_lt (h.odd hm).1, (h.odd hm).2.trans_le hhigh⟩⟩

theorem Between.div {m : Nat} {low high q u : ℚ} (h : Between m (low * u) (high * u) q)
    (hu : 0 < u) : Between m low high (q / u) where
  low_le := (le_div_iff₀ hu).2 h.low_le
  le_high := (div_le_iff₀ hu).2 h.le_high
  odd hm := ⟨(lt_div_iff₀ hu).2 (h.odd hm).1, (div_lt_iff₀ hu).2 (h.odd hm).2⟩

/-- The integer nearest to a quotient is the one that it lies between the halves around. -/
theorem roundHalfEven_eq {n d m : Nat} (hd : 0 < d)
    (h : Between m (m - 1 / 2) (m + 1 / 2) ((n : ℚ) / d)) : roundHalfEven n d = m := by
  have hd' : (0 : ℚ) < d := by exact_mod_cast hd
  have hlow : 2 * (m * d) ≤ 2 * n + d := by
    have hle := (le_div_iff₀ hd').1 h.low_le
    have hcast : (2 * (m * d) : ℚ) ≤ 2 * n + d := by linarith
    exact_mod_cast hcast
  have hhigh : 2 * n ≤ 2 * (m * d) + d := by
    have hle := (div_le_iff₀ hd').1 h.le_high
    have hcast : (2 * n : ℚ) ≤ 2 * (m * d) + d := by linarith
    exact_mod_cast hcast
  have hodd : m % 2 = 1 → 2 * (m * d) < 2 * n + d ∧ 2 * n < 2 * (m * d) + d := by
    intro hm
    obtain ⟨hlt, hgt⟩ := h.odd hm
    have hlt := (lt_div_iff₀ hd').1 hlt
    have hgt := (div_lt_iff₀ hd').1 hgt
    have hcast : (2 * (m * d) : ℚ) < 2 * n + d ∧ (2 * n : ℚ) < 2 * (m * d) + d :=
      ⟨by linarith, by linarith⟩
    exact_mod_cast hcast
  have hr : n % d < d := Nat.mod_lt n hd
  have hdiv : d * (n / d) + n % d = n := Nat.div_add_mod n d
  -- only the quotient and its successor come into question
  have hle : m ≤ n / d + 1 := by
    by_contra hgt
    have hmul : (n / d + 2) * d ≤ m * d := Nat.mul_le_mul_right d (by omega)
    rw [Nat.add_mul, Nat.mul_comm (n / d)] at hmul
    omega
  have hge : n / d ≤ m := by
    by_contra hlt
    have hmul : (m + 1) * d ≤ n / d * d := Nat.mul_le_mul_right d (by omega)
    rw [Nat.add_mul, Nat.mul_comm (n / d)] at hmul
    omega
  rw [roundHalfEven]
  obtain rfl | rfl : m = n / d ∨ m = n / d + 1 := by omega
  · rw [Nat.mul_comm (n / d)] at hhigh hodd
    refine if_neg ?_
    rintro (hgt | ⟨htie, hm⟩)
    · omega
    · have := (hodd hm).2
      omega
  · rw [Nat.add_mul, Nat.mul_comm (n / d)] at hlow hodd
    refine if_pos ?_
    by_cases htie : 2 * (n % d) = d
    · refine .inr ⟨htie, ?_⟩
      by_contra hm
      have := (hodd (by omega)).1
      omega
    · exact .inl (by omega)

namespace Binary64

section Exponent

variable {n d : Nat}

theorem cast_log2_bounds (hn : 0 < n) :
    (2 : ℚ) ^ (n.log2 : ℤ) ≤ n ∧ (n : ℚ) < 2 ^ ((n.log2 : ℤ) + 1) := by
  have hle : 2 ^ n.log2 ≤ n := Nat.log2_self_le hn.ne'
  have hlt : n < 2 ^ (n.log2 + 1) := Nat.lt_log2_self
  exact ⟨by exact_mod_cast hle, by exact_mod_cast hlt⟩

theorem binaryExponent_spec (hn : 0 < n) (hd : 0 < d) :
    (2 : ℚ) ^ binaryExponent n d ≤ n / d ∧ (n : ℚ) / d < 2 ^ (binaryExponent n d + 1) := by
  have hd' : (0 : ℚ) < d := by exact_mod_cast hd
  obtain ⟨hnlow, hnhigh⟩ := cast_log2_bounds hn
  obtain ⟨hdlow, hdhigh⟩ := cast_log2_bounds hd
  have hlow : (2 : ℚ) ^ ((n.log2 : ℤ) - d.log2 - 1) ≤ n / d := by
    rw [le_div_iff₀ hd']
    calc (2 : ℚ) ^ ((n.log2 : ℤ) - d.log2 - 1) * d
        ≤ 2 ^ ((n.log2 : ℤ) - d.log2 - 1) * 2 ^ ((d.log2 : ℤ) + 1) := by gcongr
      _ = 2 ^ (n.log2 : ℤ) := by
        rw [← zpow_add₀ two_ne_zero]
        congr 1
        ring
      _ ≤ n := hnlow
  have hhigh : (n : ℚ) / d < 2 ^ ((n.log2 : ℤ) - d.log2 + 1) := by
    rw [div_lt_iff₀ hd']
    calc (n : ℚ) < 2 ^ ((n.log2 : ℤ) + 1) := hnhigh
      _ = 2 ^ ((n.log2 : ℤ) - d.log2 + 1) * 2 ^ (d.log2 : ℤ) := by
        rw [← zpow_add₀ two_ne_zero]
        congr 1
        ring
      _ ≤ 2 ^ ((n.log2 : ℤ) - d.log2 + 1) * d := by gcongr
  obtain ⟨hp, hp'⟩ := cast_power_pos two_pos ((n.log2 : ℤ) - d.log2)
  have hratio := power_ratio two_pos ((n.log2 : ℤ) - d.log2)
  rw [Nat.cast_ofNat] at hratio
  simp only [binaryExponent]
  split
  · next hlt =>
    have hcast : (n : ℚ) * (power 2 ((n.log2 : ℤ) - d.log2)).2 <
        d * (power 2 ((n.log2 : ℤ) - d.log2)).1 := by exact_mod_cast hlt
    refine ⟨hlow, ?_⟩
    rw [sub_add_cancel, ← hratio, div_lt_div_iff₀ hd' hp']
    linarith
  · next hge =>
    have hcast : (d : ℚ) * (power 2 ((n.log2 : ℤ) - d.log2)).1 ≤
        n * (power 2 ((n.log2 : ℤ) - d.log2)).2 := by exact_mod_cast Nat.le_of_not_lt hge
    refine ⟨?_, hhigh⟩
    rw [← hratio, div_le_div_iff₀ hp' hd']
    linarith

theorem le_binaryExponent (hn : 0 < n) (hd : 0 < d) {k : ℤ} (h : (2 : ℚ) ^ k ≤ n / d) :
    k ≤ binaryExponent n d := by
  have hlt := h.trans_lt (binaryExponent_spec hn hd).2
  have := (zpow_lt_zpow_iff_right₀ one_lt_two).1 hlt
  omega

theorem binaryExponent_lt (hn : 0 < n) (hd : 0 < d) {k : ℤ} (h : (n : ℚ) / d < 2 ^ k) :
    binaryExponent n d < k :=
  (zpow_lt_zpow_iff_right₀ one_lt_two).1 ((binaryExponent_spec hn hd).1.trans_lt h)

end Exponent

namespace Finite

/-- The rationals that round to a positive number. -/
def Catches (x : Finite) (q : ℚ) : Prop :=
  Between x.mantissa (x.interval.1 * 2 ^ (x.exponent - 2)) (x.interval.2.2 * 2 ^ (x.exponent - 2)) q

/-- The number with the same magnitude and the given sign. -/
def signed (x : Finite) (negative : Bool) : Finite := { x with negative }

variable {x : Finite} {q : ℚ}

theorem two_zpow_sub_two (e : ℤ) : (2 : ℚ) ^ (e - 2) = 1 / 4 * 2 ^ e := by
  rw [zpow_sub₀ two_ne_zero]
  norm_num
  ring

/-- Below a power of two, what lies nearer to it than to its neighbour. -/
theorem Catches.of_leastMantissa (h : x.Catches q) (hm : x.mantissa = leastMantissa)
    (he : -1074 < x.exponent) : (leastMantissa - 1 / 4 : ℚ) * 2 ^ x.exponent ≤ q := by
  have hlow := h.low_le
  have hinterval : x.interval.1 = 4 * leastMantissa - 1 := by simp [interval, hm, he]
  rw [hinterval, two_zpow_sub_two] at hlow
  norm_num at hlow ⊢
  linarith

/-- What is caught lies between the halves around the mantissa. -/
theorem Catches.between (h : x.Catches q) (hm : 0 < x.mantissa) :
    Between x.mantissa ((x.mantissa - 1 / 2 : ℚ) * 2 ^ x.exponent)
      ((x.mantissa + 1 / 2 : ℚ) * 2 ^ x.exponent) q := by
  have hu : (0 : ℚ) < 2 ^ x.exponent := by positivity
  refine Between.mono h ?_ ?_
  · have hlow : (4 * x.mantissa - 2 : ℚ) ≤ x.interval.1 := by
      have hnat : 4 * x.mantissa ≤ x.interval.1 + 2 := by
        simp only [interval]
        split <;> omega
      have hcast : (4 * x.mantissa : ℚ) ≤ x.interval.1 + 2 := by exact_mod_cast hnat
      linarith
    rw [two_zpow_sub_two]
    nlinarith
  · have hhigh : (x.interval.2.2 : ℚ) = 4 * x.mantissa + 2 := by simp [interval]
    rw [hhigh, two_zpow_sub_two]
    exact le_of_eq (by ring)

theorem pack_eq (x : Finite) (negative : Bool) :
    pack negative x.mantissa x.exponent = .finite (x.signed negative) := by
  rw [pack, dif_pos x.canonical]
  rfl

/-- The exponent of the grid on which a quotient is rounded. -/
theorem round_of_grid {n d : Nat} {s : ℤ} {m : Nat} (hn : 0 < n) (hd : 0 < d)
    (hs : max (binaryExponent n d - 52) (-1074) = s)
    (h : Between m (m - 1 / 2) (m + 1 / 2) ((n : ℚ) / d / 2 ^ s)) (negative : Bool) :
    round negative n d =
      if m = mantissaBound then pack negative leastMantissa (s + 1) else pack negative m s := by
  have hratio := power_ratio two_pos s
  rw [Nat.cast_ofNat] at hratio
  have hm : roundHalfEven (n * (power 2 s).2) (d * (power 2 s).1) = m := by
    refine roundHalfEven_eq (Nat.mul_pos hd (power_pos two_pos s).1) ?_
    rw [← hratio, div_div_div_eq] at h
    push_cast
    exact h
  rw [round, if_neg hn.ne']
  dsimp only
  rw [hs, hm]

/-- What a positive number catches rounds to it. -/
theorem round_eq {n d : Nat} (hn : 0 < n) (hd : 0 < d) (hm : 0 < x.mantissa)
    (h : x.Catches ((n : ℚ) / d)) (negative : Bool) :
    round negative n d = .finite (x.signed negative) := by
  obtain ⟨hbound, hleast, -, hnormal⟩ := x.canonical
  have hu : (0 : ℚ) < 2 ^ x.exponent := by positivity
  have hbetween := h.between hm
  have hmantissa : (x.mantissa : ℚ) + 1 ≤ 2 ^ 53 := by exact_mod_cast hbound
  have hbelow : binaryExponent n d < x.exponent + 53 := by
    refine binaryExponent_lt hn hd (hbetween.le_high.trans_lt ?_)
    rw [zpow_add₀ two_ne_zero, mul_comm]
    gcongr
    norm_num at hmantissa ⊢
    linarith
  by_cases hgrid : x.exponent = -1074 ∨ (2 : ℚ) ^ (x.exponent + 52) ≤ n / d
  · -- the quotient is rounded on the grid of the number itself
    have hs : max (binaryExponent n d - 52) (-1074) = x.exponent := by
      rcases hgrid with he | hle
      · omega
      · have := le_binaryExponent hn hd hle
        omega
    rw [round_of_grid hn hd hs (hbetween.div hu), if_neg hbound.ne, pack_eq]
  · -- the quotient lies below a power of two, to which it is rounded on the finer grid there
    obtain ⟨he, hlt⟩ := not_or.1 hgrid
    have hlt := lt_of_not_ge hlt
    have hlarge : leastMantissa ≤ x.mantissa := by
      by_contra hsmall
      exact he (hnormal (Nat.lt_of_not_le hsmall))
    have hm52 : x.mantissa = leastMantissa := by
      by_contra hne
      have hnext : leastMantissa + 1 ≤ x.mantissa := by omega
      have hcast : (2 : ℚ) ^ (52 : ℤ) + 1 ≤ x.mantissa := by exact_mod_cast hnext
      have hle : (2 : ℚ) ^ (x.exponent + 52) ≤ (x.mantissa - 1 / 2) * 2 ^ x.exponent := by
        rw [zpow_add₀ two_ne_zero, mul_comm]
        gcongr
        linarith
      exact absurd (hle.trans hbetween.low_le) (not_le.2 hlt)
    have hquarter := h.of_leastMantissa hm52 (by omega)
    have hhalf : (2 : ℚ) ^ (x.exponent - 1) = 1 / 2 * 2 ^ x.exponent := by
      rw [zpow_sub_one₀ two_ne_zero]
      ring
    have hs : max (binaryExponent n d - 52) (-1074) = x.exponent - 1 := by
      have hlower : x.exponent + 51 ≤ binaryExponent n d := by
        refine le_binaryExponent hn hd (le_trans ?_ hquarter)
        rw [zpow_add₀ two_ne_zero, mul_comm]
        gcongr
        norm_num
      have hupper := binaryExponent_lt hn hd hlt
      omega
    have hfine : Between mantissaBound (mantissaBound - 1 / 2) (mantissaBound + 1 / 2)
        ((n : ℚ) / d / 2 ^ (x.exponent - 1)) := by
      have hu' : (0 : ℚ) < 2 ^ (x.exponent - 1) := by positivity
      refine ⟨(le_div_iff₀ hu').2 ?_, (div_le_iff₀ hu').2 ?_, fun hodd => absurd hodd (by decide)⟩
      · rw [hhalf]
        norm_num at hquarter ⊢
        linarith
      · rw [zpow_add₀ two_ne_zero] at hlt
        rw [hhalf]
        norm_num at hlt ⊢
        linarith
    rw [round_of_grid hn hd hs hfine, if_pos rfl, sub_add_cancel, ← hm52, pack_eq]

end Finite

theorem round_ne_nan (negative : Bool) (n d : Nat) : round negative n d ≠ .nan := by
  have hpack : ∀ m e, pack negative m e ≠ .nan := by
    intro m e
    rw [pack]
    split <;> simp
  rw [round]
  dsimp only
  split
  · simp [zero]
  · split
    · exact hpack _ _
    · exact hpack _ _

/-- A decimal is rounded to a number or to an infinity. -/
theorem ofDecimal_ne_nan (negative : Bool) (digits : Nat) (e : Int) :
    ofDecimal negative digits e ≠ .nan := by
  rw [ofDecimal]
  split
  · simp [zero]
  · split
    · simp
    · split
      · simp [zero]
      · exact round_ne_nan _ _ _

end Binary64

end FrameLisp.Numeric
