import FrameLisp.Numeric.Number
import FrameLisp.Proofs.Numeric.Overflow
import FrameLisp.Proofs.Numeric.Shortest

/-!
# Comparison and the order of the values

Numbers are compared by their mathematical values, with one exception: an exact number that is
compared with an infinity is rounded first, and where it rounds to that infinity the two compare as
equal. The comparison stays antisymmetric and its strict part stays transitive; equality is
transitive but for two exact numbers that both equal an infinity.
-/
namespace FrameLisp.Numeric

namespace Binary64

theorem compareRat_eq_cmp (a b : ℚ) : compareRat a b = cmp a b := by
  rw [compareRat]
  rcases lt_trichotomy a b with hlt | rfl | hgt
  · rw [if_pos hlt, hlt.cmp_eq_lt]
  · rw [if_neg (lt_irrefl a), if_pos rfl, cmp_self_eq_eq]
  · rw [if_neg hgt.not_gt, if_neg hgt.ne', hgt.cmp_eq_gt]

/-- A rational that rounds to the infinity of this sign. -/
def Beyond (q : ℚ) (negative : Bool) : Prop := decide (q < 0) = negative ∧ overflow ≤ |q|

theorem beyond_true {q : ℚ} : Beyond q true ↔ q ≤ -overflow := by
  have hpos := overflow_pos
  rw [Beyond, decide_eq_true_eq]
  constructor
  · rintro ⟨hneg, hle⟩
    rw [abs_of_neg hneg] at hle
    linarith
  · intro hle
    have hneg : q < 0 := by linarith
    rw [abs_of_neg hneg]
    exact ⟨hneg, by linarith⟩

theorem beyond_false {q : ℚ} : Beyond q false ↔ overflow ≤ q := by
  have hpos := overflow_pos
  rw [Beyond, decide_eq_false_iff_not, not_lt]
  constructor
  · rintro ⟨hnonneg, hle⟩
    rwa [abs_of_nonneg hnonneg] at hle
  · intro hle
    have hnonneg : 0 ≤ q := by linarith
    rw [abs_of_nonneg hnonneg]
    exact ⟨hnonneg, hle⟩

theorem ofRat_eq_infinite_iff_beyond {q : ℚ} {negative : Bool} :
    ofRat q = .infinite negative ↔ Beyond q negative := ofRat_eq_infinite_iff

theorem Finite.not_beyond (x : Finite) (negative : Bool) : ¬Beyond x.value negative :=
  fun h => absurd h.2 (not_le.2 x.abs_value_lt)

/-- What is further from zero than what rounds to an infinity rounds to it too. -/
theorem Beyond.of_lt {p q : ℚ} (h : Beyond p false) (hlt : p < q) : Beyond q false :=
  beyond_false.2 ((beyond_false.1 h).trans hlt.le)

theorem Beyond.of_gt {p q : ℚ} (h : Beyond p true) (hlt : q < p) : Beyond q true :=
  beyond_true.2 (hlt.le.trans (beyond_true.1 h))

end Binary64

namespace Number

open Binary64 (Beyond)

/-- The rational or the infinity that a number stands for, unless it is not a number. -/
def value? : Number → Option (WithBot (WithTop ℚ))
  | .exact q => some ((q : WithTop ℚ) : WithBot (WithTop ℚ))
  | .inexact .nan => none
  | .inexact (.infinite true) => some ⊥
  | .inexact (.infinite false) => some ((⊤ : WithTop ℚ) : WithBot (WithTop ℚ))
  | .inexact (.finite x) => some ((x.value : WithTop ℚ) : WithBot (WithTop ℚ))

/-- The order of the values of two numbers. -/
def order? (a b : Number) : Option Ordering := do
  let x ← a.value?
  let y ← b.value?
  return cmp x y

/-- An exact number against the infinity that it rounds to. -/
inductive Overflows : Number → Number → Prop
  | left {q : ℚ} {negative : Bool} (h : Beyond q negative) :
      Overflows (.exact q) (.inexact (.infinite negative))
  | right {q : ℚ} {negative : Bool} (h : Beyond q negative) :
      Overflows (.inexact (.infinite negative)) (.exact q)

theorem Overflows.symm {a b : Number} (h : Overflows a b) : Overflows b a := by
  cases h with
  | left h => exact .right h
  | right h => exact .left h

section Order

variable {a b c : Number}

theorem cmp_coe (p q : ℚ) :
    cmp ((p : WithTop ℚ) : WithBot (WithTop ℚ)) ((q : WithTop ℚ) : WithBot (WithTop ℚ)) =
      cmp p q := by
  rw [WithBot.coe_strictMono.cmp_map_eq, WithTop.coe_strictMono.cmp_map_eq]

theorem order?_eq_lt_iff : a.order? b = some .lt ↔
    ∃ x y, a.value? = some x ∧ b.value? = some y ∧ x < y := by
  simp [order?, Option.bind_eq_some_iff, cmp_eq_lt_iff]

theorem order?_eq_eq_iff : a.order? b = some .eq ↔
    ∃ x, a.value? = some x ∧ b.value? = some x := by
  simp [order?, Option.bind_eq_some_iff, cmp_eq_eq_iff]

theorem order?_swap (a b : Number) : b.order? a = (a.order? b).map Ordering.swap := by
  simp only [order?]
  cases a.value? with
  | none => cases b.value? <;> rfl
  | some x =>
    cases b.value? with
    | none => rfl
    | some y => simp [cmp_swap]

theorem order?_nan (a : Number) : a.order? (.inexact .nan) = none := by
  cases h : a.value? <;> simp [order?, value?]

/-- Every exact number lies strictly between the infinities. -/
theorem order?_infinite (q : ℚ) (negative : Bool) :
    order? (.exact q) (.inexact (.infinite negative)) =
      some (if negative then .gt else .lt) := by
  cases negative <;> simp [order?, value?, cmp, cmpUsing]

/-- An exact number is never the infinity that it overflows to. -/
theorem Overflows.order?_ne (h : Overflows a b) : a.order? b ≠ some .eq := by
  cases h with
  | @left q negative _ =>
    rw [order?_infinite]
    cases negative <;> decide
  | @right q negative _ =>
    rw [order?_swap, order?_infinite]
    cases negative <;> decide

end Order

section Compare

variable {a b c : Number}

/-- An exact number compares with an infinity as equal where it rounds to it. -/
theorem Overflows.compare?_eq (h : Overflows a b) : a.compare? b = some .eq := by
  have hmixed : ∀ {q negative}, Beyond q negative →
      compareMixed q (.infinite negative) = some .eq := by
    intro q negative h
    rw [compareMixed, Binary64.ofRat_eq_infinite_iff_beyond.2 h]
    simp [Binary64.toRat?, Binary64.compare]
  cases h with
  | left h => exact hmixed h
  | right h => simp [compare?, hmixed h]

theorem compareMixed_infinite {q : ℚ} {negative : Bool} (h : ¬Beyond q negative) :
    compareMixed q (.infinite negative) =
      order? (.exact q) (.inexact (.infinite negative)) := by
  rw [order?_infinite]
  simp only [compareMixed, Binary64.toRat?]
  cases hround : Binary64.ofRat q with
  | nan => exact absurd hround (Binary64.round_ne_nan _ _ _)
  | finite x => rfl
  | infinite sign =>
    have hsign : sign ≠ negative := by
      rintro rfl
      exact h (Binary64.ofRat_eq_infinite_iff_beyond.1 hround)
    cases sign <;> cases negative <;> simp_all [Binary64.compare]

theorem compareMixed_eq_order? {q : ℚ} {y : Binary64} (h : ¬Overflows (.exact q) (.inexact y)) :
    compareMixed q y = order? (.exact q) (.inexact y) := by
  cases y with
  | nan =>
    rw [order?_nan]
    simp only [compareMixed, Binary64.toRat?]
    cases Binary64.ofRat q <;> rfl
  | infinite negative => exact compareMixed_infinite fun hbeyond => h (.left hbeyond)
  | finite y =>
    simp [compareMixed, Binary64.toRat?, order?, value?, Binary64.compareRat_eq_cmp, cmp_coe]

theorem compare_eq_order? (x y : Binary64) :
    x.compare y = order? (.inexact x) (.inexact y) := by
  cases x with
  | nan => rfl
  | infinite s =>
    cases y with
    | nan => rw [order?_nan]; rfl
    | infinite t =>
      cases s <;> cases t <;> simp [Binary64.compare, order?, value?, cmp, cmpUsing]
    | finite y => cases s <;> simp [Binary64.compare, order?, value?, cmp, cmpUsing]
  | finite x =>
    cases y with
    | nan => rfl
    | infinite t => cases t <;> simp [Binary64.compare, order?, value?, cmp, cmpUsing]
    | finite y =>
      simp [Binary64.compare, order?, value?, Binary64.compareRat_eq_cmp, cmp_coe]

/-- Numbers compare by value, unless one overflows to the other. -/
theorem compare?_eq_order? (h : ¬Overflows a b) : a.compare? b = a.order? b := by
  cases a with
  | exact p =>
    cases b with
    | exact q => simp [compare?, order?, value?, Binary64.compareRat_eq_cmp, cmp_coe]
    | inexact y => exact compareMixed_eq_order? h
  | inexact x =>
    cases b with
    | exact q =>
      rw [order?_swap, ← compareMixed_eq_order? fun hoverflow => h hoverflow.symm]
      rfl
    | inexact y => exact compare_eq_order? x y

theorem compare?_eq_lt_iff : a.compare? b = some .lt ↔ ¬Overflows a b ∧ a.order? b = some .lt := by
  by_cases h : Overflows a b
  · simp [h, h.compare?_eq]
  · simp [h, compare?_eq_order? h]

theorem compare?_eq_eq_iff : a.compare? b = some .eq ↔ Overflows a b ∨ a.order? b = some .eq := by
  by_cases h : Overflows a b
  · simp [h, h.compare?_eq]
  · simp [h, compare?_eq_order? h]

/-- The order of two numbers is the reverse of their order the other way round. -/
theorem compare?_swap (a b : Number) : b.compare? a = (a.compare? b).map Ordering.swap := by
  by_cases h : Overflows a b
  · rw [h.compare?_eq, h.symm.compare?_eq]
    rfl
  · rw [compare?_eq_order? h, compare?_eq_order? fun hoverflow => h hoverflow.symm, order?_swap]

end Compare

section Transitivity

variable {a b c : Number}

theorem order?_bot_ne_lt (a : Number) : a.order? (.inexact (.infinite true)) ≠ some .lt := by
  simp [Ne, order?_eq_lt_iff, value?]

theorem order?_top_ne_lt (b : Number) : order? (.inexact (.infinite false)) b ≠ some .lt := by
  rw [Ne, order?_eq_lt_iff]
  rintro ⟨x, y, hx, hy, hlt⟩
  obtain rfl := Option.some.inj hx
  exact not_top_lt hlt

/-- Above a number that overflows lies only what overflows too, and the infinity. -/
theorem overflows_of_lt {q : ℚ} (h : Beyond q false) (hlt : order? (.exact q) b = some .lt) :
    b = .inexact (.infinite false) ∨ Overflows b (.inexact (.infinite false)) := by
  obtain ⟨x, y, hx, hy, hxy⟩ := order?_eq_lt_iff.1 hlt
  obtain rfl := Option.some.inj hx
  cases b with
  | exact r =>
    obtain rfl := Option.some.inj hy
    exact .inr (.left (h.of_lt (by simpa using hxy)))
  | inexact y =>
    cases y with
    | nan => cases hy
    | infinite negative =>
      cases negative with
      | true => exact absurd hlt (order?_bot_ne_lt _)
      | false => exact .inl rfl
    | finite y =>
      obtain rfl := Option.some.inj hy
      exact absurd (h.of_lt (by simpa using hxy)) (y.not_beyond false)

/-- Below a number that overflows lies only what overflows too, and the infinity. -/
theorem overflows_of_gt {q : ℚ} (h : Beyond q true) (hlt : order? b (.exact q) = some .lt) :
    b = .inexact (.infinite true) ∨ Overflows b (.inexact (.infinite true)) := by
  obtain ⟨y, x, hy, hx, hyx⟩ := order?_eq_lt_iff.1 hlt
  obtain rfl := Option.some.inj hx
  cases b with
  | exact r =>
    obtain rfl := Option.some.inj hy
    exact .inr (.left (h.of_gt (by simpa using hyx)))
  | inexact y =>
    cases y with
    | nan => cases hy
    | infinite negative =>
      cases negative with
      | true => exact .inl rfl
      | false => exact absurd hlt (order?_top_ne_lt _)
    | finite y =>
      obtain rfl := Option.some.inj hy
      exact absurd (h.of_gt (by simpa using hyx)) (y.not_beyond true)

/-- What lies between an exact number and the infinity that it overflows to overflows too. -/
theorem Overflows.of_between (h : Overflows a c) (hab : a.order? b = some .lt)
    (hbc : b.order? c = some .lt) : Overflows a b ∨ Overflows b c := by
  cases h with
  | @left q negative h =>
    cases negative with
    | true => exact absurd hbc (order?_bot_ne_lt b)
    | false =>
      rcases overflows_of_lt h hab with rfl | hoverflow
      · exact absurd hbc (order?_top_ne_lt _)
      · exact .inr hoverflow
  | @right q negative h =>
    cases negative with
    | true =>
      rcases overflows_of_gt h hbc with rfl | hoverflow
      · exact absurd hab (order?_bot_ne_lt _)
      · exact .inl hoverflow.symm
    | false => exact absurd hab (order?_top_ne_lt b)

theorem order?_lt_trans (hab : a.order? b = some .lt) (hbc : b.order? c = some .lt) :
    a.order? c = some .lt := by
  obtain ⟨x, y, hx, hy, hxy⟩ := order?_eq_lt_iff.1 hab
  obtain ⟨y', z, hy', hz, hyz⟩ := order?_eq_lt_iff.1 hbc
  obtain rfl : y = y' := Option.some.inj (hy.symm.trans hy')
  exact order?_eq_lt_iff.2 ⟨x, z, hx, hz, hxy.trans hyz⟩

theorem compare?_lt_trans (hab : a.compare? b = some .lt) (hbc : b.compare? c = some .lt) :
    a.compare? c = some .lt := by
  rw [compare?_eq_lt_iff] at hab hbc ⊢
  refine ⟨fun h => ?_, order?_lt_trans hab.2 hbc.2⟩
  rcases h.of_between hab.2 hbc.2 with hoverflow | hoverflow
  · exact hab.1 hoverflow
  · exact hbc.1 hoverflow

theorem value?_eq_infinite {negative : Bool}
    (h : c.value? = value? (.inexact (.infinite negative))) :
    c = .inexact (.infinite negative) := by
  cases c with
  | exact r => cases negative <;> simp [value?] at h
  | inexact z =>
    cases z with
    | nan => cases negative <;> simp [value?] at h
    | infinite sign => cases negative <;> cases sign <;> simp [value?] at h ⊢
    | finite z => cases negative <;> simp [value?] at h

theorem value?_eq_exact {q : ℚ} (h : c.value? = value? (.exact q)) :
    c = .exact q ∨ ∃ z : Binary64.Finite, z.value = q := by
  cases c with
  | exact r =>
    obtain rfl : r = q := by simpa [value?] using h
    exact .inl rfl
  | inexact z =>
    cases z with
    | nan => cases h
    | infinite sign => cases sign <;> simp [value?] at h
    | finite z => exact .inr ⟨z, by simpa [value?] using h⟩

/-- Nothing else has the value of a number that overflows, or that is overflowed to. -/
theorem Overflows.eq_of_order? (h : Overflows a b) (hbc : b.order? c = some .eq) : b = c := by
  obtain ⟨x, hb, hc⟩ := order?_eq_eq_iff.1 hbc
  have hvalue : c.value? = b.value? := hc.trans hb.symm
  cases h with
  | left _ => exact (value?_eq_infinite hvalue).symm
  | right h =>
    rcases value?_eq_exact hvalue with rfl | ⟨z, rfl⟩
    · rfl
    · exact absurd h (z.not_beyond _)

theorem order?_eq_trans (hab : a.order? b = some .eq) (hbc : b.order? c = some .eq) :
    a.order? c = some .eq := by
  obtain ⟨x, ha, hb⟩ := order?_eq_eq_iff.1 hab
  obtain ⟨y, hb', hc⟩ := order?_eq_eq_iff.1 hbc
  obtain rfl : x = y := Option.some.inj (hb.symm.trans hb')
  exact order?_eq_eq_iff.2 ⟨x, ha, hc⟩

theorem order?_eq_symm (hab : a.order? b = some .eq) : b.order? a = some .eq := by
  rw [order?_swap, hab]
  rfl

/-- Numbers that equal a third one are equal, unless both steps overflow. -/
theorem compare?_eq_trans (hab : a.compare? b = some .eq) (hbc : b.compare? c = some .eq) :
    a.compare? c = some .eq ∨ Overflows a b ∧ Overflows b c := by
  rw [compare?_eq_eq_iff] at hab hbc ⊢
  rcases hab with hab | hab
  · rcases hbc with hbc | hbc
    · exact .inr ⟨hab, hbc⟩
    · exact .inl (.inl (hab.eq_of_order? hbc ▸ hab))
  · rcases hbc with hbc | hbc
    · exact .inl (.inl (hbc.symm.eq_of_order? (order?_eq_symm hab) ▸ hbc))
    · exact .inl (.inr (order?_eq_trans hab hbc))

end Transitivity

/-- The comparison is the order of the values exactly where neither number overflows to the other.
It is antisymmetric, its strict part is transitive, and equality is transitive unless both of its
steps overflow. -/
theorem compare?_laws (a b c : Number) :
    (a.compare? b = a.order? b ↔ ¬Overflows a b) ∧
      b.compare? a = (a.compare? b).map Ordering.swap ∧
      (a.compare? b = some .lt → b.compare? c = some .lt → a.compare? c = some .lt) ∧
      (a.compare? b = some .eq → b.compare? c = some .eq →
        a.compare? c = some .eq ∨ Overflows a b ∧ Overflows b c) := by
  refine ⟨⟨fun heq h => ?_, compare?_eq_order?⟩, compare?_swap a b, compare?_lt_trans,
    compare?_eq_trans⟩
  exact h.order?_ne (heq ▸ h.compare?_eq)

theorem beyond_ten_pow {k : ℕ} (hk : 342 ≤ k) : Beyond (10 ^ k) false := by
  refine Binary64.beyond_false.2 ?_
  calc Binary64.overflow ≤ 2 ^ (1024 : ℤ) := Binary64.overflow_bounds.2
    _ ≤ 2 ^ (3 * k : ℤ) := zpow_le_zpow_right₀ one_le_two (by omega)
    _ ≤ 10 ^ (k : ℤ) := Binary64.Finite.two_zpow_le_ten_zpow k
    _ = 10 ^ k := zpow_natCast _ k

/-- Two different powers of ten both equal the infinity that lies above them. -/
theorem compare?_ten_pow_infinite :
    compare? (.exact (10 ^ 400)) (.inexact (.infinite false)) = some .eq ∧
      order? (.exact (10 ^ 400)) (.inexact (.infinite false)) = some .lt ∧
      compare? (.inexact (.infinite false)) (.exact (10 ^ 401)) = some .eq ∧
      compare? (.exact (10 ^ 400)) (.exact (10 ^ 401)) = some .lt := by
  refine ⟨Overflows.compare?_eq (.left (beyond_ten_pow (by norm_num))), order?_infinite _ _,
    Overflows.compare?_eq (.right (beyond_ten_pow (by norm_num))), ?_⟩
  have hlt : (10 : ℚ) ^ 400 < 10 ^ 401 := pow_lt_pow_right₀ (by norm_num) (by norm_num)
  simp only [compare?, Binary64.compareRat_eq_cmp, hlt.cmp_eq_lt]

end Number

end FrameLisp.Numeric
