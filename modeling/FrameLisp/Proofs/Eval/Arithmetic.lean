import FrameLisp.Eval.Run
import Mathlib

/-!
# What the arithmetic primitives compute

The first argument that is not a number decides everything. Otherwise a result is exact if all
arguments are, and it is then the result of the operation on rationals. A division fails where it
divides an exact number by an exact zero, so that a zero behind an inexact number does no harm.
-/
namespace FrameLisp

open Numeric

namespace Numeric.Number

/-- An operation that is one on rationals for exact numbers, and inexact for all others. -/
structure Extends (op : Number → Number → Number) (f : ℚ → ℚ → ℚ) : Prop where
  eq_exact : ∀ a b, op (.exact a) (.exact b) = .exact (f a b)
  isExact_eq : ∀ a b, (op a b).isExact = (a.isExact && b.isExact)

theorem extends_add : Extends add (· + ·) :=
  ⟨fun _ _ => rfl, fun a b => by cases a <;> cases b <;> rfl⟩

theorem extends_mul : Extends mul (· * ·) :=
  ⟨fun _ _ => rfl, fun a b => by cases a <;> cases b <;> rfl⟩

theorem extends_sub : Extends sub (· - ·) :=
  ⟨fun _ _ => rfl, fun a b => by cases a <;> cases b <;> rfl⟩

section Folds

variable {op : Number → Number → Number} {f : ℚ → ℚ → ℚ}

theorem Extends.isExact_foldl (h : Extends op f) (n : Number) (ns : List Number) :
    (ns.foldl op n).isExact = (n.isExact && ns.all Number.isExact) := by
  induction ns generalizing n with
  | nil => simp
  | cons m ns ih => rw [List.foldl_cons, ih, h.isExact_eq, List.all_cons, Bool.and_assoc]

theorem Extends.foldl_exact (h : Extends op f) (q : ℚ) (qs : List ℚ) :
    (qs.map Number.exact).foldl op (.exact q) = .exact (qs.foldl f q) := by
  induction qs generalizing q with
  | nil => rfl
  | cons r qs ih => rw [List.map_cons, List.foldl_cons, h.eq_exact, ih, List.foldl_cons]

/-- If an operation takes in two arguments as it takes in what a second operation makes of them, a
fold of it takes in all arguments at once. -/
theorem foldl_eq_foldr {f g : ℚ → ℚ → ℚ} {unit : ℚ} (hunit : ∀ q, f q unit = q)
    (hboth : ∀ q r t, f (f q r) t = f q (g r t)) (q : ℚ) (qs : List ℚ) :
    qs.foldl f q = f q (qs.foldr g unit) := by
  induction qs generalizing q with
  | nil => exact (hunit q).symm
  | cons r qs ih => rw [List.foldl_cons, ih, hboth, List.foldr_cons]

theorem foldl_add_eq (q : ℚ) (qs : List ℚ) : qs.foldl (· + ·) q = q + qs.sum :=
  foldl_eq_foldr add_zero add_assoc q qs

theorem foldl_mul_eq (q : ℚ) (qs : List ℚ) : qs.foldl (· * ·) q = q * qs.prod :=
  foldl_eq_foldr mul_one mul_assoc q qs

theorem foldl_sub_eq (q : ℚ) (qs : List ℚ) : qs.foldl (· - ·) q = q - qs.sum :=
  foldl_eq_foldr sub_zero sub_sub q qs

end Folds

theorem isExact_neg (n : Number) : n.neg.isExact = n.isExact := by cases n <;> rfl

theorem isExact_ofInt (k : Int) : (ofInt k).isExact = true := rfl

/-- A division has no result only where an exact number is divided by an exact zero. -/
theorem div?_cases (a b : Number) :
    (∃ q, a = .exact q ∧ b = .exact 0 ∧ a.div? b = none) ∨
      ∃ c, a.div? b = some c ∧ c.isExact = (a.isExact && b.isExact) ∧
        ¬(a.isExact = true ∧ b = .exact 0) ∧
        ∀ q r, a = .exact q → b = .exact r → c = .exact (q / r) := by
  cases a with
  | inexact x => exact .inr ⟨_, rfl, rfl, by simp [isExact], by simp⟩
  | exact q =>
    cases b with
    | inexact y => exact .inr ⟨_, rfl, rfl, by simp, by simp⟩
    | exact r =>
      by_cases hr : r = 0
      · subst hr
        exact .inl ⟨q, rfl, rfl, rfl⟩
      · refine .inr ⟨.exact (q / r), if_neg hr, rfl, by simp [hr], ?_⟩
        rintro _ _ ⟨⟩ ⟨⟩
        rfl

end Numeric.Number

namespace Arithmetic

section Arguments

/-- An argument list consists of numbers, up to the first argument that is not one, if any. -/
theorem exists_numbers (ds : List Datum) :
    (∃ ns : List Number, ds = ns.map Datum.number) ∨
      ∃ (ns : List Number) (d : Datum) (after : List Datum),
        ds = ns.map Datum.number ++ d :: after ∧ d.asNumber? = none := by
  induction ds with
  | nil => exact .inl ⟨[], rfl⟩
  | cons d ds ih =>
    cases hd : d.asNumber? with
    | none => exact .inr ⟨[], d, ds, rfl, hd⟩
    | some n =>
      obtain rfl : d = .number n := by cases d <;> simp_all [Datum.asNumber?]
      rcases ih with ⟨ns, rfl⟩ | ⟨ns, d, after, rfl, hd⟩
      · exact .inl ⟨n :: ns, rfl⟩
      · exact .inr ⟨n :: ns, d, after, rfl, hd⟩

theorem numbersFrom_append (p : Primitive) (read ns : List Number) (ds : List Datum) :
    numbersFrom p read (ns.map .number ++ ds) = numbersFrom p (ns.reverse ++ read) ds := by
  induction ns generalizing read with
  | nil => rfl
  | cons n ns ih =>
    rw [List.map_cons, List.cons_append, numbersFrom, List.reverse_cons, List.append_assoc]
    exact ih (n :: read)

theorem numbers_map (p : Primitive) (ns : List Number) :
    numbers p (ns.map .number) = .ok ns := by
  rw [numbers, ← List.append_nil (ns.map Datum.number), numbersFrom_append, numbersFrom]
  simp

theorem numbers_of_not_number (p : Primitive) (ns : List Number) {d : Datum}
    (after : List Datum) (hd : d.asNumber? = none) :
    numbers p (ns.map .number ++ d :: after) = .error (.wrongType p .number d) := by
  rw [numbers, numbersFrom_append, numbersFrom, hd]

end Arguments

section Division

/-- Whether a division comes to divide an exact number by an exact zero: by the only number, or by
one behind at least one number and exact numbers only. -/
inductive DividesByZero : List Number → Prop
  | only : DividesByZero [.exact 0]
  | behind (q : ℚ) (qs : List ℚ) (ns : List Number) :
      DividesByZero (.exact q :: qs.map .exact ++ .exact 0 :: ns)

theorem quotientFrom_eq_none_iff {n : Number} {ds : List Number} :
    quotientFrom n ds = none ↔
      n.isExact = true ∧
        ∃ (qs : List ℚ) (ns : List Number), ds = qs.map .exact ++ .exact 0 :: ns := by
  induction ds generalizing n with
  | nil => simp [quotientFrom]
  | cons d ds ih =>
    rw [quotientFrom]
    rcases n.div?_cases d with ⟨q, rfl, rfl, hdiv⟩ | ⟨c, hdiv, hexact, hzero, -⟩
    · rw [hdiv]
      exact iff_of_true rfl ⟨rfl, [], ds, rfl⟩
    · rw [hdiv]
      dsimp only
      rw [ih, hexact, Bool.and_eq_true]
      constructor
      · rintro ⟨⟨hn, hd⟩, qs, ns, rfl⟩
        cases d with
        | exact r => exact ⟨hn, r :: qs, ns, rfl⟩
        | inexact y => cases hd
      · rintro ⟨hn, qs, ns, hds⟩
        cases qs with
        | nil => exact absurd ⟨hn, (List.cons.inj hds).1⟩ hzero
        | cons r qs =>
          obtain ⟨rfl, rfl⟩ := List.cons.inj hds
          exact ⟨⟨hn, rfl⟩, qs, ns, rfl⟩

theorem isExact_quotientFrom {n m : Number} {ds : List Number} (h : quotientFrom n ds = some m) :
    m.isExact = (n.isExact && ds.all Number.isExact) := by
  induction ds generalizing n with
  | nil =>
    obtain rfl := Option.some.inj h
    simp
  | cons d ds ih =>
    rw [quotientFrom] at h
    rcases n.div?_cases d with ⟨_, _, _, hdiv⟩ | ⟨c, hdiv, hexact, -, -⟩
    · simp [hdiv] at h
    · rw [hdiv] at h
      rw [ih h, hexact, List.all_cons, Bool.and_assoc]

theorem quotientFrom_exact {q : ℚ} {qs : List ℚ} {m : Number}
    (h : quotientFrom (.exact q) (qs.map .exact) = some m) : m = .exact (q / qs.prod) := by
  induction qs generalizing q with
  | nil =>
    obtain rfl := Option.some.inj h
    simp
  | cons r qs ih =>
    rw [List.map_cons, quotientFrom] at h
    rcases (Number.exact q).div?_cases (.exact r) with ⟨_, _, _, hdiv⟩ | ⟨c, hdiv, -, -, hc⟩
    · simp [hdiv] at h
    · rw [hdiv, hc q r rfl rfl] at h
      rw [ih h, List.prod_cons, div_div]

theorem quotient?_eq_none_iff {ns : List Number} : quotient? ns = none ↔ DividesByZero ns := by
  match ns with
  | [] => exact iff_of_false (by simp [quotient?]) (by rintro ⟨⟩)
  | [n] =>
    rw [quotient?]
    rcases (Number.ofInt 1).div?_cases n with ⟨q, -, rfl, hdiv⟩ | ⟨c, hdiv, -, hzero, -⟩
    · exact iff_of_true hdiv .only
    · refine iff_of_false (by simp [hdiv]) fun h => ?_
      generalize hns : [n] = ns at h
      cases h with
      | only => exact hzero ⟨rfl, (List.cons.inj hns).1⟩
      | behind q qs ns => simp at hns
  | n :: m :: ns =>
    rw [quotient?, quotientFrom_eq_none_iff]
    · constructor
      · rintro ⟨hn, qs, ns', hns⟩
        cases n with
        | exact q => exact hns ▸ .behind q qs ns'
        | inexact x => cases hn
      · intro h
        generalize hall : n :: m :: ns = all at h
        cases h with
        | only => simp at hall
        | behind q qs ns' =>
          obtain ⟨rfl, htail⟩ := List.cons.inj hall
          exact ⟨rfl, qs, ns', htail⟩
    · simp

end Division

section Values

/-- What an operation makes of exact numbers: a sum or a product, the negation of one number or the
difference of the first and the sum of the others, and likewise for reciprocals and quotients. -/
inductive ExactValue : Primitive → List ℚ → ℚ → Prop
  | sum (qs : List ℚ) : ExactValue .add qs qs.sum
  | product (qs : List ℚ) : ExactValue .mul qs qs.prod
  | negation (q : ℚ) : ExactValue .sub [q] (-q)
  | difference (q r : ℚ) (qs : List ℚ) : ExactValue .sub (q :: r :: qs) (q - (r :: qs).sum)
  | reciprocal (q : ℚ) : ExactValue .div [q] q⁻¹
  | quotient (q r : ℚ) (qs : List ℚ) : ExactValue .div (q :: r :: qs) (q / (r :: qs).prod)

/-- Whether a number is what an operation makes of others: exact if they all are, and then their
value. -/
structure IsResult (p : Primitive) (ns : List Number) (n : Number) : Prop where
  isExact_iff : n.isExact = true ↔ ∀ m ∈ ns, m.isExact = true
  value : ∀ qs : List ℚ, ns = qs.map .exact → ∃ q, n = .exact q ∧ ExactValue p qs q

theorem isResult_sum (ns : List Number) : IsResult .add ns (sum ns) := by
  refine ⟨?_, ?_⟩
  · rw [sum, Number.extends_add.isExact_foldl]
    simp [Number.isExact_ofInt]
  · rintro qs rfl
    refine ⟨qs.sum, ?_, .sum qs⟩
    rw [sum, Number.ofInt, Number.extends_add.foldl_exact, Number.foldl_add_eq]
    simp

theorem isResult_product (ns : List Number) : IsResult .mul ns (product ns) := by
  refine ⟨?_, ?_⟩
  · rw [product, Number.extends_mul.isExact_foldl]
    simp [Number.isExact_ofInt]
  · rintro qs rfl
    refine ⟨qs.prod, ?_, .product qs⟩
    rw [product, Number.ofInt, Number.extends_mul.foldl_exact, Number.foldl_mul_eq]
    simp

theorem isResult_difference {ns : List Number} (hne : ns ≠ []) :
    IsResult .sub ns (difference ns) := by
  match ns, hne with
  | [n], _ =>
    refine ⟨by simp [difference, Number.isExact_neg], fun qs hqs => ?_⟩
    obtain ⟨q, rfl, rfl⟩ := List.map_eq_singleton_iff.1 hqs.symm
    exact ⟨-q, rfl, .negation q⟩
  | n :: m :: ns, _ =>
    have hfold : difference (n :: m :: ns) = (m :: ns).foldl Number.sub n := rfl
    refine ⟨?_, fun qs hqs => ?_⟩
    · rw [hfold, Number.extends_sub.isExact_foldl]
      simp
    · obtain ⟨q, rest, rfl, rfl, hrest⟩ := List.map_eq_cons_iff.1 hqs.symm
      obtain ⟨r, qs, rfl, -, -⟩ := List.map_eq_cons_iff.1 hrest
      refine ⟨_, ?_, .difference q r qs⟩
      rw [hfold, ← hrest, Number.extends_sub.foldl_exact, Number.foldl_sub_eq]

theorem isResult_quotient? {ns : List Number} {n : Number} (hne : ns ≠ [])
    (h : quotient? ns = some n) : IsResult .div ns n := by
  match ns, hne with
  | [m], _ =>
    rw [quotient?] at h
    rcases (Number.ofInt 1).div?_cases m with ⟨_, _, _, hdiv⟩ | ⟨c, hdiv, hexact, -, hc⟩
    · simp [hdiv] at h
    · obtain rfl : c = n := by simpa [hdiv] using h
      refine ⟨by simp [hexact, Number.isExact_ofInt], fun qs hqs => ?_⟩
      obtain ⟨q, rfl, rfl⟩ := List.map_eq_singleton_iff.1 hqs.symm
      refine ⟨q⁻¹, ?_, .reciprocal q⟩
      rw [hc _ q rfl rfl]
      simp
  | n' :: m :: ns, _ =>
    rw [quotient?] at h
    · refine ⟨?_, fun qs hqs => ?_⟩
      · rw [isExact_quotientFrom h]
        simp
      · obtain ⟨q, rest, rfl, rfl, hrest⟩ := List.map_eq_cons_iff.1 hqs.symm
        obtain ⟨r, qs, rfl, -, -⟩ := List.map_eq_cons_iff.1 hrest
        rw [← hrest] at h
        exact ⟨_, quotientFrom_exact h, .quotient q r qs⟩
    · simp

end Values

section Decisions

variable {p : Primitive} {arguments : List Datum} {result : Except EvalError Datum}

/-- How the arguments of an arithmetic primitive decide what it leads to. -/
structure Decides (p : Primitive) (arguments : List Datum) (result : Except EvalError Datum) :
    Prop where
  /-- A type is at fault exactly if some argument is not a number. -/
  wrongType_iff : (∃ q expected got, result = .error (.wrongType q expected got)) ↔
    ∃ d ∈ arguments, d.asNumber? = none
  /-- The first such argument is named, whatever stands before and behind it. -/
  first : ∀ before d after, arguments = before ++ d :: after →
    (∀ x ∈ before, x.asNumber? ≠ none) → d.asNumber? = none →
    result = .error (.wrongType p .number d)
  /-- Of numbers, only a division comes to nothing, and only by an exact zero. -/
  divisionByZero_iff : ∀ ns : List Number, arguments = ns.map .number →
    (result = .error .divisionByZero ↔ p = .div ∧ DividesByZero ns)
  value : ∀ ns : List Number, arguments = ns.map .number → ¬(p = .div ∧ DividesByZero ns) →
    ∃ n, result = .ok (.number n) ∧ IsResult p ns n

/-- What a primitive makes of numbers. -/
inductive Yields (p : Primitive) (ns : List Number) : Except EvalError Datum → Prop
  | divisionByZero : p = .div → DividesByZero ns → Yields p ns (.error .divisionByZero)
  | value {n : Number} : ¬(p = .div ∧ DividesByZero ns) → IsResult p ns n →
      Yields p ns (.ok (.number n))

theorem number_injective : Function.Injective Datum.number := fun _ _ => Datum.number.inj

theorem Decides.of_yields {ns : List Number} (h : Yields p ns result) :
    Decides p (ns.map .number) result := by
  have hnumbers : ∀ d ∈ ns.map Datum.number, d.asNumber? ≠ none := by simp [Datum.asNumber?]
  refine ⟨iff_of_false ?_ ?_, ?_, ?_, ?_⟩
  · rintro ⟨q, expected, got, rfl⟩
    cases h
  · rintro ⟨d, hd, hnone⟩
    exact hnumbers d hd hnone
  · intro before d after hsplit _ hnone
    exact absurd hnone (hnumbers d (hsplit ▸ by simp))
  · intro ns' hns
    obtain rfl := List.map_injective_iff.2 number_injective hns
    cases h with
    | divisionByZero hp hzero => exact iff_of_true rfl ⟨hp, hzero⟩
    | value hnot _ => exact iff_of_false (by simp) hnot
  · intro ns' hns hnot
    obtain rfl := List.map_injective_iff.2 number_injective hns
    cases h with
    | divisionByZero hp hzero => exact absurd ⟨hp, hzero⟩ hnot
    | value _ hvalue => exact ⟨_, rfl, hvalue⟩

theorem Decides.of_not_number (p : Primitive) (ns : List Number) {d : Datum} (after : List Datum)
    (hd : d.asNumber? = none) :
    Decides p (ns.map .number ++ d :: after) (.error (.wrongType p .number d)) := by
  have hmixed : ∀ ns' : List Number, ns.map Datum.number ++ d :: after ≠ ns'.map .number := by
    intro ns' hns
    obtain ⟨n, -, rfl⟩ := List.mem_map.1 (hns ▸ List.mem_append_right _ List.mem_cons_self)
    cases hd
  refine ⟨iff_of_true ⟨p, .number, d, rfl⟩ ⟨d, by simp, hd⟩, ?_, ?_, ?_⟩
  · intro before d' after' hsplit hbefore hd'
    -- both stand behind numbers only, so that they are the same argument
    rcases List.append_eq_append_iff.1 hsplit with ⟨front, rfl, hfront⟩ | ⟨front, hfront, htail⟩
    · cases front with
      | nil => rw [(List.cons.inj hfront).1]
      | cons x front =>
        obtain ⟨rfl, -⟩ := List.cons.inj hfront
        exact absurd hd (hbefore _ (by simp))
    · cases front with
      | nil => rw [(List.cons.inj htail).1]
      | cons x front =>
        obtain ⟨rfl, -⟩ := List.cons.inj htail
        obtain ⟨n, -, rfl⟩ := List.mem_map.1 (hfront ▸ List.mem_append_right _ List.mem_cons_self)
        cases hd'
  · exact fun ns' hns => absurd hns (hmixed ns')
  · exact fun ns' hns => absurd hns (hmixed ns')

/-- The arguments are checked before anything is computed. -/
theorem decides_numbers {k : List Number → Except EvalError Datum}
    (hk : ∀ ns : List Number, arguments = ns.map .number → Yields p ns (k ns)) :
    Decides p arguments (numbers p arguments >>= k) := by
  rcases exists_numbers arguments with ⟨ns, rfl⟩ | ⟨ns, d, after, rfl, hd⟩
  · rw [numbers_map]
    exact .of_yields (hk ns rfl)
  · rw [numbers_of_not_number p ns after hd]
    exact .of_not_number p ns after hd

theorem decides_onNumbers {f : List Number → Datum}
    (hf : ∀ ns : List Number, arguments = ns.map .number → Yields p ns (.ok (f ns))) :
    Decides p arguments (onNumbers p arguments f) := by
  have heq : onNumbers p arguments f = numbers p arguments >>= fun ns => .ok (f ns) := by
    rw [onNumbers]
    cases numbers p arguments <;> rfl
  exact heq ▸ decides_numbers hf

theorem decides_add (arguments : List Datum) : Decides .add arguments (add arguments) :=
  decides_onNumbers fun ns _ => .value (by simp) (isResult_sum ns)

theorem decides_mul (arguments : List Datum) : Decides .mul arguments (mul arguments) :=
  decides_onNumbers fun ns _ => .value (by simp) (isResult_product ns)

theorem decides_sub (hne : arguments ≠ []) : Decides .sub arguments (sub arguments) :=
  decides_onNumbers fun ns hns => .value (by simp) (isResult_difference (by rintro rfl; simp_all))

theorem decides_div (hne : arguments ≠ []) : Decides .div arguments (div arguments) := by
  have heq : div arguments = numbers .div arguments >>= fun ns =>
      (quotient? ns).elim (.error .divisionByZero) fun n => .ok (.number n) := by
    rw [div]
    cases numbers .div arguments with
    | error e => rfl
    | ok ns => cases h : quotient? ns <;> simp [h, bind, Except.bind]
  refine heq ▸ decides_numbers fun ns hns => ?_
  cases hquotient : quotient? ns with
  | none => exact .divisionByZero rfl (quotient?_eq_none_iff.1 hquotient)
  | some n =>
    have hzero : ¬DividesByZero ns := by simp [← quotient?_eq_none_iff, hquotient]
    have hne' : ns ≠ [] := by rintro rfl; exact hne hns
    exact .value (by simp [hzero]) (isResult_quotient? hne' hquotient)

end Decisions

section Calls

theorem runFrom_ofExcept {α : Type} (x : Except EvalError α) (s : Session) :
    (Action.ofExcept x).runFrom s = (x.mapError .failed, s) := by
  cases x <;> rfl

theorem runFrom_call_primitive {p : Primitive} {arguments : List Datum}
    (harity : p.arity.accepts arguments.length = true) (depth : Nat) (s : Session) :
    (call (depth + 1) (.primitive p) arguments).runFrom s =
      (p.perform (call depth) (Datum.evalIn (call depth)) arguments).runFrom s := by
  rw [call, applyWith, Primitive.invoke, Arity.mismatch?_eq_none_iff.2 harity]

/-- The result of a sum, a product, a difference or a quotient, or the failure, is decided by the
arguments alone. -/
theorem decided_by_arguments {p : Primitive} {arguments : List Datum}
    (hp : p ∈ [Primitive.add, .mul, .sub, .div])
    (harity : p.arity.accepts arguments.length = true) :
    ∃ result, Decides p arguments result ∧ ∀ depth s,
      (call (depth + 1) (.primitive p) arguments).runFrom s = (result.mapError .failed, s) := by
  have hcall := runFrom_call_primitive harity
  simp only [List.mem_cons, List.not_mem_nil, or_false] at hp
  rcases hp with rfl | rfl | rfl | rfl
  · exact ⟨_, decides_add arguments, fun depth s => (hcall depth s).trans (runFrom_ofExcept _ s)⟩
  · exact ⟨_, decides_mul arguments, fun depth s => (hcall depth s).trans (runFrom_ofExcept _ s)⟩
  · have hne : arguments ≠ [] := by rintro rfl; cases harity
    exact ⟨_, decides_sub hne, fun depth s => (hcall depth s).trans (runFrom_ofExcept _ s)⟩
  · have hne : arguments ≠ [] := by rintro rfl; cases harity
    exact ⟨_, decides_div hne, fun depth s => (hcall depth s).trans (runFrom_ofExcept _ s)⟩

/-- A division by an exact zero behind a half that is inexact. -/
def lateZero : List Number := [.ofInt 1, .inexact (.ofRat (1 / 2)), .ofInt 0]

/-- A division by zero with an argument behind it that is not a number. -/
def namedZero : List Datum := [.number (.ofInt 1), .number (.ofInt 0), .symbol "x"]

theorem not_dividesByZero_lateZero : ¬DividesByZero lateZero := by
  rw [← quotient?_eq_none_iff]
  exact Option.some_ne_none _

theorem decided_by_arguments_zeros :
    (Primitive.div ∈ [Primitive.add, .mul, .sub, .div] ∧
      Primitive.div.arity.accepts lateZero.length = true ∧
      Primitive.div.arity.accepts namedZero.length = true) ∧
    (∃ n, n.isExact = false ∧ ∀ depth s,
      (call (depth + 1) (.primitive .div) (lateZero.map .number)).runFrom s =
        (.ok (.number n), s)) ∧
    ∀ depth s, (call (depth + 1) (.primitive .div) namedZero).runFrom s =
      (.error (.failed (.wrongType .div .number (.symbol "x"))), s) := by
  refine ⟨⟨by decide, by decide, by decide⟩, ?_, ?_⟩
  · obtain ⟨result, hdecides, hcall⟩ :=
      @decided_by_arguments .div (lateZero.map .number) (by decide) (by decide)
    obtain ⟨n, rfl, hn⟩ :=
      hdecides.value lateZero rfl fun h => not_dividesByZero_lateZero h.2
    refine ⟨n, ?_, hcall⟩
    rw [Bool.eq_false_iff, Ne, hn.isExact_iff]
    simp [lateZero, Number.isExact]
  · obtain ⟨result, hdecides, hcall⟩ :=
      @decided_by_arguments .div namedZero (by decide) (by decide)
    obtain rfl := hdecides.first [.number (.ofInt 1), .number (.ofInt 0)] (.symbol "x") [] rfl
      (by simp [Datum.asNumber?]) rfl
    exact hcall

end Calls

end Arithmetic

end FrameLisp
