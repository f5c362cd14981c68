import FrameLisp.Proofs.Eval.Arithmetic
import FrameLisp.Proofs.Numeric.Order

/-!
# Comparisons of several numbers

Only neighbours are compared. Where all numbers are finite this says that the list is sorted, since
exact and inexact numbers are ordered by their values alike. What is not a number is the neighbour
of another number, as long as there is one, and compares with none.
-/
namespace FrameLisp

open Numeric

namespace Numeric.Number

/-- The rational that a number stands for, unless it is infinite or not a number. -/
def rational? : Number → Option ℚ
  | .exact q => some q
  | .inexact x => x.toRat?

variable {a b : Number} {x y : ℚ}

theorem value?_of_rational? (h : a.rational? = some x) :
    a.value? = some ((x : WithTop ℚ) : WithBot (WithTop ℚ)) := by
  match a, h with
  | .exact q, h =>
    obtain rfl := Option.some.inj h
    rfl
  | .inexact (.finite z), h =>
    obtain rfl := Option.some.inj h
    rfl

theorem not_overflows_of_rational? (ha : a.rational? = some x) (hb : b.rational? = some y) :
    ¬Overflows a b := by
  intro h
  cases h with
  | left => cases hb
  | right => cases ha

/-- Finite numbers compare as the rationals that they stand for. -/
theorem compare?_of_rational? (ha : a.rational? = some x) (hb : b.rational? = some y) :
    a.compare? b = some (cmp x y) := by
  rw [compare?_eq_order? (not_overflows_of_rational? ha hb), order?, value?_of_rational? ha,
    value?_of_rational? hb]
  exact congrArg some (cmp_coe x y)

theorem eq_nan_of_isNaN (h : a.isNaN = true) : a = .inexact .nan := by
  cases a with
  | exact q => cases h
  | inexact x =>
    cases x with
    | nan => rfl
    | infinite negative => cases h
    | finite x => cases h

/-- What is not a number compares with nothing, on neither side. -/
theorem compare?_nan (a : Number) :
    a.compare? (.inexact .nan) = none ∧ compare? (.inexact .nan) a = none := by
  have hno : ¬Overflows a (.inexact .nan) := fun h => by cases h
  have hright : a.compare? (.inexact .nan) = none := by rw [compare?_eq_order? hno, order?_nan]
  refine ⟨hright, ?_⟩
  rw [compare?_swap, hright]
  rfl

end Numeric.Number

namespace Arithmetic

section Chains

variable {holds : Ordering → Bool} {ns : List Number}

/-- Whether a relation of orders holds between two numbers that can be compared. -/
def Holds (holds : Ordering → Bool) (a b : Number) : Prop := (a.compare? b).any holds = true

theorem chain_eq_true_iff : chain holds ns = true ↔ ns.IsChain (Holds holds) := by
  fun_induction chain holds ns with
  | case1 a b ns ih => rw [Bool.and_eq_true, ih, List.isChain_cons_cons, Holds]
  | case2 ns hns =>
    match ns, hns with
    | [], _ => simp
    | [a], _ => simp
    | a :: b :: ns, hns => exact absurd rfl (hns a b ns)

/-- In a list of finite numbers whose neighbours are in a transitive relation, all numbers are. -/
theorem chain_eq_true_iff_pairwise {r : ℚ → ℚ → Prop} [IsTrans ℚ r]
    (hr : ∀ x y, holds (cmp x y) = true ↔ r x y) {values : List ℚ}
    (hvalues : ns.map Number.rational? = values.map some) :
    chain holds ns = true ↔ values.Pairwise r := by
  rw [chain_eq_true_iff, ← List.isChain_iff_pairwise]
  induction ns generalizing values with
  | nil =>
    obtain rfl : values = [] := by simpa using hvalues.symm
    simp
  | cons a ns ih =>
    obtain ⟨x, values, rfl, hx, hrest⟩ := List.map_eq_cons_iff.1 hvalues.symm
    have htail := ih hrest.symm
    cases ns with
    | nil =>
      obtain rfl : values = [] := by simpa using hrest
      simp
    | cons b ns =>
      obtain ⟨y, values, rfl, hy, -⟩ := List.map_eq_cons_iff.1 hrest
      have hpair : Holds holds a b ↔ r x y := by
        rw [Holds, Number.compare?_of_rational? hx.symm hy.symm, Option.any_some, hr]
      rw [List.isChain_cons_cons, List.isChain_cons_cons, hpair, htail]

/-- A chain the other way round is one of the swapped relation. -/
theorem chain_reverse {swapped : Ordering → Bool} (hswap : ∀ o, swapped o = holds o.swap)
    (ns : List Number) : chain swapped ns.reverse = chain holds ns := by
  rw [Bool.eq_iff_iff, chain_eq_true_iff, chain_eq_true_iff, List.isChain_reverse]
  have hpair : ∀ a b, Holds swapped b a ↔ Holds holds a b := by
    intro a b
    rw [Holds, Holds, Number.compare?_swap a b]
    cases a.compare? b with
    | none => rfl
    | some o => simp [hswap]
  simp only [hpair]

theorem chain_eq_false_of_isNaN {n : Number} (hn : n ∈ ns) (hnan : n.isNaN = true)
    (hlength : 2 ≤ ns.length) : chain holds ns = false := by
  obtain rfl := Number.eq_nan_of_isNaN hnan
  rw [← Bool.not_eq_true, chain_eq_true_iff]
  intro hchain
  obtain ⟨before, after, rfl⟩ := List.append_of_mem hn
  have hnot : ∀ a, ¬Holds holds a (.inexact .nan) ∧ ¬Holds holds (.inexact .nan) a := by
    intro a
    rw [Holds, Holds, (Number.compare?_nan a).1, (Number.compare?_nan a).2]
    simp
  cases after with
  | cons b after => exact (hnot b).2 (List.isChain_append_cons_cons.1 hchain).2.1
  | nil =>
    rcases List.eq_nil_or_concat before with rfl | ⟨before, a, rfl⟩
    · simp at hlength
    · rw [List.concat_eq_append, List.append_assoc] at hchain
      exact (hnot a).1 (List.isChain_append_cons_cons.1 hchain).2.1

end Chains

section Answers

/-- The comparing primitives. -/
def comparisons : List Primitive := [.equal, .less, .greater, .lessOrEqual, .greaterOrEqual]

/-- Whether a primitive, called with these numbers, returns this boolean and changes nothing. -/
def Answers (p : Primitive) (ns : List Number) (b : Bool) : Prop :=
  ∀ depth s, (call (depth + 1) (.primitive p) (ns.map .number)).runFrom s = (.ok (.boolean b), s)

variable {p : Primitive} {holds : Ordering → Bool} {ns : List Number} {b : Bool}

theorem perform_eq_compare (hp : relation? p = some holds) (call : Caller) (evaluate : Evaluator)
    (arguments : List Datum) :
    p.perform call evaluate arguments = Action.ofExcept (compare p holds arguments) := by
  cases p <;> cases hp <;> rfl

theorem answers_chain (hp : relation? p = some holds) (hne : ns ≠ []) :
    Answers p ns (chain holds ns) := by
  intro depth s
  have hlength : 1 ≤ (ns.map Datum.number).length := by
    rw [List.length_map]
    exact List.length_pos_of_ne_nil hne
  have hcompare : compare p holds (ns.map .number) = .ok (.boolean (chain holds ns)) := by
    rw [compare, onNumbers, numbers_map]
  have harity : p.arity.accepts (ns.map Datum.number).length = true := by
    cases p <;> cases hp <;> exact decide_eq_true hlength
  rw [runFrom_call_primitive harity, perform_eq_compare hp, hcompare, runFrom_ofExcept]
  rfl

theorem answers_iff (hp : relation? p = some holds) (hne : ns ≠ []) :
    Answers p ns b ↔ chain holds ns = b := by
  have hanswer := answers_chain hp hne
  constructor
  · intro h
    have hsame := (hanswer 0 (.new 0 fun _ => .error .notFound)).symm.trans (h 0 _)
    simpa using hsame
  · rintro rfl
    exact hanswer

/-- What the comparing primitives say of some numbers. -/
structure Compares (ns : List Number) : Prop where
  answers : ∀ p ∈ comparisons, ∃ b, Answers p ns b
  /-- Finite numbers are compared each with all behind it. -/
  less : ∀ values : List ℚ, ns.map Number.rational? = values.map some →
    (Answers .less ns true ↔ values.Pairwise (· < ·))
  lessOrEqual : ∀ values : List ℚ, ns.map Number.rational? = values.map some →
    (Answers .lessOrEqual ns true ↔ values.Pairwise (· ≤ ·))
  equal : ∀ values : List ℚ, ns.map Number.rational? = values.map some →
    (Answers .equal ns true ↔ values.Pairwise (· = ·))
  greater : ∀ b, Answers .greater ns b ↔ Answers .less ns.reverse b
  greaterOrEqual : ∀ b, Answers .greaterOrEqual ns b ↔ Answers .lessOrEqual ns.reverse b
  /-- What is not a number spoils every comparison with another one. -/
  notNumber : (∃ n ∈ ns, n.isNaN = true) → 2 ≤ ns.length →
    ∀ p ∈ comparisons, Answers p ns false

theorem exists_relation? (hp : p ∈ comparisons) : ∃ holds, relation? p = some holds := by
  rw [← Option.isSome_iff_exists]
  revert p
  decide

/-- Comparing neighbours compares all numbers. -/
theorem compares (hne : ns ≠ []) : Compares ns where
  answers p hp := by
    obtain ⟨holds, hrelation⟩ := exists_relation? hp
    exact ⟨_, answers_chain hrelation hne⟩
  less values hvalues := by
    rw [answers_iff rfl hne]
    refine chain_eq_true_iff_pairwise (fun x y => ?_) hvalues
    rw [Ordering.isLT_iff_eq_lt, cmp_eq_lt_iff]
  lessOrEqual values hvalues := by
    rw [answers_iff rfl hne]
    refine chain_eq_true_iff_pairwise (fun x y => ?_) hvalues
    rw [Ordering.isLE_iff_ne_gt, cmp_eq_gt_iff, not_lt]
  equal values hvalues := by
    rw [answers_iff rfl hne]
    refine chain_eq_true_iff_pairwise (fun x y => ?_) hvalues
    rw [Ordering.isEq_iff_eq_eq, cmp_eq_eq_iff]
  greater b := by
    rw [answers_iff rfl hne, answers_iff rfl (by simpa using hne)]
    rw [← @chain_reverse Ordering.isGT Ordering.isLT (by simp)]
  greaterOrEqual b := by
    rw [answers_iff rfl hne, answers_iff rfl (by simpa using hne)]
    rw [← @chain_reverse Ordering.isGE Ordering.isLE (by simp)]
  notNumber := by
    rintro ⟨n, hn, hnan⟩ hlength p hp
    obtain ⟨holds, hrelation⟩ := exists_relation? hp
    rw [answers_iff hrelation hne]
    exact chain_eq_false_of_isNaN hn hnan hlength

/-- Three numbers in order, of which the second is inexact. -/
def ascending : List Number := [.ofInt 1, .inexact (.ofRat (3 / 2)), .ofInt 2]

theorem compares_ascending :
    ascending ≠ [] ∧ Compares ascending ∧ Answers .less ascending true ∧
      Answers .greater ascending.reverse true := by
  have hne : ascending ≠ [] := by decide
  have hvalues : ascending.map Number.rational? = [(1 : ℚ), 3 / 2, 2].map some := by
    decide +kernel
  have hless : Answers .less ascending true := by
    rw [(compares hne).less _ hvalues]
    decide +kernel
  refine ⟨hne, compares hne, hless, ?_⟩
  rw [(compares (by decide)).greater, List.reverse_reverse]
  exact hless

end Answers

end Arithmetic

end FrameLisp
