import FrameLisp.Datum.Equality
import FrameLisp.Proofs.Numeric.Order

/-!
# Equality is equality of content

A pair is found equal to itself without a look at what it holds. That answer is the one that a
comparison of the contents gives as well, since content without a value that is not a number
equals itself. Equality by content is transitive on finite numbers; two exact numbers that are
too large for a float both equal the infinity, and so need not equal one another.
-/
namespace FrameLisp

namespace Numeric.Number

section Equality

variable {a b c : Number}

/-- Neither an infinity nor the value that is not a number. -/
def isFinite : Number → Bool
  | .exact _ => true
  | .inexact x => x.toRat?.isSome

theorem Overflows.not_isFinite (h : Overflows a b) : ¬(a.isFinite ∧ b.isFinite) := by
  cases h <;> simp [isFinite, Binary64.toRat?]

theorem sameValue_iff : a.sameValue b = true ↔ a.compare? b = some .eq := by
  simp [sameValue]

theorem sameValue_comm (a b : Number) : a.sameValue b = b.sameValue a := by
  rw [sameValue, sameValue, compare?_swap a b]
  rcases a.compare? b with - | (_ | _ | _) <;> rfl

theorem sameValue_self (h : a ≠ .inexact .nan) : a.sameValue a = true := by
  rw [sameValue_iff, compare?_eq_eq_iff, order?_eq_eq_iff]
  cases hvalue : a.value? with
  | some x => exact .inr ⟨x, rfl, rfl⟩
  | none => exact absurd (value?_eq_none hvalue) h
where
  value?_eq_none {a : Number} (hvalue : a.value? = none) : a = .inexact .nan := by
    cases a with
    | exact q => cases hvalue
    | inexact x =>
      cases x with
      | nan => rfl
      | infinite negative => cases negative <;> cases hvalue
      | finite x => cases hvalue

theorem sameValue_trans (hb : b.isFinite) (hfinite : a.isFinite ∨ c.isFinite)
    (hab : a.sameValue b = true) (hbc : b.sameValue c = true) : a.sameValue c = true := by
  rw [sameValue_iff] at hab hbc ⊢
  rcases compare?_eq_trans hab hbc with hac | ⟨hleft, hright⟩
  · exact hac
  · rcases hfinite with ha | hc
    · exact absurd ⟨ha, hb⟩ hleft.not_isFinite
    · exact absurd ⟨hb, hc⟩ hright.not_isFinite

end Equality

end Numeric.Number

namespace Datum

open Numeric

variable {a b c d part : Datum} {mark : Option Nat} {head tail head' tail' : Datum}

section Parts

theorem Part.trans (hab : Part a b) (hbc : Part b c) : Part a c := by
  induction hbc with
  | refl => exact hab
  | head _ ih => exact .head ih
  | tail _ ih => exact .tail ih
  | quoted _ ih => exact .quoted ih

@[simp] theorem part_pair : Part part (.pair mark head tail) ↔
    part = .pair mark head tail ∨ Part part head ∨ Part part tail := by
  constructor
  · intro h
    cases h with
    | refl => exact .inl rfl
    | head h => exact .inr (.inl h)
    | tail h => exact .inr (.inr h)
  · rintro (rfl | h | h)
    · exact .refl _
    · exact .head h
    · exact .tail h

@[simp] theorem part_number {n : Number} : Part part (.number n) ↔ part = .number n :=
  ⟨fun h => by cases h; rfl, fun h => h ▸ .refl _⟩

@[simp] theorem part_string {s : String} : Part part (.string s) ↔ part = .string s :=
  ⟨fun h => by cases h; rfl, fun h => h ▸ .refl _⟩

@[simp] theorem part_nil : Part part .nil ↔ part = .nil :=
  ⟨fun h => by cases h; rfl, fun h => h ▸ .refl _⟩

/-- Whether no number in the datum is infinite or not a number. -/
def OnlyFinite (d : Datum) : Prop := ∀ n, Part (.number n) d → n.isFinite

theorem OnlyFinite.of_part (h : d.OnlyFinite) (hpart : Part part d) : part.OnlyFinite :=
  fun n hn => h n (hn.trans hpart)

theorem OnlyFinite.not_hasNaN (h : d.OnlyFinite) : ¬d.HasNaN := fun hnan => by cases h _ hnan

/-- What agrees on the marks of pairs does so on those of its parts. -/
theorem MarksAgree.of_parts {data parts : List Datum} (h : MarksAgree data)
    (hparts : ∀ p ∈ parts, ∃ d ∈ data, Part p d) : MarksAgree parts := by
  intro p hp q hq mark head tail head' tail' hpair hpair'
  obtain ⟨d, hd, hpd⟩ := hparts p hp
  obtain ⟨e, he, hqe⟩ := hparts q hq
  exact h d hd e he mark head tail head' tail' (hpair.trans hpd) (hpair'.trans hqe)

theorem MarksAgree.subset {data data' : List Datum} (h : MarksAgree data) (hsub : data' ⊆ data) :
    MarksAgree data' :=
  h.of_parts fun d hd => ⟨d, hsub hd, .refl d⟩

theorem MarksAgree.parts (h : MarksAgree [a, b]) {p q : Datum} (hp : Part p a) (hq : Part q b) :
    MarksAgree [p, q] :=
  h.of_parts (by simpa using ⟨.inl hp, .inr hq⟩)

/-- Marks agree when all of them are the addresses of pairs in one store. -/
theorem MarksAgree.of_store {data : List Datum} (store : Nat → Datum × Datum)
    (h : ∀ d ∈ data, ∀ mark head tail, Part (.pair (some mark) head tail) d →
      (head, tail) = store mark) : MarksAgree data := by
  intro a ha b hb mark head tail head' tail' hpair hpair'
  exact Prod.ext_iff.1 ((h a ha _ _ _ hpair).trans (h b hb _ _ _ hpair').symm)

theorem MarksAgree.eq_of_mark {m : Nat}
    (h : MarksAgree [.pair (some m) head tail, .pair (some m) head' tail']) :
    head = head' ∧ tail = tail' :=
  h _ (.head _) _ (.tail _ (.head _)) m _ _ _ _ (.refl _) (.refl _)

end Parts

section Marks

theorem sameMark_comm (m n : Option Nat) : sameMark m n = sameMark n m := by
  cases m <;> cases n <;> simp [sameMark, eq_comm]

theorem exists_of_sameMark {m n : Option Nat} (h : sameMark m n = true) :
    ∃ k, m = some k ∧ n = some k := by
  cases m <;> cases n <;> simp_all [sameMark]

theorem same_comm (a b : Datum) : a.same b = b.same a := by
  induction a generalizing b with
  | number n => cases b <;> first | exact Number.sameValue_comm _ _ | rfl
  | pair mark head tail ihh iht =>
    cases b with
    | pair mark' head' tail' => rw [same, same, sameMark_comm, ihh, iht]
    | _ => rfl
  | quoted d ih => cases b <;> first | exact ih _ | rfl
  | _ => cases b <;> first | exact Bool.beq_comm | rfl

end Marks

section Content

theorem alike_self (h : ¬d.HasNaN) : d.alike d = true := by
  induction d with
  | number n =>
    refine Number.sameValue_self ?_
    rintro rfl
    exact h (.refl _)
  | pair mark head tail ihh iht =>
    have hhead := ihh fun hnan => h (.head hnan)
    have htail := iht fun hnan => h (.tail hnan)
    rw [alike, hhead, htail]
    rfl
  | quoted d ih => exact ih fun hnan => h (.quoted hnan)
  | nil => rfl
  | _ => simp [alike]

theorem same_of_alike (h : a.alike b = true) : a.same b = true := by
  induction a generalizing b with
  | pair mark head tail ihh iht =>
    cases b with
    | pair mark' head' tail' =>
      rw [alike, Bool.and_eq_true] at h
      rw [same, ihh h.1, iht h.2]
      simp
    | _ => cases h
  | quoted d ih =>
    cases b with
    | quoted d' => exact ih h
    | _ => cases h
  | _ => cases b <;> exact h

/-- Where a mark settles that pairs are equal, their contents are the same, and equal themselves. -/
theorem alike_of_same (hmarks : MarksAgree [a, b]) (hnan : ¬a.HasNaN) (h : a.same b = true) :
    a.alike b = true := by
  induction a generalizing b with
  | pair mark head tail ihh iht =>
    cases b with
    | pair mark' head' tail' =>
      have hhead : ¬head.HasNaN := fun h => hnan (.head h)
      have htail : ¬tail.HasNaN := fun h => hnan (.tail h)
      rw [same, Bool.or_eq_true, Bool.and_eq_true] at h
      rw [alike, Bool.and_eq_true]
      rcases h with hmark | ⟨hh, ht⟩
      · obtain ⟨m, rfl, rfl⟩ := exists_of_sameMark hmark
        obtain ⟨rfl, rfl⟩ := hmarks.eq_of_mark
        exact ⟨alike_self hhead, alike_self htail⟩
      · exact ⟨ihh (hmarks.parts (.head (.refl _)) (.head (.refl _))) hhead hh,
          iht (hmarks.parts (.tail (.refl _)) (.tail (.refl _))) htail ht⟩
    | _ => cases h
  | quoted d ih =>
    cases b with
    | quoted d' =>
      exact ih (hmarks.parts (.quoted (.refl _)) (.quoted (.refl _)))
        (fun h => hnan (.quoted h)) h
    | _ => cases h
  | _ => cases b <;> exact h

theorem same_eq_alike (hmarks : MarksAgree [a, b]) (hnan : ¬a.HasNaN) : a.same b = a.alike b :=
  Bool.eq_iff_iff.2 ⟨alike_of_same hmarks hnan, same_of_alike⟩

theorem same_self (h : ¬d.HasNaN) : d.same d = true := same_of_alike (alike_self h)

theorem alike_trans (ha : a.OnlyFinite) (hb : b.OnlyFinite) (hab : a.alike b = true)
    (hbc : b.alike c = true) : a.alike c = true := by
  induction a generalizing b c with
  | number n =>
    cases b with
    | number m =>
      cases c with
      | number k =>
        exact Number.sameValue_trans (hb m (.refl _)) (.inl (ha n (.refl _))) hab hbc
      | _ => cases hbc
    | _ => cases hab
  | pair mark head tail ihh iht =>
    cases b with
    | pair mark' head' tail' =>
      cases c with
      | pair mark'' head'' tail'' =>
        rw [alike, Bool.and_eq_true] at hab hbc ⊢
        exact ⟨ihh (ha.of_part (.head (.refl _))) (hb.of_part (.head (.refl _))) hab.1 hbc.1,
          iht (ha.of_part (.tail (.refl _))) (hb.of_part (.tail (.refl _))) hab.2 hbc.2⟩
      | _ => cases hbc
    | _ => cases hab
  | quoted d ih =>
    cases b with
    | quoted d' =>
      cases c with
      | quoted d'' =>
        exact ih (ha.of_part (.quoted (.refl _))) (hb.of_part (.quoted (.refl _))) hab hbc
      | _ => cases hbc
    | _ => cases hab
  | closure m l frame =>
    cases b with
    | closure m' l' frame' =>
      cases c with
      | closure m'' l'' frame'' => exact beq_iff_eq.2 ((eq_of_beq hab).trans (eq_of_beq hbc))
      | _ => cases hbc
    | _ => cases hab
  | nil =>
    cases b with
    | nil => exact hbc
    | _ => cases hab
  | _ =>
    cases b <;> simp only [alike, Bool.false_eq_true, beq_iff_eq] at hab
    all_goals exact hab ▸ hbc

end Content

/-- Equality is symmetric, is equality of content on data without a value that is not a number,
and is transitive on data with finite numbers only. -/
theorem same_structural (a b c : Datum) (hmarks : MarksAgree [a, b, c]) :
    a.same b = b.same a ∧
      (¬a.HasNaN → ¬b.HasNaN → a.same b = a.alike b ∧ a.same a = true) ∧
      (a.OnlyFinite → b.OnlyFinite → c.OnlyFinite → a.same b = true → b.same c = true →
        a.same c = true) := by
  have hab : MarksAgree [a, b] := hmarks.subset (by simp)
  have hbc : MarksAgree [b, c] := hmarks.subset (by simp)
  have hac : MarksAgree [a, c] := hmarks.subset (by simp)
  refine ⟨same_comm a b, fun ha _ => ⟨same_eq_alike hab ha, same_self ha⟩,
    fun ha hb _ hsame hsame' => ?_⟩
  rw [same_eq_alike hab ha.not_hasNaN] at hsame
  rw [same_eq_alike hbc hb.not_hasNaN] at hsame'
  rw [same_eq_alike hac ha.not_hasNaN]
  exact alike_trans ha hb hsame hsame'

/-- Two lists that share their tail, and a third one that was read, with the fraction `3/2` in
place of the float `1.5`. -/
theorem same_structural_sharedTail :
    let shared := Datum.pair (some 7) (.number (.inexact (.ofRat (3 / 2)))) .nil
    let a := Datum.pair (some 8) (.string "x") shared
    let b := Datum.pair (some 9) (.string "x") shared
    let c := Datum.pair none (.string "x") (.pair none (.number (.exact (3 / 2))) .nil)
    MarksAgree [a, b, c] ∧ a.same b = true ∧ b.same c = true ∧ a.same c = true ∧
      c.same b = true ∧ a.same b = a.alike b ∧ a.same a = true := by
  intro shared a b c
  have hmarks : MarksAgree [a, b, c] := by
    refine .of_store (fun m => if m = 7 then (.number (.inexact (.ofRat (3 / 2))), .nil)
      else (.string "x", shared)) ?_
    simp +contextual [a, b, c, shared, or_imp]
  have hfloat : (Number.inexact (.ofRat (3 / 2))).isFinite = true := by decide +kernel
  have ha : a.OnlyFinite := by simpa [OnlyFinite, a, shared] using hfloat
  have hb : b.OnlyFinite := by simpa [OnlyFinite, b, shared] using hfloat
  have hc : c.OnlyFinite := by simp [OnlyFinite, c, Number.isFinite]
  have hab : a.same b = true := by decide +kernel
  have hbc : b.same c = true := by decide +kernel
  obtain ⟨-, hcontent, htrans⟩ := same_structural a b c hmarks
  obtain ⟨hcomm, -⟩ := same_structural b c a (hmarks.subset (by simp))
  exact ⟨hmarks, hab, hbc, htrans ha hb hc hab hbc, hcomm ▸ hbc,
    hcontent ha.not_hasNaN hb.not_hasNaN⟩

end Datum

end FrameLisp
