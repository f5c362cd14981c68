import FrameLisp.Proofs.Code.Renaming
import FrameLisp.Proofs.Datum.Likeness
import FrameLisp.Code.Check

/-!
# Checking and analysing

A check refuses what the analysis refuses, for the same reason. Since it looks at the shape of a
datum only, it has one result for related data.
-/
namespace FrameLisp

namespace Datum

section Forms

variable {mark : Option Nat} {head tail : Datum} {special : SpecialForm}

theorem check_of_fault (hform : SpecialForm.ofHead? head = some special) {fault : FormFault}
    (hfault : tail.isList = true → special.operandFault? tail.heads = some fault) :
    check (.pair mark head tail) =
      .error (.ofOperands special fault (.pair mark head tail) tail) := by
  rw [check, hform, FormError.ofOperands, toList?]
  cases hlist : tail.isList with
  | false => rfl
  | true => simp [hfault hlist]

theorem check_of_not_isList (hform : SpecialForm.ofHead? head = some special)
    (htail : tail.isList = false) :
    check (.pair mark head tail) =
      .error (.malformed (some special) .operandsNotList (.pair mark head tail)) := by
  rw [check, hform, toList?, htail]
  rfl

/-- A list of operands that fits the form. -/
theorem check_of_fits (hform : SpecialForm.ofHead? head = some special) (htail : tail.isList = true)
    (hfits : special.operandFault? tail.heads = none) :
    check (.pair mark head tail) = checkOperands special tail := by
  rw [check, hform, toList?, htail]
  simp only [if_true, hfits]

end Forms

/-- The datum is checked and analysed with one result. -/
def CheckedAlike (d : Datum) : Prop := d.check = (Code.ofDatum d).map fun _ => ()

theorem checkEach_eq (read : List Code) {d : Datum} (hd : ∀ x ∈ d.heads, x.CheckedAlike) :
    d.checkEach = (Code.ofChain read d).map fun _ => () := by
  induction d generalizing read with
  | pair mark head tail _ ih =>
    simp only [heads_pair, List.forall_mem_cons] at hd
    rw [checkEach, Code.ofChain, hd.1]
    cases Code.ofDatum head with
    | error e => rfl
    | ok unit => exact ih (unit :: read) hd.2
  | _ =>
    rw [checkEach, Code.ofChain]
    · rfl
    all_goals simp

/-- One operand that is evaluated. -/
theorem checkEach_single (mark : Option Nat) {d : Datum} (hd : d.CheckedAlike) (f : Code → Code) :
    checkEach (.pair mark d .nil) =
      (do
        let unit ← Code.ofDatum d
        return f unit).map fun _ => () := by
  rw [checkEach, hd]
  cases Code.ofDatum d with
  | error e => rfl
  | ok unit => rfl

/-- The forms of a body, behind the parameters of a procedure. -/
theorem checkEach_body (mark : Option Nat) {first rest : Datum} (hfirst : first.CheckedAlike)
    (hrest : ∀ x ∈ rest.heads, x.CheckedAlike) (f : List Code → Code) :
    checkEach (.pair mark first rest) =
      (do
        let first ← Code.ofDatum first
        let units ← Code.ofChain [first] rest
        return f units).map fun _ => () := by
  rw [checkEach, hfirst]
  cases Code.ofDatum first with
  | error e => rfl
  | ok unit =>
    change checkEach rest = Except.map (fun _ => ()) (do
      let units ← Code.ofChain [unit] rest
      return f units)
    rw [checkEach_eq [unit] hrest]
    cases Code.ofChain [unit] rest <;> rfl

theorem checkEach_procedure (signature : Datum) (mark : Option Nat) {first rest : Datum}
    (hfirst : first.CheckedAlike) (hrest : ∀ x ∈ rest.heads, x.CheckedAlike)
    (f : Parameters → List Code → Code) :
    (do
      let _ ← Parameters.ofDatum signature
      checkEach (.pair mark first rest)) =
      (do
        let parameters ← Parameters.ofDatum signature
        let first ← Code.ofDatum first
        let units ← Code.ofChain [first] rest
        return f parameters units).map fun _ => () := by
  cases Parameters.ofDatum signature with
  | error e => rfl
  | ok parameters => exact checkEach_body mark hfirst hrest (f parameters)

section Forms

variable {mark : Option Nat} {head tail : Datum}

theorem checkedAlike_quote (hform : SpecialForm.ofHead? head = some .quote) :
    CheckedAlike (.pair mark head tail) := by
  rw [CheckedAlike, Code.ofDatum.eq_def]
  dsimp only
  rw [hform]
  dsimp only
  cases tail with
  | pair m d rest =>
    cases rest with
    | nil =>
      rw [check, hform]
      rfl
    | pair m' d' rest =>
      refine check_of_fault hform fun _ => ?_
      simp only [heads_pair]
      rfl
    | _ => exact check_of_not_isList hform rfl
  | nil => exact check_of_fault hform fun _ => rfl
  | _ => exact check_of_not_isList hform rfl

theorem checkedAlike_assignment (hform : SpecialForm.ofHead? head = some .assignment)
    (htail : ∀ x ∈ tail.heads, x.CheckedAlike) : CheckedAlike (.pair mark head tail) := by
  rw [CheckedAlike, Code.ofDatum.eq_def]
  dsimp only
  rw [hform]
  dsimp only
  cases tail with
  | pair m target rest =>
    cases rest with
    | pair m' value last =>
      cases last with
      | nil =>
        cases target with
        | symbol name =>
          rw [check, hform]
          exact checkEach_single m' (htail value (by simp)) _
        | _ =>
          rw [check, hform]
          rfl
      | pair m'' d last =>
        cases target <;>
        · refine check_of_fault hform fun _ => ?_
          simp only [heads_pair]
          rfl
      | _ => cases target <;> exact check_of_not_isList hform rfl
    | nil =>
      cases target <;> exact check_of_fault hform fun _ => rfl
    | _ => cases target <;> exact check_of_not_isList hform rfl
  | nil => exact check_of_fault hform fun _ => rfl
  | _ => exact check_of_not_isList hform rfl

theorem checkedAlike_definition (hform : SpecialForm.ofHead? head = some .definition)
    (htail : ∀ x ∈ tail.heads, x.CheckedAlike) : CheckedAlike (.pair mark head tail) := by
  rw [CheckedAlike, Code.ofDatum.eq_def]
  dsimp only
  rw [hform]
  dsimp only
  cases tail with
  | pair m target body =>
    cases target with
    | symbol name =>
      cases body with
      | pair m' value rest =>
        cases rest with
        | nil =>
          rw [check, hform]
          exact checkEach_single m' (htail value (by simp)) _
        | pair m'' d rest =>
          refine check_of_fault hform fun _ => ?_
          simp only [heads_pair]
          rfl
        | _ => exact check_of_not_isList hform rfl
      | nil => exact check_of_fault hform fun _ => rfl
      | _ => exact check_of_not_isList hform rfl
    | pair m' name signature =>
      cases name with
      | symbol name =>
        cases body with
        | pair m'' first rest =>
          simp only [heads_pair, List.forall_mem_cons] at htail
          obtain ⟨-, hfirst, hrest⟩ := htail
          have hlist : (pair m (pair m' (symbol name) signature) (pair m'' first rest)).isList =
            rest.isList := rfl
          cases hrestList : rest.isList with
          | true =>
            rw [check_of_fits hform (hlist.trans hrestList) (by rw [heads_pair, heads_pair]; rfl)]
            dsimp only
            rw [hrestList, if_pos rfl]
            exact checkEach_procedure signature m'' hfirst hrest _
          | false =>
            rw [check_of_not_isList hform (hlist.trans hrestList)]
            dsimp only
            rw [hrestList]
            rfl
        | nil => exact check_of_fault hform fun _ => rfl
        | _ => exact check_of_not_isList hform rfl
      | _ =>
        refine check_of_fault hform fun _ => ?_
        simp only [heads_pair]
        rfl
    | _ =>
      refine check_of_fault hform fun _ => ?_
      simp only [heads_pair]
      rfl
  | nil => exact check_of_fault hform fun _ => rfl
  | _ => exact check_of_not_isList hform rfl

theorem checkedAlike_conditional (hform : SpecialForm.ofHead? head = some .conditional)
    (htail : ∀ x ∈ tail.heads, x.CheckedAlike) : CheckedAlike (.pair mark head tail) := by
  rw [CheckedAlike, Code.ofDatum.eq_def]
  dsimp only
  rw [hform]
  dsimp only
  cases tail with
  | pair m test rest =>
    cases rest with
    | pair m' consequent rest =>
      simp only [heads_pair, List.forall_mem_cons] at htail
      obtain ⟨htest, hconsequent, hrest⟩ := htail
      cases rest with
      | nil =>
        rw [check_of_fits hform rfl rfl, checkOperands, htest]
        dsimp only
        cases Code.ofDatum test with
        | error e => rfl
        | ok t => exact checkEach_single m' hconsequent _
      | pair m'' alternative rest =>
        cases rest with
        | nil =>
          rw [check_of_fits hform rfl rfl, checkOperands, htest, checkEach, hconsequent]
          dsimp only
          cases Code.ofDatum test with
          | error e => rfl
          | ok t =>
            cases Code.ofDatum consequent with
            | error e => rfl
            | ok c => exact checkEach_single m'' (hrest alternative (by simp)) _
        | pair _ d rest =>
          refine check_of_fault hform fun _ => ?_
          simp only [heads_pair]
          rfl
        | _ => exact check_of_not_isList hform rfl
      | _ => exact check_of_not_isList hform rfl
    | nil => exact check_of_fault hform fun _ => rfl
    | _ => exact check_of_not_isList hform rfl
  | nil => exact check_of_fault hform fun _ => rfl
  | _ => exact check_of_not_isList hform rfl

theorem checkedAlike_lambda (hform : SpecialForm.ofHead? head = some .lambda)
    (htail : ∀ x ∈ tail.heads, x.CheckedAlike) : CheckedAlike (.pair mark head tail) := by
  rw [CheckedAlike, Code.ofDatum.eq_def]
  dsimp only
  rw [hform]
  dsimp only
  cases tail with
  | pair m signature body =>
    cases body with
    | pair m' first rest =>
      simp only [heads_pair, List.forall_mem_cons] at htail
      obtain ⟨-, hfirst, hrest⟩ := htail
      have hlist : (pair m signature (pair m' first rest)).isList = rest.isList := rfl
      cases hrestList : rest.isList with
      | true =>
        rw [check_of_fits hform (hlist.trans hrestList) (by rw [heads_pair, heads_pair]; rfl)]
        dsimp only
        rw [hrestList, if_pos rfl]
        exact checkEach_procedure signature m' hfirst hrest _
      | false =>
        rw [check_of_not_isList hform (hlist.trans hrestList)]
        dsimp only
        rw [hrestList]
        rfl
    | nil => exact check_of_fault hform fun _ => rfl
    | _ => exact check_of_not_isList hform rfl
  | nil => exact check_of_fault hform fun _ => rfl
  | _ => exact check_of_not_isList hform rfl

theorem checkedAlike_sequence (hform : SpecialForm.ofHead? head = some .sequence)
    (htail : ∀ x ∈ tail.heads, x.CheckedAlike) : CheckedAlike (.pair mark head tail) := by
  rw [CheckedAlike, Code.ofDatum.eq_def]
  dsimp only
  rw [hform]
  dsimp only
  cases tail with
  | pair m first rest =>
    simp only [heads_pair, List.forall_mem_cons] at htail
    have hlist : (pair m first rest).isList = rest.isList := rfl
    cases hrestList : rest.isList with
    | true =>
      rw [check_of_fits hform (hlist.trans hrestList) (by rw [heads_pair]; rfl)]
      dsimp only
      rw [hrestList, if_pos rfl]
      exact checkEach_body m htail.1 htail.2 _
    | false =>
      rw [check_of_not_isList hform (hlist.trans hrestList)]
      dsimp only
      rw [hrestList]
      rfl
  | nil => exact check_of_fault hform fun _ => rfl
  | _ => exact check_of_not_isList hform rfl

theorem checkedAlike_application (hform : SpecialForm.ofHead? head = none)
    (hhead : head.CheckedAlike) (htail : ∀ x ∈ tail.heads, x.CheckedAlike) :
    CheckedAlike (.pair mark head tail) := by
  rw [CheckedAlike, Code.ofDatum_application hform, check, hform]
  dsimp only
  rw [hhead]
  cases Code.ofDatum head with
  | error e => rfl
  | ok operator =>
    have hoperands := checkEach_eq [] htail
    cases tail.isList with
    | true =>
      change checkEach tail = Except.map (fun _ => ()) (do
        let operands ← Code.ofChain [] tail
        return Code.application operator operands)
      rw [hoperands]
      cases Code.ofChain [] tail <;> rfl
    | false => rfl

end Forms

/-- A check refuses what the analysis refuses, for the same reason. -/
theorem check_eq (d : Datum) : d.check = (Code.ofDatum d).map fun _ => () := by
  suffices h : CheckedAlike d ∧ ∀ x ∈ d.heads, CheckedAlike x from h.1
  induction d with
  | pair mark head tail ihh iht =>
    obtain ⟨hhead, -⟩ := ihh
    obtain ⟨-, htail⟩ := iht
    refine ⟨?_, by simpa using ⟨hhead, htail⟩⟩
    cases hform : SpecialForm.ofHead? head with
    | none => exact checkedAlike_application hform hhead htail
    | some form =>
      cases form with
      | quote => exact checkedAlike_quote hform
      | assignment => exact checkedAlike_assignment hform htail
      | definition => exact checkedAlike_definition hform htail
      | conditional => exact checkedAlike_conditional hform htail
      | lambda => exact checkedAlike_lambda hform htail
      | sequence => exact checkedAlike_sequence hform htail
  | _ => exact ⟨rfl, by simp [heads, headsFrom]⟩

end Datum

section Shapes

variable {r : Datum → Datum → Prop}

theorem Datum.Shapely.ofHead? (hr : Datum.Shapely r) {d d' : Datum} (h : r d d') :
    SpecialForm.ofHead? d = SpecialForm.ofHead? d' := by
  cases hr.shaped h <;> rfl

theorem Datum.Shapely.parallel_collect (hr : Datum.Shapely r) (read : List String) {d d' : Datum}
    (h : r d d') :
    Parallel (FormError.Shaped r) Eq (Parameters.collect read d) (Parameters.collect read d') := by
  induction d generalizing read d' with
  | pair mark head tail _ ih =>
    cases hr.shaped h with
    | pair hhead htail =>
      cases hr.shaped hhead with
      | symbol name => exact ih (name :: read) htail
      | _ => exact .error (.invalidParameter hhead)
  | _ =>
    cases hr.shaped h
    first
    | exact .ok rfl
    | exact .error (.invalidParameter h)

theorem Datum.Shapely.parallel_parameters (hr : Datum.Shapely r) {d d' : Datum} (h : r d d') :
    Parallel (FormError.Shaped r) Eq (Parameters.ofDatum d) (Parameters.ofDatum d') := by
  rw [Parameters.ofDatum, Parameters.ofDatum]
  rcases (hr.parallel_collect [] h).exists_or with ⟨p, _, hp, hp', rfl⟩ | ⟨e, e', he, he', herror⟩
  · rw [hp, hp']
    dsimp only
    split
    · exact .error (.duplicateParameter _)
    · exact .ok rfl
  · rw [he, he']
    exact .error herror

theorem Datum.Shapely.operandFault? (hr : Datum.Shapely r) (special : SpecialForm)
    {operands operands' : List Datum} (h : List.Forall₂ r operands operands') :
    special.operandFault? operands = special.operandFault? operands' := by
  cases h with
  | nil => rfl
  | cons hfirst h =>
    cases special with
    | sequence => rfl
    | quote | lambda => cases h <;> rfl
    | conditional =>
      cases h with
      | nil => rfl
      | cons _ h =>
        cases h with
        | nil => rfl
        | cons _ h => cases h <;> rfl
    | assignment =>
      have hshape := hr.shaped hfirst
      cases h with
      | nil => cases hshape <;> rfl
      | cons _ h => cases h <;> cases hshape <;> rfl
    | definition =>
      cases hr.shaped hfirst with
      | symbol name =>
        cases h with
        | nil => rfl
        | cons _ h => cases h <;> rfl
      | pair hname _ =>
        have hshape := hr.shaped hname
        cases h <;> cases hshape <;> rfl
      | _ => rfl

/-- Related data are checked with one result. -/
def Datum.ParallelCheck (r : Datum → Datum → Prop) (d : Datum) : Prop :=
  ∀ {d'}, r d d' → Parallel (FormError.Shaped r) Eq d.check d'.check

theorem Datum.Shapely.parallel_checkEach (hr : Datum.Shapely r) {d d' : Datum} (h : r d d')
    (hd : ∀ x ∈ d.heads, x.ParallelCheck r) :
    Parallel (FormError.Shaped r) Eq d.checkEach d'.checkEach := by
  induction d generalizing d' with
  | pair mark head tail _ ih =>
    simp only [Datum.heads_pair, List.forall_mem_cons] at hd
    cases hr.shaped h with
    | pair hhead htail =>
      rw [Datum.checkEach, Datum.checkEach]
      exact .bind (hd.1 hhead) fun _ _ _ => ih htail hd.2
  | _ =>
    cases hr.shaped h
    exact .ok rfl

theorem Datum.Shapely.parallel_checkOperands (hr : Datum.Shapely r) (special : SpecialForm)
    {d d' : Datum} (h : r d d') (hd : ∀ x ∈ d.heads, x.ParallelCheck r) :
    Parallel (FormError.Shaped r) Eq (Datum.checkOperands special d)
      (Datum.checkOperands special d') := by
  cases hr.shaped h with
  | pair hfirst hrest =>
    simp only [Datum.heads_pair, List.forall_mem_cons] at hd
    have hforms := hr.parallel_checkEach hrest hd.2
    cases special with
    | quote => exact .ok rfl
    | assignment => exact hforms
    | lambda => exact .bind (hr.parallel_parameters hfirst) fun _ _ _ => hforms
    | conditional | sequence => exact .bind (hd.1 hfirst) fun _ _ _ => hforms
    | definition =>
      cases hr.shaped hfirst with
      | pair _ hsignature => exact .bind (hr.parallel_parameters hsignature) fun _ _ _ => hforms
      | _ => exact hforms
  | _ => cases special <;> exact .ok rfl

theorem Datum.Shapely.parallel_checkForm (hr : Datum.Shapely r) {mark : Option Nat}
    {head head' tail tail' : Datum} (hhead : r head head') (htail : r tail tail')
    (hform : r (.pair mark head tail) (.pair mark head' tail'))
    (hc : head.ParallelCheck r) (hd : ∀ x ∈ tail.heads, x.ParallelCheck r) :
    Parallel (FormError.Shaped r) Eq (Datum.check (.pair mark head tail))
      (Datum.check (.pair mark head' tail')) := by
  rw [Datum.check, Datum.check, hr.ofHead? hhead, hr.isList htail]
  cases SpecialForm.ofHead? head' with
  | none =>
    refine .bind (hc hhead) fun _ _ _ => ?_
    split
    · exact hr.parallel_checkEach htail hd
    · exact .error (.malformed hform)
  | some special =>
    have hoperands := hr.toList? htail
    dsimp only
    generalize tail.toList? = operands at hoperands ⊢
    generalize tail'.toList? = operands' at hoperands ⊢
    cases hoperands with
    | none => exact .error (.malformed hform)
    | some hoperands =>
      dsimp only
      rw [hr.operandFault? special hoperands]
      split
      · exact .error (.malformed hform)
      · exact hr.parallel_checkOperands special htail hd

/-- A check has one result for related data. -/
theorem Datum.Shapely.parallel_check (hr : Datum.Shapely r) {d d' : Datum} (h : r d d') :
    Parallel (FormError.Shaped r) Eq d.check d'.check := by
  suffices hd : d.ParallelCheck r ∧ ∀ x ∈ d.heads, x.ParallelCheck r from hd.1 h
  clear h
  induction d with
  | pair mark head tail ihh iht =>
    refine ⟨fun {d'} h => ?_, by simpa using ⟨ihh.1, iht.2⟩⟩
    cases hr.shaped h with
    | pair hhead htail => exact hr.parallel_checkForm hhead htail h ihh.1 iht.2
  | _ =>
    refine ⟨fun {d'} h => ?_, by simp [Datum.heads, Datum.headsFrom]⟩
    cases hr.shaped h
    first
    | exact .ok rfl
    | exact .error (.unknownForm h)

end Shapes

end FrameLisp
