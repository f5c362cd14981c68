import Mathlib
import FrameLisp.Datum.Chain
import FrameLisp.Datum.Equality
import FrameLisp.Eval.Error

/-!
# Data of one shape

Two data have one shape when they are the same atom, or are made alike of parts that are related.
The code of a closure may be another one, as long as it is written alike. If all related data have
one shape, all the way down, a program cannot tell related data apart: neither by asking what they
are, nor by comparing them, nor by their text. Errors have one shape when they show related data; their
messages are the same then.
-/
namespace FrameLisp

namespace Datum

open Numeric

inductive Shaped (r : Datum → Datum → Prop) : Datum → Datum → Prop
  | number (n : Number) : Shaped r (.number n) (.number n)
  | string (s : String) : Shaped r (.string s) (.string s)
  | boolean (b : Bool) : Shaped r (.boolean b) (.boolean b)
  | symbol (name : String) : Shaped r (.symbol name) (.symbol name)
  | nil : Shaped r .nil .nil
  | primitive (p : Primitive) : Shaped r (.primitive p) (.primitive p)
  | pair {mark head head' tail tail'} : r head head' → r tail tail' →
      Shaped r (.pair mark head tail) (.pair mark head' tail')
  | quoted {d d'} : r d d' → Shaped r (.quoted d) (.quoted d')
  | closure {mark l l' frame} : l.text = l'.text →
      Shaped r (.closure mark l frame) (.closure mark l' frame)

/-- Related data have one shape, and so have their parts. -/
structure Shapely (r : Datum → Datum → Prop) : Prop where
  shaped : ∀ {d d'}, r d d' → d.Shaped r d'

namespace Shapely

variable {r : Datum → Datum → Prop} {a a' b b' d d' : Datum}

section Questions

theorem isFalse (hr : Shapely r) (h : r d d') : d.isFalse = d'.isFalse := by
  cases hr.shaped h <;> rfl

theorem isPair (hr : Shapely r) (h : r d d') : d.isPair = d'.isPair := by
  cases hr.shaped h <;> rfl

theorem isNull (hr : Shapely r) (h : r d d') : d.isNull = d'.isNull := by
  cases hr.shaped h <;> rfl

theorem asNumber? (hr : Shapely r) (h : r d d') : d.asNumber? = d'.asNumber? := by
  cases hr.shaped h <;> rfl

theorem asString? (hr : Shapely r) (h : r d d') : d.asString? = d'.asString? := by
  cases hr.shaped h <;> rfl

end Questions

section Chains

theorem heads (hr : Shapely r) (h : r d d') : List.Forall₂ r d.heads d'.heads := by
  induction d generalizing d' with
  | pair mark head tail _ ih =>
    cases hr.shaped h with
    | pair hhead htail =>
      rw [heads_pair, heads_pair]
      exact .cons hhead (ih htail)
  | _ =>
    cases hr.shaped h
    exact .nil

theorem isList (hr : Shapely r) (h : r d d') : d.isList = d'.isList := by
  induction d generalizing d' with
  | pair mark head tail _ ih =>
    cases hr.shaped h with
    | pair _ htail =>
      have htails := ih htail
      exact htails
  | _ =>
    cases hr.shaped h
    rfl

theorem toList? (hr : Shapely r) (h : r d d') :
    Option.Rel (List.Forall₂ r) d.toList? d'.toList? := by
  rw [Datum.toList?, Datum.toList?, hr.isList h]
  split
  · exact .some (hr.heads h)
  · exact .none

end Chains

section Equality

theorem same (hr : Shapely r) (ha : r a a') (hb : r b b') : a.same b = a'.same b' := by
  induction a generalizing a' b b' with
  | pair mark head tail ihh iht =>
    cases hr.shaped ha with
    | pair hhead htail =>
      cases hr.shaped hb with
      | pair hhead' htail' => rw [Datum.same, Datum.same, ihh hhead hhead', iht htail htail']
      | _ => rfl
  | quoted d ih =>
    cases hr.shaped ha with
    | quoted hd =>
      cases hr.shaped hb with
      | quoted hd' =>
        have hsame := ih hd hd'
        exact hsame
      | _ => rfl
  | _ =>
    cases hr.shaped ha
    cases hr.shaped hb <;> rfl

end Equality

section Text

theorem write_and_writeTail (hr : Shapely r) (h : r d d') (out : String) :
    d.write out = d'.write out ∧ d.writeTail out = d'.writeTail out := by
  induction d generalizing d' out with
  | pair mark head tail ihh iht =>
    cases hr.shaped h with
    | pair hhead htail =>
      constructor
      · rw [write, write, (ihh hhead _).1, (iht htail _).2]
      · rw [writeTail, writeTail, (ihh hhead _).1, (iht htail _).2]
  | quoted d ih =>
    cases hr.shaped h with
    | quoted hd =>
      constructor
      · rw [write, write, (ih hd _).1]
      · rw [writeTail, writeTail, (ih hd _).1]
  | closure mark l frame =>
    cases hr.shaped h with
    | closure htext => simp [write, writeTail, atomText, htext]
  | _ =>
    cases hr.shaped h
    exact ⟨rfl, rfl⟩

theorem text (hr : Shapely r) (h : r d d') : d.text = d'.text :=
  (hr.write_and_writeTail h "").1

end Text

end Shapely

end Datum

section Errors

variable {r : Datum → Datum → Prop}

inductive FormError.Shaped (r : Datum → Datum → Prop) : FormError → FormError → Prop
  | unknownForm {d d'} : r d d' → Shaped r (.unknownForm d) (.unknownForm d')
  | malformed {form fault d d'} : r d d' →
      Shaped r (.malformed form fault d) (.malformed form fault d')
  | invalidParameter {d d'} : r d d' → Shaped r (.invalidParameter d) (.invalidParameter d')
  | duplicateParameter (name : String) :
      Shaped r (.duplicateParameter name) (.duplicateParameter name)

inductive EvalError.Shaped (r : Datum → Datum → Prop) : EvalError → EvalError → Prop
  | unbound (name : String) : Shaped r (.unbound name) (.unbound name)
  | wrongType {p expected d d'} : r d d' →
      Shaped r (.wrongType p expected d) (.wrongType p expected d')
  | notApplicable {d d'} : r d d' → Shaped r (.notApplicable d) (.notApplicable d')
  | arity (error : ArityError) : Shaped r (.arity error) (.arity error)
  | form {e e' : FormError} : e.Shaped r e' → Shaped r (.form e) (.form e')
  | divisionByZero : Shaped r .divisionByZero .divisionByZero
  | reclaimed : Shaped r .reclaimed .reclaimed
  | unreadable (path source : String) (error : Source.SyntaxError) :
      Shaped r (.unreadable path source error) (.unreadable path source error)
  | file (path : String) (fault : FileFault) : Shaped r (.file path fault) (.file path fault)

theorem FormError.Shaped.message (hr : Datum.Shapely r) {e e' : FormError} (h : e.Shaped r e') :
    e.message = e'.message := by
  cases h with
  | duplicateParameter name => rfl
  | _ hd =>
    unfold FormError.message
    dsimp only
    rw [hr.text hd]

theorem EvalError.Shaped.kind {e e' : EvalError} (h : e.Shaped r e') : e.kind = e'.kind := by
  cases h <;> rfl

theorem EvalError.Shaped.message (hr : Datum.Shapely r) {e e' : EvalError} (h : e.Shaped r e') :
    e.message = e'.message := by
  cases h with
  | wrongType hd | notApplicable hd =>
    unfold EvalError.message
    dsimp only
    rw [hr.text hd]
  | form h => exact h.message hr
  | _ => rfl

end Errors

end FrameLisp
