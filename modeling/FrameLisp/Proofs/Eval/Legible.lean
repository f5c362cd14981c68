import FrameLisp.Proofs.Code.Compiling
import FrameLisp.Proofs.Eval.Likeness
import FrameLisp.Proofs.Source.Legible

/-!
# Evaluation keeps data legible

Legible data are analysed into legible code, and legible code in a session that holds legible data
makes legible data. So a running session is like itself, with all of its values legible.
-/
namespace FrameLisp

open Store Source

namespace Code

section Analysis

theorem legible_named (name : String) {c : Code} (hc : c.Legible) : (c.named name).Legible := by
  cases c with
  | lambda l =>
    cases hc with
    | lambda hl =>
      cases hl with
      | @mk name' parameters body hbody => cases name' <;> exact .lambda (.mk hbody)
  | _ => exact hc

theorem legible_ofUnits {units : List Code} (hu : ∀ unit ∈ units, unit.Legible) :
    (ofUnits units).Legible := by
  match units with
  | [] => exact .sequence hu
  | [unit] => exact hu unit List.mem_cons_self
  | _ :: _ :: _ => exact .sequence hu

/-- A body of legible units behind parameters. -/
theorem legible_procedure {name : Option String} {parameters : Parameters} {units : List Code}
    (hu : ∀ unit ∈ units, unit.Legible) :
    (Code.lambda (.mk name parameters (.ofUnits units))).Legible :=
  .lambda (.mk (legible_ofUnits hu))

mutual

theorem legible_of_compiles : ∀ {d : Datum} {c : Code}, d.Compiles c → d.Legible → c.Legible
  | _, _, .constant _, hd => .constant hd
  | _, _, .variable name, _ => .variable name
  | _, _, .quote _, .pair _ (.pair hd _) => .constant hd
  | _, _, .assignment _ hvalue, .pair _ (.pair _ (.pair hd _)) =>
    .assignment (legible_of_compiles hvalue hd)
  | _, _, .definition _ hvalue, .pair _ (.pair _ (.pair hd _)) =>
    .definition (legible_named _ (legible_of_compiles hvalue hd))
  | _, _, .procedure _ _ hunits, .pair _ (.pair _ hd) =>
    .definition (legible_procedure (legible_of_compilesAll hunits hd))
  | _, _, .conditional _ ht hc, .pair _ (.pair htest (.pair hconsequent _)) =>
    .conditional (legible_of_compiles ht htest) (legible_of_compiles hc hconsequent)
      (.constant (.boolean false))
  | _, _, .alternative _ ht hc ha,
      .pair _ (.pair htest (.pair hconsequent (.pair halternative _))) =>
    .conditional (legible_of_compiles ht htest) (legible_of_compiles hc hconsequent)
      (legible_of_compiles ha halternative)
  | _, _, .lambda _ _ hunits, .pair _ (.pair _ hd) =>
    legible_procedure (legible_of_compilesAll hunits hd)
  | _, _, .sequence _ hunits, .pair _ hd => legible_ofUnits (legible_of_compilesAll hunits hd)
  | _, _, .application _ hoperator hoperands, .pair hhead htail =>
    .application (legible_of_compiles hoperator hhead) (legible_of_compilesAll hoperands htail)

theorem legible_of_compilesAll : ∀ {d : Datum} {units : List Code}, d.CompilesAll units →
    d.Legible → ∀ unit ∈ units, unit.Legible
  | _, _, .nil, _ => by simp
  | _, _, .cons hunit hunits, .pair hhead htail =>
    List.forall_mem_cons.2 ⟨legible_of_compiles hunit hhead, legible_of_compilesAll hunits htail⟩

end

theorem legible_of_ofDatum {d : Datum} {c : Code} (hc : ofDatum d = .ok c) (hd : d.Legible) :
    c.Legible :=
  legible_of_compiles (compiles_of_ofDatum hc) hd

end Analysis

end Code

/-- One legible datum on both sides, and any errors. -/
def Likeness.legible : Likeness where
  data d d' := d = d' ∧ d.Legible
  errors _ _ := True
  shapely := ⟨by
    rintro d _ ⟨rfl, hd⟩
    cases hd with
    | pair hhead htail => exact .pair ⟨rfl, hhead⟩ ⟨rfl, htail⟩
    | closure => exact .closure rfl
    | _ => constructor⟩
  number n := ⟨rfl, .number n⟩
  boolean b := ⟨rfl, .boolean b⟩
  nil := ⟨rfl, .nil⟩
  acknowledgement := ⟨rfl, .symbol isName_ok⟩
  pair := by
    rintro mark head _ tail _ ⟨rfl, hhead⟩ ⟨rfl, htail⟩
    exact ⟨rfl, .pair hhead htail⟩
  errors_of_shaped _ := trivial
  loaded hm d hd := ⟨rfl, legible_of_ofLines hm d hd⟩

theorem Datum.Legible.data {d : Datum} (hd : d.Legible) : Likeness.legible.data d d := ⟨rfl, hd⟩

/-- An action that makes legible data in legible sessions. -/
abbrev Action.Legible (a : Action Datum) : Prop := Action.Like .legible 1 Likeness.legible.data a a

section Running

variable {call : Caller}

mutual

theorem Code.legible_run (hcall : call.Like .legible call) (env : Handle) :
    ∀ c : Code, c.Legible → (c.run call env).Legible
  | .constant d, .constant hd => by
    rw [Code.run]
    exact .pure hd.data
  | .variable name, _ => by
    rw [Code.run]
    exact Action.like_lookup env name
  | .assignment name value, .assignment hc => by
    rw [Code.run]
    refine .bind (Code.legible_run hcall env value hc) fun v v' hv => ?_
    exact .bind (Action.like_assign env name hv) fun _ _ _ => .pure Likeness.legible.acknowledgement
  | .definition name value, .definition hc => by
    rw [Code.run]
    refine .bind (Code.legible_run hcall env value hc) fun v v' hv => ?_
    exact .bind (Action.like_define env name hv) fun _ _ _ => .pure Likeness.legible.acknowledgement
  | .conditional test consequent alternative, .conditional ht hc ha => by
    rw [Code.run]
    refine .bind (Code.legible_run hcall env test ht) fun v v' hv => ?_
    obtain ⟨rfl, -⟩ := hv
    split
    · exact Code.legible_run hcall env alternative ha
    · exact Code.legible_run hcall env consequent hc
  | .lambda l, .lambda hl => by
    rw [Code.run]
    refine .bind Action.like_freshMark fun mark mark' hmark => ?_
    obtain rfl := hmark
    exact .pure (Datum.Legible.closure hl).data
  | .sequence units, .sequence hu => by
    rw [Code.run]
    exact Code.legible_runAll hcall env units hu Likeness.legible.nil
  | .application operator operands, .application hc hu => by
    rw [Code.run]
    refine .bind (Code.legible_run hcall env operator hc) fun p p' hp => ?_
    exact .bind (Code.legible_runEach hcall env operands hu .nil) fun _ _ ha => hcall hp ha

theorem Code.legible_runAll (hcall : call.Like .legible call) (env : Handle) :
    ∀ units : List Code, (∀ unit ∈ units, unit.Legible) → ∀ {last last' : Datum},
      Likeness.legible.data last last' →
      Action.Like .legible 1 Likeness.legible.data (Code.runAll call env last units)
        (Code.runAll call env last' units)
  | [], _, _, _, hlast => by
    rw [Code.runAll, Code.runAll]
    exact .pure hlast
  | unit :: units, hu, _, _, _ => by
    obtain ⟨hunit, hunits⟩ := List.forall_mem_cons.1 hu
    rw [Code.runAll, Code.runAll]
    exact .bind (Code.legible_run hcall env unit hunit) fun _ _ hv =>
      Code.legible_runAll hcall env units hunits hv

theorem Code.legible_runEach (hcall : call.Like .legible call) (env : Handle) :
    ∀ units : List Code, (∀ unit ∈ units, unit.Legible) → ∀ {values values' : List Datum},
      List.Forall₂ Likeness.legible.data values values' →
      Action.Like .legible 1 (List.Forall₂ Likeness.legible.data) (Code.runEach call env values units)
        (Code.runEach call env values' units)
  | [], _, _, _, hv => by
    rw [Code.runEach, Code.runEach]
    exact .pure (List.forall₂_reverse_iff.2 hv)
  | unit :: units, hu, _, _, hv => by
    obtain ⟨hunit, hunits⟩ := List.forall_mem_cons.1 hu
    rw [Code.runEach, Code.runEach]
    exact .bind (Code.legible_run hcall env unit hunit) fun _ _ hvalue =>
      Code.legible_runEach hcall env units hunits (.cons hvalue hv)

end

theorem Datum.like_evalIn_legible (hcall : call.Like .legible call) (n : Nat) :
    Evaluator.Like .legible n (evalIn call) (evalIn call) := by
  rintro env d _ ⟨rfl, hd⟩
  rw [evalIn]
  cases hc : Code.ofDatum d with
  | error e => exact .fail trivial
  | ok c => exact .evaluating (Code.legible_run hcall env c (Code.legible_of_ofDatum hc hd))

end Running

/-- Procedures with legible code make legible data of legible arguments, by induction on the
depth. -/
theorem like_call_legible (depth : Nat) : (call depth).Like .legible (call depth) := by
  induction depth with
  | zero => exact fun _ _ => .exhausted
  | succ depth ih =>
    rintro procedure _ arguments arguments' ⟨rfl, hp⟩ ha
    cases hp with
    | primitive p => exact Primitive.like_invoke ih (Datum.like_evalIn_legible ih 1) p ha
    | @closure mark l frame hl =>
      cases hl with
      | mk hbody =>
        refine .bind (Action.like_extend frame _ ha) fun env env' henv => ?_
        obtain rfl := henv
        exact Code.legible_run ih env _ hbody
    | _ => exact .fail trivial

end FrameLisp
