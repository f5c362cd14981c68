import FrameLisp.Eval.Direct
import FrameLisp.Proofs.Code.Check
import FrameLisp.Proofs.Code.Compiling
import FrameLisp.Proofs.Eval.Likeness
import FrameLisp.Proofs.Source.Built
import FrameLisp.Session.Text

/-!
# Running code and walking data

A datum is followed together with its code: whatever the code does, in corresponding sessions, the
walk over the datum does too. Procedures are called alike on both sides, since the code of their
bodies is that of the forms they were made of.
-/
namespace FrameLisp.Direct

open Store Source

section Data

theorem shapely_corresponds : Datum.Shapely Corresponds where
  shaped h := by
    cases h with
    | pair hhead htail => exact .pair hhead htail
    | quoted h => exact .quoted h
    | closure => exact .closure rfl
    | _ => constructor

/-- Data without procedures correspond to themselves. -/
theorem corresponds_of_plain {d : Datum} (hd : d.Plain) : Corresponds d d := by
  induction d with
  | pair mark head tail ihh iht => exact .pair (ihh hd.1) (iht hd.2)
  | quoted d ih => exact .quoted (ih hd)
  | closure mark l frame => exact hd.1.elim
  | _ => constructor

def likeness : Likeness where
  data := Corresponds
  errors e e' := e.Shaped Corresponds e' ∧ e.message = e'.message
  shapely := shapely_corresponds
  number := .number
  boolean := .boolean
  nil := .nil
  acknowledgement := .symbol _
  pair := .pair
  errors_of_shaped h := ⟨h, h.message shapely_corresponds⟩
  loaded hm d hd := corresponds_of_plain (plain_of_ofLines hm d hd)

theorem errors_of_form {e e' : FormError} (h : e.Shaped Corresponds e') :
    likeness.errors (.form e) (.form e') :=
  likeness.errors_of_shaped (.form h)

end Data

/-- The code of a value, which may be defined under a name. -/
def titled : Option String → Code → Code
  | none, c => c
  | some name, c => c.named name

theorem run_ofUnits (call : Caller) (env : Handle) (units : List Code) :
    (Code.ofUnits units).run call env = Code.runAll call env .nil units := by
  cases units with
  | nil =>
    rw [Code.ofUnits, Code.run]
    simp
  | cons unit units =>
    cases units with
    | nil => simp [Code.ofUnits, Code.runAll]
    | cons second units =>
      rw [Code.ofUnits, Code.run]
      simp

/-- Nothing but a procedure takes a name. -/
theorem titled_eq {name : Option String} {c : Code} (hc : ∀ l, c ≠ .lambda l) :
    titled name c = c := by
  cases name with
  | none => rfl
  | some name =>
    cases c with
    | lambda l => exact absurd rfl (hc l)
    | _ => rfl

theorem titled_lambda (name : Option String) (parameters : Parameters) (body : Code) :
    titled name (.lambda (.mk none parameters body)) = .lambda (.mk name parameters body) := by
  cases name <;> rfl

/-- What the code does, the walk over corresponding data does. -/
def Agrees (call call' : Caller) (d : Datum) (c : Code) : Prop :=
  ∀ d', Corresponds d d' → ∀ env name,
    Action.Like likeness 1 Corresponds ((titled name c).run call env) (eval call' env name d')

section Walk

variable {call call' : Caller}

/-- What is no procedure does the same under every name. -/
theorem Agrees.of_run {d : Datum} {c : Code} (hc : ∀ l, c ≠ .lambda l)
    (h : ∀ d', Corresponds d d' → ∀ env name,
      Action.Like likeness 1 Corresponds (c.run call env) (eval call' env name d')) :
    Agrees call call' d c := by
  intro d' hcorr env name
  rw [titled_eq hc]
  exact h d' hcorr env name

section Lists

variable {d d' : Datum} {units : List Code}

theorem like_evalBody (h : List.Forall₂ (Agrees call call') d.heads units) (hd : Corresponds d d')
    (env : Handle) {last last' : Datum} (hlast : Corresponds last last') :
    Action.Like likeness 1 Corresponds (Code.runAll call env last units)
      (evalBody call' env last' d') := by
  induction d generalizing d' units last last' with
  | pair mark head tail _ ih =>
    rw [Datum.heads_pair] at h
    cases h with
    | cons hunit hunits =>
      cases hd with
      | pair hhead htail =>
        rw [Code.runAll, evalBody]
        exact .bind (hunit _ hhead env none) fun v v' hv => ih hunits htail hv
  | _ =>
    cases h
    cases hd
    rw [Code.runAll, evalBody]
    · exact .pure hlast
    · simp

theorem like_evalEach (h : List.Forall₂ (Agrees call call') d.heads units) (hd : Corresponds d d')
    (env : Handle) {values values' : List Datum} (hv : List.Forall₂ Corresponds values values') :
    Action.Like likeness 1 (List.Forall₂ Corresponds) (Code.runEach call env values units)
      (evalEach call' env values' d') := by
  induction d generalizing d' units values values' with
  | pair mark head tail _ ih =>
    rw [Datum.heads_pair] at h
    cases h with
    | cons hunit hunits =>
      cases hd with
      | pair hhead htail =>
        rw [Code.runEach, evalEach]
        exact .bind (hunit _ hhead env none) fun v v' hvalue => ih hunits htail (.cons hvalue hv)
  | _ =>
    cases h
    cases hd
    rw [Code.runEach, evalEach]
    · exact .pure (List.forall₂_reverse_iff.2 hv)
    · simp

end Lists

section Forms

variable {mark m m' m'' : Option Nat} {head : Datum} {c : Code}

theorem agrees_constant {d : Datum} (hd : d.isConstant = true) :
    Agrees call call' d (.constant d) := by
  refine .of_run nofun fun d' hcorr env name => ?_
  rw [Code.run]
  cases hcorr with
  | symbol | nil | pair | quoted => cases hd
  | _ =>
    rw [eval]
    · exact .pure (by constructor <;> assumption)
    all_goals simp

theorem agrees_variable (target : String) :
    Agrees call call' (.symbol target) (.variable target) := by
  refine .of_run nofun fun d' hcorr env name => ?_
  rw [Code.run]
  cases hcorr
  rw [eval]
  exact Action.like_lookup env target

theorem agrees_quoted (d : Datum) : Agrees call call' (.quoted d) (.constant d) := by
  refine .of_run nofun fun d' hcorr env name => ?_
  rw [Code.run]
  cases hcorr with
  | quoted hd =>
    rw [eval]
    exact .pure hd

/-- A form has one operator on both sides. -/
theorem ofHead?_eq {head head' : Datum} (h : Corresponds head head')
    {special : Option SpecialForm} (hform : SpecialForm.ofHead? head = special) :
    SpecialForm.ofHead? head' = special :=
  (shapely_corresponds.ofHead? h).symm.trans hform

theorem agrees_quote (hform : SpecialForm.ofHead? head = some .quote) (d : Datum) :
    Agrees call call' (.pair mark head (.pair m d .nil)) (.constant d) := by
  refine .of_run nofun fun d' hcorr env name => ?_
  rw [Code.run]
  cases hcorr with
  | pair hhead htail =>
    cases htail with
    | pair hd _ =>
      rw [eval_form (ofHead?_eq hhead hform), evalForm]
      exact .pure hd

theorem agrees_assignment (hform : SpecialForm.ofHead? head = some .assignment) {target : String}
    {value : Datum} (hvalue : Agrees call call' value c) :
    Agrees call call' (.pair mark head (.pair m (.symbol target) (.pair m' value .nil)))
      (.assignment target c) := by
  refine .of_run nofun fun d' hcorr env name => ?_
  rw [Code.run]
  cases hcorr with
  | pair hhead htail =>
    cases htail with
    | pair htarget htail =>
      cases htarget
      cases htail with
      | pair hd _ =>
        rw [eval_form (ofHead?_eq hhead hform), evalForm]
        refine .bind (hvalue _ hd env none) fun v v' hv => ?_
        exact .bind (Action.like_assign env target hv) fun _ _ _ => .pure likeness.acknowledgement

theorem agrees_definition (hform : SpecialForm.ofHead? head = some .definition) {target : String}
    {value : Datum} (hvalue : Agrees call call' value c) :
    Agrees call call' (.pair mark head (.pair m (.symbol target) (.pair m' value .nil)))
      (.definition target (c.named target)) := by
  refine .of_run nofun fun d' hcorr env name => ?_
  rw [Code.run]
  cases hcorr with
  | pair hhead htail =>
    cases htail with
    | pair htarget htail =>
      cases htarget
      cases htail with
      | pair hd _ =>
        rw [eval_form (ofHead?_eq hhead hform), evalForm]
        refine .bind (hvalue _ hd env (some target)) fun v v' hv => ?_
        exact .bind (Action.like_define env target hv) fun _ _ _ => .pure likeness.acknowledgement

/-- The closure on either side, made of one signature and one body. -/
theorem like_close {signature signature' body forms : Datum} {parameters : Parameters}
    {units : List Code} (hparameters : Parameters.ofDatum signature = .ok parameters)
    (hunits : body.CompilesAll units) (hsignature : Corresponds signature signature')
    (hbody : Corresponds body forms) (env : Handle) (name : Option String) :
    Action.Like likeness 1 Corresponds
      (Code.run call env (.lambda (.mk name parameters (.ofUnits units))))
      (close env name signature' forms) := by
  have hp := shapely_corresponds.parallel_parameters hsignature
  rw [hparameters] at hp
  rw [close]
  generalize hparameters' : Parameters.ofDatum signature' = x at hp ⊢
  cases hp with
  | ok heq =>
    obtain rfl := heq
    obtain ⟨hlist, hchain⟩ := Code.chained_of_compilesAll hunits
    rw [Code.run]
    refine .bind Action.like_freshMark ?_
    rintro mark _ rfl
    exact .pure (.closure hlist (hchain []) hbody hparameters')

theorem agrees_procedure (hform : SpecialForm.ofHead? head = some .definition) {target : String}
    {signature first rest : Datum} {parameters : Parameters} {units : List Code}
    (hparameters : Parameters.ofDatum signature = .ok parameters)
    (hunits : Datum.CompilesAll (.pair m'' first rest) units) :
    Agrees call call'
      (.pair mark head (.pair m (.pair m' (.symbol target) signature) (.pair m'' first rest)))
      (.definition target (.lambda (.mk (some target) parameters (.ofUnits units)))) := by
  refine .of_run nofun fun d' hcorr env name => ?_
  rw [Code.run]
  cases hcorr with
  | pair hhead htail =>
    cases htail with
    | pair htarget hbody =>
      cases htarget with
      | pair htarget hsignature =>
        cases htarget
        rw [eval_form (ofHead?_eq hhead hform), evalForm]
        refine .bind (like_close hparameters hunits hsignature hbody env _) fun v v' hv => ?_
        exact .bind (Action.like_define env target hv) fun _ _ _ => .pure likeness.acknowledgement

theorem agrees_lambda (hform : SpecialForm.ofHead? head = some .lambda)
    {signature first rest : Datum} {parameters : Parameters} {units : List Code}
    (hparameters : Parameters.ofDatum signature = .ok parameters)
    (hunits : Datum.CompilesAll (.pair m' first rest) units) :
    Agrees call call' (.pair mark head (.pair m signature (.pair m' first rest)))
      (.lambda (.mk none parameters (.ofUnits units))) := by
  intro d' hcorr env name
  rw [titled_lambda]
  cases hcorr with
  | pair hhead htail =>
    cases htail with
    | pair hsignature hbody =>
      rw [eval_form (ofHead?_eq hhead hform), evalForm]
      exact like_close hparameters hunits hsignature hbody env name

/-- Both sides take the same branch. -/
theorem like_branch {α : Type} {q : α → α → Prop} {v v' : Datum} (hv : Corresponds v v')
    {a a' b b' : Action α} (ha : Action.Like likeness 1 q a a') (hb : Action.Like likeness 1 q b b') :
    Action.Like likeness 1 q (if v.isFalse then a else b) (if v'.isFalse then a' else b') := by
  rw [shapely_corresponds.isFalse hv]
  split
  · exact ha
  · exact hb

theorem agrees_conditional (hform : SpecialForm.ofHead? head = some .conditional)
    {test consequent : Datum} {t : Code} (htest : Agrees call call' test t)
    (hconsequent : Agrees call call' consequent c) :
    Agrees call call' (.pair mark head (.pair m test (.pair m' consequent .nil)))
      (.conditional t c (.constant (.boolean false))) := by
  refine .of_run nofun fun d' hcorr env name => ?_
  rw [Code.run]
  cases hcorr with
  | pair hhead htail =>
    cases htail with
    | pair hd htail =>
      cases htail with
      | pair hd' hrest =>
        cases hrest
        rw [eval_form (ofHead?_eq hhead hform), evalForm_conditional]
        refine .bind (htest _ hd env none) fun v v' hv => ?_
        rw [Code.run]
        exact like_branch hv (.pure (.boolean false)) (hconsequent _ hd' env none)

theorem agrees_alternative (hform : SpecialForm.ofHead? head = some .conditional)
    {test consequent alternative : Datum} {t a : Code} (htest : Agrees call call' test t)
    (hconsequent : Agrees call call' consequent c)
    (halternative : Agrees call call' alternative a) :
    Agrees call call'
      (.pair mark head (.pair m test (.pair m' consequent (.pair m'' alternative .nil))))
      (.conditional t c a) := by
  refine .of_run nofun fun d' hcorr env name => ?_
  rw [Code.run]
  cases hcorr with
  | pair hhead htail =>
    cases htail with
    | pair hd htail =>
      cases htail with
      | pair hd' hrest =>
        cases hrest with
        | pair hd'' _ =>
          rw [eval_form (ofHead?_eq hhead hform), evalForm]
          refine .bind (htest _ hd env none) fun v v' hv => ?_
          exact like_branch hv (halternative _ hd'' env none) (hconsequent _ hd' env none)

theorem agrees_sequence (hform : SpecialForm.ofHead? head = some .sequence) {first rest : Datum}
    {units : List Code} (hunits : Datum.CompilesAll (.pair m first rest) units)
    (h : List.Forall₂ (Agrees call call') (Datum.heads (.pair m first rest)) units) :
    Agrees call call' (.pair mark head (.pair m first rest)) (.ofUnits units) := by
  cases hunits with
  | cons hfirst hrest =>
    cases hrest with
    | nil =>
      intro d' hcorr env name
      rw [Datum.heads_pair] at h
      cases hcorr with
      | pair hhead hbody =>
        cases hbody with
        | pair hd hrest =>
          cases hrest
          rw [eval_form (ofHead?_eq hhead hform), evalForm]
          exact (List.forall₂_cons.1 h).1 _ hd env name
    | cons hsecond hrest =>
      refine Agrees.of_run (by rintro _ ⟨⟩) fun d' hcorr env name => ?_
      rw [run_ofUnits]
      cases hcorr with
      | pair hhead hbody =>
        have hbodies := like_evalBody h hbody env .nil
        cases hbody with
        | pair hd hrest =>
          cases hrest
          rw [eval_form (ofHead?_eq hhead hform), evalForm_sequence]
          exact hbodies

theorem agrees_application (hform : SpecialForm.ofHead? head = none)
    (hcall : Caller.Like likeness call call') {tail : Datum} {units : List Code}
    (hhead : Agrees call call' head c) (h : List.Forall₂ (Agrees call call') tail.heads units) :
    Agrees call call' (.pair mark head tail) (.application c units) := by
  refine .of_run nofun fun d' hcorr env name => ?_
  rw [Code.run]
  cases hcorr with
  | pair hd htail =>
    rw [eval_application (ofHead?_eq hd hform)]
    refine .bind (hhead _ hd env none) fun p p' hp => ?_
    exact .bind (like_evalEach h htail env .nil) fun _ _ ha => hcall hp ha

end Forms

section Simulation

mutual

/-- The walk over a datum does what its code does. -/
theorem agrees_of_compiles (hcall : Caller.Like likeness call call') :
    ∀ {d : Datum} {c : Code}, d.Compiles c → Agrees call call' d c
  | _, _, .constant hd => agrees_constant hd
  | _, _, .variable name => agrees_variable name
  | _, _, .quoted d => agrees_quoted d
  | _, _, .quote hform => agrees_quote hform _
  | _, _, .assignment hform hvalue => agrees_assignment hform (agrees_of_compiles hcall hvalue)
  | _, _, .definition hform hvalue => agrees_definition hform (agrees_of_compiles hcall hvalue)
  | _, _, .procedure hform hparameters hunits => agrees_procedure hform hparameters hunits
  | _, _, .conditional hform htest hconsequent =>
    agrees_conditional hform (agrees_of_compiles hcall htest) (agrees_of_compiles hcall hconsequent)
  | _, _, .alternative hform htest hconsequent halternative =>
    agrees_alternative hform (agrees_of_compiles hcall htest) (agrees_of_compiles hcall hconsequent)
      (agrees_of_compiles hcall halternative)
  | _, _, .lambda hform hparameters hunits => agrees_lambda hform hparameters hunits
  | _, _, .sequence hform hunits => agrees_sequence hform hunits (agrees_of_compilesAll hcall hunits)
  | _, _, .application hform hoperator hoperands =>
    agrees_application hform hcall (agrees_of_compiles hcall hoperator)
      (agrees_of_compilesAll hcall hoperands)

theorem agrees_of_compilesAll (hcall : Caller.Like likeness call call') :
    ∀ {d : Datum} {units : List Code}, d.CompilesAll units →
      List.Forall₂ (Agrees call call') d.heads units
  | _, _, .nil => .nil
  | _, _, .cons hhead htail => by
    rw [Datum.heads_pair]
    exact .cons (agrees_of_compiles hcall hhead) (agrees_of_compilesAll hcall htail)

end

/-- A datum that analysis refuses is refused by the check, for the same reason. -/
theorem like_evalIn (hcall : Caller.Like likeness call call') (n : Nat) :
    Evaluator.Like likeness n (Datum.evalIn call) (evalIn call') := by
  intro env d d' hd
  have hcheck := shapely_corresponds.parallel_check hd
  rw [Datum.check_eq] at hcheck
  rw [Datum.evalIn, evalIn]
  cases hc : Code.ofDatum d with
  | error e =>
    rw [hc] at hcheck
    generalize d'.check = x at hcheck ⊢
    cases hcheck with
    | error he => exact .fail (errors_of_form he)
  | ok c =>
    rw [hc] at hcheck
    generalize d'.check = x at hcheck ⊢
    cases hcheck with
    | ok _ =>
      have hagrees := agrees_of_compiles hcall (Code.compiles_of_ofDatum hc)
      exact .evaluating (hagrees d' hd env none)

end Simulation

end Walk

/-- Procedures are called alike, by induction on the depth. -/
theorem like_call (depth : Nat) :
    Caller.Like likeness (FrameLisp.call depth) (call depth) := by
  induction depth with
  | zero => exact fun _ _ => .exhausted
  | succ depth ih =>
    intro procedure procedure' arguments arguments' hp ha
    have hcorr := hp
    cases hp with
    | primitive p => exact Primitive.like_invoke ih (like_evalIn ih 1) p ha
    | closure hlist hchain hbody hparameters =>
      rw [FrameLisp.call, applyWith, call]
      dsimp only [signature, procedure, Lambda.body, forms, Lambda.parameters]
      rw [hparameters]
      refine .bind (Action.like_extend _ _ ha) fun env _ henv => ?_
      obtain rfl := henv
      rw [run_ofUnits]
      obtain ⟨units, rfl, hunits⟩ := Code.compilesAll_of_ofChain hlist
        (fun x _ => Code.compiles_of_ofDatum) hchain
      exact like_evalBody (agrees_of_compilesAll ih hunits) hbody env .nil
    | _ => exact .fail (likeness.errors_of_shaped (.notApplicable hcorr))

section Evaluations

/-- Corresponding values with one text, errors of one kind about corresponding data with one
message, or a depth that both used up. -/
inductive OutcomesCorrespond : Except Halt Datum → Except Halt Datum → Prop
  | value {d d'} : Corresponds d d' → d.text = d'.text → OutcomesCorrespond (.ok d) (.ok d')
  | failed {e e'} : e.Shaped Corresponds e' → e.kind = e'.kind → e.message = e'.message →
      OutcomesCorrespond (.error (.failed e)) (.error (.failed e'))
  | exhausted : OutcomesCorrespond (.error .exhausted) (.error .exhausted)

/-- In corresponding sessions, running the code of a datum and walking the datum lead to
corresponding outcomes and leave corresponding sessions, within any depth. -/
theorem evaluations_correspond {d d' : Datum} (hd : Corresponds d d') {s t : Session}
    (hst : s.Like Corresponds t) (depth : Nat) (env : Handle) :
    OutcomesCorrespond (s.evalIn depth env d).1 ((evalIn (call depth) env d').runFrom t).1 ∧
      (s.evalIn depth env d).2.Like Corresponds ((evalIn (call depth) env d').runFrom t).2 := by
  have hlike := like_evalIn (like_call depth) 0 env hd
  obtain ⟨hsession, -, hend⟩ := hlike s t hst (Nat.zero_le _)
  refine ⟨?_, hsession⟩
  rw [Session.evalIn]
  generalize ((Datum.evalIn (FrameLisp.call depth) env d).runFrom s).1 = x at hend ⊢
  generalize ((evalIn (call depth) env d').runFrom t).1 = y at hend ⊢
  cases hend with
  | ok h => exact .value h (shapely_corresponds.text h)
  | error h =>
    cases h with
    | failed he => exact .failed he.1 he.1.kind he.2
    | exhausted => exact .exhausted

/-- A procedure that gives back what it is called with, as code. -/
def echo : Datum :=
  .closure 0 (.mk (some "echo") ⟨["x"], none⟩ (.ofUnits [.variable "x"])) Environments.new.root

/-- The same procedure as data. -/
def echoed : Datum :=
  .closure 0 (procedure (some "echo") ⟨["x"], none⟩ (.pair none (.symbol "x") .nil)
    (.pair none (.symbol "x") .nil)) Environments.new.root

/-- A session in which a procedure has the name `echo`. -/
def holding (procedure : Datum) (s : Session) : Session :=
  { s with
    environments := s.environments.defineGlobal "echo" procedure
    marks := s.marks + 1 }

theorem corresponds_echo : Corresponds echo echoed :=
  have hforms : Corresponds (.pair none (.symbol "x") .nil) (.pair none (.symbol "x") .nil) :=
    .pair (.symbol "x") .nil
  .closure rfl rfl hforms rfl

theorem like_holding {s : Session} (h : s.Like Corresponds s) :
    (holding echo s).Like Corresponds (holding echoed s) :=
  ⟨h.environments.defineGlobal "echo" corresponds_echo, rfl, rfl, rfl, rfl⟩

def initial : Session := .new 1 fun _ => .error .notFound

/-- A procedure from a frame is called with itself, which stands in the datum. -/
theorem evaluations_correspond_echo :
    let d := Datum.pair none (.symbol "echo") (.pair none echo .nil)
    let d' := Datum.pair none (.symbol "echo") (.pair none echoed .nil)
    let t := (evalIn (call 2) initial.root d').runFrom (holding echoed initial)
    Corresponds d d' ∧ (holding echo initial).Like Corresponds (holding echoed initial) ∧
      OutcomesCorrespond ((holding echo initial).evalIn 2 initial.root d).1 t.1 ∧
      ((holding echo initial).evalIn 2 initial.root d).2.Like Corresponds t.2 :=
  have hd : Corresponds (.pair none (.symbol "echo") (.pair none echo .nil))
      (.pair none (.symbol "echo") (.pair none echoed .nil)) :=
    .pair (.symbol "echo") (.pair corresponds_echo .nil)
  have hst := like_holding (.new Corresponds.primitive 1 fun _ => .error .notFound)
  ⟨hd, hst, evaluations_correspond hd hst 2 initial.root⟩

end Evaluations

end FrameLisp.Direct
