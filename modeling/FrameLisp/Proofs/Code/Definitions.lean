import FrameLisp.Datum.Equality
import FrameLisp.Proofs.Code.Check
import FrameLisp.Proofs.Code.Compiling

/-!
# Two ways to define a procedure

`(define (name . parameters) . body)` is short for `(define name (lambda parameters . body))`. Both
have the same code and are refused together. A body that is a list of forms decides alone about the
outcome, which is then the same also when it is an error; any other body is at fault itself, and
each of the two forms says so in its own words.
-/
namespace FrameLisp

namespace FormError

/-- The datum that an error shows. -/
def shown? : FormError → Option Datum
  | .unknownForm d | .malformed _ _ d | .invalidParameter d => some d
  | .duplicateParameter _ => none

/-- Whether an error shows a part of the datum, or none at all. -/
def ShowsPart (d : Datum) (e : FormError) : Prop := ∀ x, e.shown? = some x → Datum.Part x d

variable {d d' : Datum} {e : FormError}

theorem ShowsPart.mono (h : e.ShowsPart d) (hpart : ∀ x, Datum.Part x d → Datum.Part x d') :
    e.ShowsPart d' := fun x hx => hpart x (h x hx)

theorem showsPart_malformed (form : Option SpecialForm) (fault : FormFault) (d : Datum) :
    (malformed form fault d).ShowsPart d := by
  rintro x ⟨⟩
  exact .refl d

end FormError

section Parts

variable {mark : Option Nat} {head tail part d : Datum} {e : FormError} {special : SpecialForm}

theorem Datum.Part.sizeOf_le (h : Datum.Part part d) : sizeOf part ≤ sizeOf d := by
  induction h with
  | refl => exact Nat.le_refl _
  | head _ ih | tail _ ih =>
    rw [Datum.pair.sizeOf_spec]
    omega
  | quoted _ ih =>
    rw [Datum.quoted.sizeOf_spec]
    omega

theorem Datum.Part.of_mem_heads (h : part ∈ d.heads) : Datum.Part part d := by
  induction d with
  | pair mark head tail _ ih =>
    rw [Datum.heads_pair, List.mem_cons] at h
    rcases h with rfl | h
    · exact .head (.refl _)
    · exact .tail (ih h)
  | _ => simp [Datum.heads, Datum.headsFrom] at h

theorem Parameters.showsPart_of_collect {read : List String} (h : collect read d = .error e) :
    e.ShowsPart d := by
  induction d generalizing read with
  | pair mark head tail _ ih =>
    cases head with
    | symbol name => exact (ih h).mono fun _ => .tail
    | _ =>
      cases h
      rintro x ⟨⟩
      exact .head (.refl _)
  | nil | symbol => cases h
  | _ =>
    cases h
    rintro x ⟨⟩
    exact .refl _

theorem Parameters.showsPart_of_ofDatum (h : Parameters.ofDatum d = .error e) : e.ShowsPart d := by
  rw [ofDatum] at h
  cases hcollect : collect [] d with
  | error e' =>
    rw [hcollect] at h
    cases h
    exact showsPart_of_collect hcollect
  | ok p =>
    rw [hcollect] at h
    dsimp only at h
    split at h
    · cases h
      rintro x ⟨⟩
    · cases h

/-- Whether an error of the check shows a part of the datum that is checked. -/
def Datum.CheckedInside (d : Datum) : Prop := ∀ {e}, d.check = .error e → e.ShowsPart d

theorem Datum.showsPart_of_checkEach (hd : ∀ x ∈ d.heads, x.CheckedInside)
    (h : d.checkEach = .error e) : e.ShowsPart d := by
  induction d with
  | pair mark head tail _ ih =>
    simp only [heads_pair, List.forall_mem_cons] at hd
    rw [checkEach] at h
    cases hcheck : head.check with
    | error e' =>
      rw [hcheck] at h
      cases h
      exact (hd.1 hcheck).mono fun _ => .head
    | ok _ =>
      rw [hcheck] at h
      exact (ih hd.2 h).mono fun _ => .tail
  | _ =>
    rw [checkEach] at h
    · cases h
    · simp

/-- Parameters, and behind them the forms of a body. -/
theorem Datum.showsPart_of_checkProcedure {signature body : Datum}
    (hd : ∀ x ∈ body.heads, x.CheckedInside) (hsignature : ∀ x, Part x signature → Part x d)
    (hbody : ∀ x, Part x body → Part x d)
    (h : (do
      let _ ← Parameters.ofDatum signature
      body.checkEach) = .error e) : e.ShowsPart d := by
  cases hparameters : Parameters.ofDatum signature with
  | error e' =>
    rw [hparameters] at h
    cases h
    exact (Parameters.showsPart_of_ofDatum hparameters).mono hsignature
  | ok p =>
    rw [hparameters] at h
    exact (showsPart_of_checkEach hd h).mono hbody

theorem Datum.showsPart_of_checkOperands (hd : ∀ x ∈ d.heads, x.CheckedInside)
    (h : checkOperands special d = .error e) : e.ShowsPart d := by
  cases d with
  | pair mark head tail =>
    have heach : ∀ {e}, checkEach (.pair mark head tail) = .error e →
        e.ShowsPart (.pair mark head tail) := showsPart_of_checkEach hd
    simp only [heads_pair, List.forall_mem_cons] at hd
    cases special with
    | quote => cases h
    | assignment => exact (showsPart_of_checkEach hd.2 h).mono fun _ => .tail
    | lambda => exact showsPart_of_checkProcedure hd.2 (fun _ => .head) (fun _ => .tail) h
    | conditional | sequence => exact heach h
    | definition =>
      cases head with
      | pair m name signature =>
        exact showsPart_of_checkProcedure hd.2 (fun _ hx => .head (.tail hx)) (fun _ => .tail) h
      | _ => exact (showsPart_of_checkEach hd.2 h).mono fun _ => .tail
  | _ => cases special <;> cases h

/-- What is wrong with a datum shows in a part of it. -/
theorem Datum.showsPart_of_check (h : d.check = .error e) : e.ShowsPart d := by
  suffices hd : d.CheckedInside ∧ ∀ x ∈ d.heads, x.CheckedInside from hd.1 h
  clear h
  induction d with
  | pair mark head tail ihh iht =>
    refine ⟨fun {e} h => ?_, by simpa using ⟨ihh.1, iht.2⟩⟩
    rw [check] at h
    split at h
    · cases hhead : head.check with
      | error e' =>
        rw [hhead] at h
        cases h
        exact (ihh.1 hhead).mono fun _ => .head
      | ok _ =>
        rw [hhead] at h
        dsimp only [bind, Except.bind] at h
        split at h
        · exact (showsPart_of_checkEach iht.2 h).mono fun _ => .tail
        · cases h
          exact FormError.showsPart_malformed _ _ _
    · split at h
      · cases h
        exact FormError.showsPart_malformed _ _ _
      · split at h
        · cases h
          exact FormError.showsPart_malformed _ _ _
        · exact (showsPart_of_checkOperands iht.2 h).mono fun _ => .tail
  | nil =>
    refine ⟨fun {e} h => ?_, by simp [heads, headsFrom]⟩
    cases h
    rintro x ⟨⟩
    exact .refl _
  | _ =>
    refine ⟨fun {e} h => ?_, by simp [heads, headsFrom]⟩
    cases h

end Parts

section Definitions

namespace Datum

/-- `(define (name . parameters) . body)`, whose pairs have these marks. -/
def procedureDefinition (m m' m'' : Option Nat) (name : String) (parameters body : Datum) :
    Datum :=
  .pair m (.symbol "define") (.pair m' (.pair m'' (.symbol name) parameters) body)

/-- `(lambda parameters . body)`, whose pairs have these marks. -/
def procedure (m m' : Option Nat) (parameters body : Datum) : Datum :=
  .pair m (.symbol "lambda") (.pair m' parameters body)

/-- `(define name value)`, whose pairs have these marks. -/
def definition (m m' m'' : Option Nat) (name : String) (value : Datum) : Datum :=
  .pair m (.symbol "define") (.pair m' (.symbol name) (.pair m'' value .nil))

end Datum

namespace Code

/-- The parameters and the units of a procedure. -/
def signed (parameters first rest : Datum) : Except FormError (Parameters × List Code) := do
  let parameters ← Parameters.ofDatum parameters
  let first ← ofDatum first
  let units ← ofChain [first] rest
  return (parameters, units)

variable {name : String} {parameters body first rest value : Datum} {m m' m'' mark : Option Nat}

theorem ofDatum_definition : ofDatum (.definition m m' m'' name value) =
    (ofDatum value).map fun c => .definition name (c.named name) := by
  have hform : SpecialForm.ofHead? (.symbol "define") = some .definition := rfl
  rw [Datum.definition, ofDatum.eq_def]
  dsimp only
  rw [hform]
  cases ofDatum value <;> rfl

theorem signed_eq {α : Type} (f : Parameters → List Code → α)
    (parameters first rest : Datum) : (do
      let parameters ← Parameters.ofDatum parameters
      let first ← ofDatum first
      let units ← ofChain [first] rest
      return f parameters units) = (fun x => f x.1 x.2) <$> signed parameters first rest := by
  simp only [signed, map_bind, map_pure]

theorem ofDatum_procedure (hrest : rest.isList = true) :
    ofDatum (.procedure m m' parameters (.pair mark first rest)) =
      (fun x => .lambda (.mk none x.1 (.ofUnits x.2))) <$> signed parameters first rest := by
  have hform : SpecialForm.ofHead? (.symbol "lambda") = some .lambda := rfl
  rw [Datum.procedure, ofDatum.eq_def]
  dsimp only
  rw [hform]
  dsimp only
  rw [hrest, if_pos rfl, signed_eq]

theorem ofDatum_procedureDefinition (hrest : rest.isList = true) :
    ofDatum (.procedureDefinition m m' m'' name parameters (.pair mark first rest)) =
      (fun x => .definition name (.lambda (.mk (some name) x.1 (.ofUnits x.2)))) <$>
        signed parameters first rest := by
  have hform : SpecialForm.ofHead? (.symbol "define") = some .definition := rfl
  rw [Datum.procedureDefinition, ofDatum.eq_def]
  dsimp only
  rw [hform]
  dsimp only
  rw [hrest, if_pos rfl, signed_eq]

/-- A body that is no list of forms, or has none, is at fault whatever the parameters are. -/
theorem ofDatum_procedure_of_body (hbody : ¬(body.isPair = true ∧ body.isList = true)) :
    ofDatum (.procedure m m' parameters body) = .error (.ofOperands .lambda .parametersAndBody
      (.procedure m m' parameters body) (.pair m' parameters body)) := by
  have hform : SpecialForm.ofHead? (.symbol "lambda") = some .lambda := rfl
  rw [Datum.procedure, ofDatum.eq_def]
  dsimp only
  rw [hform]
  cases body with
  | pair mark first rest =>
    have hrest : rest.isList = false := Bool.eq_false_iff.2 fun hlist => hbody ⟨rfl, hlist⟩
    have hoperands : (Datum.pair m' parameters (.pair mark first rest)).isList = false := hrest
    simp [hrest, hoperands, FormError.ofOperands]
  | _ => rfl

theorem ofDatum_procedureDefinition_of_body
    (hbody : ¬(body.isPair = true ∧ body.isList = true)) :
    ofDatum (.procedureDefinition m m' m'' name parameters body) =
      .error (.ofOperands .definition .emptyBody
        (.procedureDefinition m m' m'' name parameters body) body) := by
  have hform : SpecialForm.ofHead? (.symbol "define") = some .definition := rfl
  rw [Datum.procedureDefinition, ofDatum.eq_def]
  dsimp only
  rw [hform]
  cases body with
  | pair mark first rest =>
    have hrest : rest.isList = false := Bool.eq_false_iff.2 fun hlist => hbody ⟨rfl, hlist⟩
    have hoperands : (Datum.pair mark first rest).isList = false := hrest
    simp [hrest, hoperands, FormError.ofOperands]
  | _ => rfl

/-- Whether something that is wrong with the parameters or with a form of the body is this error. -/
def Inside (parameters body : Datum) (e : FormError) : Prop :=
  Parameters.ofDatum parameters = .error e ∨ ∃ d ∈ body.heads, ofDatum d = .error e

/-- How the short form of a procedure definition and the long one compare. -/
structure DefinedAlike (name : String) (parameters body : Datum)
    (short long : Except FormError Code) : Prop where
  /-- Both have the same code, or both have none. -/
  ok : ∀ c, short = .ok c ↔ long = .ok c
  /-- The code defines a procedure of that name. -/
  named : ∀ c, short = .ok c → ∃ p units, Parameters.ofDatum parameters = .ok p ∧
    body.CompilesAll units ∧ c = .definition name (.lambda (.mk (some name) p (.ofUnits units)))
  /-- What is wrong with the parameters or with a form of the body both report. -/
  error : ∀ e, Inside parameters body e → (short = .error e ↔ long = .error e)
  /-- Unless the body itself is at fault, there is one outcome, an error or not. -/
  outcome : body.isPair = true → body.isList = true → short = long

/-- An error of the parameters or of a form of the body shows less than the whole definition. -/
theorem Inside.not_shown {e : FormError} (h : Inside parameters body e) (form : Datum)
    (hparameters : sizeOf parameters < sizeOf form) (hbody : sizeOf body < sizeOf form) :
    e.shown? ≠ some form := by
  intro hshown
  rcases h with h | ⟨d, hd, h⟩
  · have hle := (Parameters.showsPart_of_ofDatum h form hshown).sizeOf_le
    omega
  · have hcheck : d.check = .error e := by rw [Datum.check_eq, h, Except.map]
    have hpart := (Datum.showsPart_of_check hcheck form hshown).sizeOf_le
    have hle := (Datum.Part.of_mem_heads hd).sizeOf_le
    omega

theorem Inside.ne_procedure {e : FormError} (h : Inside parameters body e) :
    e.shown? ≠ some (.procedure m m' parameters body) := by
  refine h.not_shown _ ?_ ?_
  all_goals
    simp only [Datum.procedure, Datum.pair.sizeOf_spec]
    omega

theorem Inside.ne_procedureDefinition {e : FormError} (h : Inside parameters body e) :
    e.shown? ≠ some (.procedureDefinition m m' m'' name parameters body) := by
  refine h.not_shown _ ?_ ?_
  all_goals
    simp only [Datum.procedureDefinition, Datum.pair.sizeOf_spec]
    omega

/-- A body of forms decides alone about both. -/
theorem ofDatum_procedureDefinition_eq (name : String) (parameters : Datum)
    (m m' m'' n n' n'' k k' : Option Nat) (hpair : body.isPair = true)
    (hlist : body.isList = true) : ofDatum (.procedureDefinition m m' m'' name parameters body) =
      ofDatum (.definition n n' n'' name (.procedure k k' parameters body)) := by
  cases body with
  | pair mark first rest =>
    have hrest : rest.isList = true := hlist
    rw [ofDatum_procedureDefinition hrest, ofDatum_definition, ofDatum_procedure hrest]
    cases signed parameters first rest <;> rfl
  | _ => cases hpair

/-- What the short form defines is a procedure of that name. -/
theorem exists_of_ofDatum_procedureDefinition {c : Code}
    (hc : ofDatum (.procedureDefinition m m' m'' name parameters body) = .ok c) :
    ∃ p units, Parameters.ofDatum parameters = .ok p ∧ body.CompilesAll units ∧
      c = .definition name (.lambda (.mk (some name) p (.ofUnits units))) := by
  cases ofDatum_eq_ok_iff.1 hc with
  | procedure _ hparameters hunits => exact ⟨_, _, hparameters, hunits, rfl⟩
  | constant h | quote h => cases h
  | conditional h | alternative h | lambda h | sequence h | application h => cases h

/-- The short form of a procedure definition is the long one: it has the same code, or it is
refused together with it. -/
theorem definedAlike (name : String) (parameters body : Datum)
    (m m' m'' n n' n'' k k' : Option Nat) : DefinedAlike name parameters body
      (ofDatum (.procedureDefinition m m' m'' name parameters body))
      (ofDatum (.definition n n' n'' name (.procedure k k' parameters body))) := by
  by_cases hbody : body.isPair = true ∧ body.isList = true
  · have hsame := ofDatum_procedureDefinition_eq name parameters m m' m'' n n' n'' k k' hbody.1
      hbody.2
    exact ⟨fun c => by rw [hsame], fun c hc => exists_of_ofDatum_procedureDefinition hc,
      fun e _ => by rw [hsame], fun _ _ => hsame⟩
  · refine ⟨fun c => ?_, fun c hc => exists_of_ofDatum_procedureDefinition hc, fun e he => ?_,
      fun hpair hlist => absurd ⟨hpair, hlist⟩ hbody⟩
    · rw [ofDatum_procedureDefinition_of_body hbody, ofDatum_definition,
        ofDatum_procedure_of_body hbody]
      constructor <;> rintro ⟨⟩
    · -- each form shows itself, and so more than any error of its parts
      rw [ofDatum_procedureDefinition_of_body hbody, ofDatum_definition,
        ofDatum_procedure_of_body hbody]
      constructor
      · rintro ⟨⟩
        exact absurd rfl he.ne_procedureDefinition
      · rintro ⟨⟩
        exact absurd rfl he.ne_procedure

end Code

end Definitions

end FrameLisp
