import FrameLisp.Proofs.Datum.Observation
import FrameLisp.Proofs.Outcomes
import FrameLisp.Code.Analysis

/-!
# Analysis under other handles

Analysis looks at the shape of a datum and never at the handles in it: a renamed datum has the
renamed code, and is refused for the same reason. The constants of the code are parts of the datum.
-/
namespace FrameLisp

open Store

variable {σ : Handle → Handle} {p : Handle → Prop} {q : Primitive → Prop}

namespace FormError

/-- The same error with other handles in the datum it shows. -/
def rename (σ : Handle → Handle) : FormError → FormError
  | .unknownForm d => .unknownForm (d.rename σ)
  | .malformed form fault d => .malformed form fault (d.rename σ)
  | .invalidParameter got => .invalidParameter (got.rename σ)
  | .duplicateParameter name => .duplicateParameter name

@[simp] theorem message_rename (e : FormError) : (e.rename σ).message = e.message := by
  cases e with
  | duplicateParameter name => rfl
  | _ =>
    unfold rename message
    dsimp only
    rw [Datum.text_rename]

/-- The error of a renamed datum. -/
def Renamed (σ : Handle → Handle) (e e' : FormError) : Prop := e' = e.rename σ

theorem ofOperands_rename (form : SpecialForm) (fault : FormFault) (d tail : Datum) :
    ofOperands form fault (d.rename σ) (tail.rename σ) =
      (ofOperands form fault d tail).rename σ := by
  simp only [ofOperands, rename, Datum.isList_rename]

end FormError

@[simp] theorem SpecialForm.ofHead?_rename (d : Datum) : ofHead? (d.rename σ) = ofHead? d := by
  cases d <;> rfl

theorem Parallel.ofOperands {α β : Type} {onResult : α → β → Prop} (form : SpecialForm)
    (fault : FormFault) (d tail : Datum) : Parallel (FormError.Renamed σ) onResult (.error (.ofOperands form fault d tail))
      (.error (.ofOperands form fault (d.rename σ) (tail.rename σ))) :=
  .error (FormError.ofOperands_rename form fault d tail)

theorem Parameters.parallel_collect : ∀ (read : List String) (d : Datum),
    Parallel (FormError.Renamed σ) Eq (collect read d) (collect read (d.rename σ))
  | read, .pair _ head tail => by
    cases head with
    | symbol name => exact parallel_collect (name :: read) tail
    | _ => exact .error rfl
  | _, .nil | _, .symbol _ => .ok rfl
  | _, .number _ | _, .string _ | _, .boolean _ | _, .quoted _ | _, .closure ..
  | _, .primitive _ => .error rfl

theorem Parameters.parallel_ofDatum (d : Datum) :
    Parallel (FormError.Renamed σ) Eq (ofDatum d) (ofDatum (d.rename σ)) := by
  have hc := parallel_collect (σ := σ) [] d
  rw [ofDatum, ofDatum]
  rcases hc.exists_or with ⟨p, p', hp, hp', rfl⟩ | ⟨e, e', he, he', h⟩
  · rw [hp, hp']
    dsimp only
    split
    · exact .error rfl
    · exact .ok rfl
  · rw [he, he']
    exact .error h

namespace Code

/-- The same code up to handles, all of them in `p`. -/
def Renames (p : Handle → Prop) (q : Primitive → Prop) (σ : Handle → Handle) (c c' : Code) : Prop :=
  c.Within p q ∧ c' = c.rename σ

theorem renames_ofUnits {units : List Code} (hu : ∀ unit ∈ units, unit.Within p q) :
    Renames p q σ (ofUnits units) (ofUnits (units.map (rename σ))) := by
  match units with
  | [] => exact ⟨by simp [ofUnits], rfl⟩
  | [unit] => exact ⟨hu unit List.mem_cons_self, rfl⟩
  | first :: second :: rest =>
    exact ⟨by simpa [ofUnits] using hu, by simp [ofUnits]⟩

theorem renames_named (name : String) {c : Code} (hc : c.Within p q) :
    Renames p q σ (named name c) (named name (c.rename σ)) := by
  cases c with
  | lambda l => obtain ⟨_ | _, parameters, body⟩ := l <;> exact ⟨hc, rfl⟩
  | _ => exact ⟨hc, rfl⟩

/-- The datum and the renamed one are analysed alike. -/
def Analysed (p : Handle → Prop) (q : Primitive → Prop) (σ : Handle → Handle) (d : Datum) : Prop :=
  Parallel (FormError.Renamed σ) (Renames p q σ) (ofDatum d) (ofDatum (d.rename σ))

theorem parallel_ofChain {read : List Code} (hread : ∀ unit ∈ read, unit.Within p q) {d : Datum}
    (hd : ∀ x ∈ d.heads, Analysed p q σ x) :
    Parallel (FormError.Renamed σ) (fun units units' => (∀ unit ∈ units, unit.Within p q) ∧
      units' = units.map (rename σ)) (ofChain read d)
      (ofChain (read.map (rename σ)) (d.rename σ)) := by
  induction d generalizing read with
  | pair mark head tail _ ih =>
    simp only [Datum.heads_pair, List.forall_mem_cons] at hd
    obtain ⟨hhead, htail⟩ := hd
    rw [Datum.rename, ofChain, ofChain]
    rcases hhead.exists_or with ⟨c, _, hc, hc', hunit, rfl⟩ | ⟨e, e', he, he', h⟩
    · rw [hc, hc']
      exact ih (List.forall_mem_cons.2 ⟨hunit, hread⟩) htail
    · rw [he, he']
      exact .error h
  | _ =>
    rw [Datum.rename, ofChain, ofChain]
    · exact .ok ⟨by simpa using hread, by simp⟩
    all_goals simp

/-- A body of units that begins with `first`. -/
theorem parallel_body {first rest : Datum} (hfirst : Analysed p q σ first)
    (hrest : ∀ x ∈ rest.heads, Analysed p q σ x) {f : Code → Code}
    (hf : ∀ c, c.Within p q → Renames p q σ (f c) (f (c.rename σ))) :
    Parallel (FormError.Renamed σ) (Renames p q σ)
      (do
        let first ← ofDatum first
        let units ← ofChain [first] rest
        return f (ofUnits units))
      (do
        let first ← ofDatum (first.rename σ)
        let units ← ofChain [first] (rest.rename σ)
        return f (ofUnits units)) := by
  refine Parallel.bind hfirst ?_
  rintro c _ ⟨hc, rfl⟩
  have hread : ∀ unit ∈ [c], unit.Within p q := by simpa using hc
  refine Parallel.bind (parallel_ofChain hread hrest) ?_
  rintro units _ ⟨hunits, rfl⟩
  obtain ⟨hbody, he⟩ := renames_ofUnits (σ := σ) hunits
  rw [he]
  exact .ok (hf _ hbody)

section Forms

variable {mark : Option Nat} {head tail : Datum}

theorem analysed_quote (hform : SpecialForm.ofHead? head = some .quote) (hd : tail.Within p q) :
    Analysed p q σ (.pair mark head tail) := by
  rw [Analysed, Datum.rename, ofDatum.eq_def, ofDatum.eq_def (.pair mark (head.rename σ) _)]
  dsimp only
  rw [SpecialForm.ofHead?_rename, hform]
  dsimp only
  cases tail with
  | pair m d rest =>
    cases rest with
    | nil => exact .ok ⟨hd.1, rfl⟩
    | _ => exact .ofOperands _ _ (.pair mark head _) (.pair m d _)
  | _ => exact .ofOperands _ _ (.pair mark head _) _

theorem analysed_assignment (hform : SpecialForm.ofHead? head = some .assignment)
    (htail : ∀ x ∈ tail.heads, Analysed p q σ x) : Analysed p q σ (.pair mark head tail) := by
  rw [Analysed, Datum.rename, ofDatum.eq_def, ofDatum.eq_def (.pair mark (head.rename σ) _)]
  dsimp only
  rw [SpecialForm.ofHead?_rename, hform]
  dsimp only
  cases tail with
  | pair m target rest =>
    cases rest with
    | pair m' value last =>
      cases last with
      | nil =>
        cases target with
        | symbol name =>
          refine Parallel.bind (htail value (by simp)) ?_
          rintro c _ ⟨hc, rfl⟩
          exact .ok ⟨hc, rfl⟩
        | _ => exact .error rfl
      | _ =>
        cases target <;>
          exact .ofOperands _ _ (.pair mark head _) (.pair m _ (.pair m' value _))
    | _ => cases target <;> exact .ofOperands _ _ (.pair mark head _) (.pair m _ _)
  | _ => exact .ofOperands _ _ (.pair mark head _) _

theorem analysed_definition (hform : SpecialForm.ofHead? head = some .definition)
    (htail : ∀ x ∈ tail.heads, Analysed p q σ x) : Analysed p q σ (.pair mark head tail) := by
  rw [Analysed, Datum.rename, ofDatum.eq_def, ofDatum.eq_def (.pair mark (head.rename σ) _)]
  dsimp only
  rw [SpecialForm.ofHead?_rename, hform]
  dsimp only
  cases tail with
  | pair m target body =>
    cases target with
    | symbol name =>
      cases body with
      | pair m' value rest =>
        cases rest with
        | nil =>
          refine Parallel.bind (htail value (by simp)) ?_
          rintro c _ ⟨hc, rfl⟩
          obtain ⟨hnamed, he⟩ := renames_named (σ := σ) name hc
          exact .ok ⟨hnamed, congrArg (Code.definition name) he⟩
        | _ => exact .ofOperands _ _ (.pair mark head _) (.pair m' value _)
      | _ => exact .ofOperands _ _ (.pair mark head _) _
    | pair m' name signature =>
      cases name with
      | symbol name =>
        cases body with
        | pair m'' first rest =>
          simp only [Datum.heads_pair, List.forall_mem_cons] at htail
          obtain ⟨-, hfirst, hrest⟩ := htail
          simp only [Datum.rename, Datum.isList_rename]
          split
          · refine Parallel.bind (Parameters.parallel_ofDatum signature) ?_
            rintro parameters _ rfl
            exact parallel_body hfirst hrest
              (f := fun body => .definition name (.lambda (.mk (some name) parameters body)))
              fun c hc => ⟨hc, rfl⟩
          · exact .error rfl
        | _ => exact .ofOperands _ _ (.pair mark head _) _
      | _ => exact .ofOperands _ _ (.pair mark head (.pair m (.pair m' _ signature) body)) body
    | _ => exact .ofOperands _ _ (.pair mark head (.pair m _ body)) body
  | _ => exact .ofOperands _ _ (.pair mark head _) _

theorem analysed_conditional (hform : SpecialForm.ofHead? head = some .conditional)
    (htail : ∀ x ∈ tail.heads, Analysed p q σ x) : Analysed p q σ (.pair mark head tail) := by
  rw [Analysed, Datum.rename, ofDatum.eq_def, ofDatum.eq_def (.pair mark (head.rename σ) _)]
  dsimp only
  rw [SpecialForm.ofHead?_rename, hform]
  dsimp only
  cases tail with
  | pair m test rest =>
    cases rest with
    | pair m' consequent rest =>
      simp only [Datum.heads_pair, List.forall_mem_cons] at htail
      obtain ⟨htest, hconsequent, hrest⟩ := htail
      cases rest with
      | nil =>
        refine Parallel.bind htest ?_
        rintro t _ ⟨ht, rfl⟩
        refine Parallel.bind hconsequent ?_
        rintro c _ ⟨hc, rfl⟩
        exact .ok ⟨⟨ht, hc, trivial⟩, rfl⟩
      | pair m'' alternative rest =>
        cases rest with
        | nil =>
          refine Parallel.bind htest ?_
          rintro t _ ⟨ht, rfl⟩
          refine Parallel.bind hconsequent ?_
          rintro c _ ⟨hc, rfl⟩
          refine Parallel.bind (hrest alternative (by simp)) ?_
          rintro a _ ⟨ha, rfl⟩
          exact .ok ⟨⟨ht, hc, ha⟩, rfl⟩
        | _ =>
          exact .ofOperands _ _ (.pair mark head _)
            (.pair m test (.pair m' consequent (.pair m'' alternative _)))
      | _ =>
        exact .ofOperands _ _ (.pair mark head _) (.pair m test (.pair m' consequent _))
    | _ => exact .ofOperands _ _ (.pair mark head _) (.pair m test _)
  | _ => exact .ofOperands _ _ (.pair mark head _) _

theorem analysed_lambda (hform : SpecialForm.ofHead? head = some .lambda)
    (htail : ∀ x ∈ tail.heads, Analysed p q σ x) : Analysed p q σ (.pair mark head tail) := by
  rw [Analysed, Datum.rename, ofDatum.eq_def, ofDatum.eq_def (.pair mark (head.rename σ) _)]
  dsimp only
  rw [SpecialForm.ofHead?_rename, hform]
  dsimp only
  cases tail with
  | pair m parameters body =>
    cases body with
    | pair m' first rest =>
      simp only [Datum.heads_pair, List.forall_mem_cons] at htail
      obtain ⟨-, hfirst, hrest⟩ := htail
      simp only [Datum.rename, Datum.isList_rename]
      split
      · refine Parallel.bind (Parameters.parallel_ofDatum parameters) ?_
        rintro parameters _ rfl
        exact parallel_body hfirst hrest (f := fun body => .lambda (.mk none parameters body))
          fun c hc => ⟨hc, rfl⟩
      · exact .error rfl
    | _ => exact .ofOperands _ _ (.pair mark head _) (.pair m parameters _)
  | _ => exact .ofOperands _ _ (.pair mark head _) _

theorem analysed_sequence (hform : SpecialForm.ofHead? head = some .sequence)
    (htail : ∀ x ∈ tail.heads, Analysed p q σ x) : Analysed p q σ (.pair mark head tail) := by
  rw [Analysed, Datum.rename, ofDatum.eq_def, ofDatum.eq_def (.pair mark (head.rename σ) _)]
  dsimp only
  rw [SpecialForm.ofHead?_rename, hform]
  dsimp only
  cases tail with
  | pair m first rest =>
    simp only [Datum.heads_pair, List.forall_mem_cons] at htail
    simp only [Datum.rename, Datum.isList_rename]
    split
    · exact parallel_body htail.1 htail.2 (f := id) fun c hc => ⟨hc, rfl⟩
    · exact .error rfl
  | _ => exact .ofOperands _ _ (.pair mark head _) _

theorem analysed_application (hform : SpecialForm.ofHead? head = none)
    (hhead : Analysed p q σ head) (htail : ∀ x ∈ tail.heads, Analysed p q σ x) :
    Analysed p q σ (.pair mark head tail) := by
  rw [Analysed, Datum.rename, ofDatum.eq_def, ofDatum.eq_def (.pair mark (head.rename σ) _)]
  dsimp only
  rw [SpecialForm.ofHead?_rename, hform, Datum.isList_rename]
  dsimp only
  refine Parallel.bind hhead ?_
  rintro c _ ⟨hc, rfl⟩
  split
  · have hread : ∀ unit ∈ ([] : List Code), unit.Within p q := by simp
    refine Parallel.bind (parallel_ofChain hread htail) ?_
    rintro units _ ⟨hunits, rfl⟩
    exact .ok ⟨⟨hc, by simpa using hunits⟩, by simp⟩
  · exact .error rfl

end Forms

theorem analysed_of_within {d : Datum} (hd : d.Within p q) : Analysed p q σ d := by
  suffices h : Analysed p q σ d ∧ ∀ x ∈ d.heads, Analysed p q σ x from h.1
  induction d with
  | pair mark head tail ihh iht =>
    obtain ⟨hhead, -⟩ := ihh hd.1
    obtain ⟨-, htail⟩ := iht hd.2
    refine ⟨?_, by simpa using ⟨hhead, htail⟩⟩
    cases hform : SpecialForm.ofHead? head with
    | none => exact analysed_application hform hhead htail
    | some form =>
      cases form with
      | quote => exact analysed_quote hform hd.2
      | assignment => exact analysed_assignment hform htail
      | definition => exact analysed_definition hform htail
      | conditional => exact analysed_conditional hform htail
      | lambda => exact analysed_lambda hform htail
      | sequence => exact analysed_sequence hform htail
  | nil => exact ⟨.error rfl, by simp⟩
  | symbol name => exact ⟨.ok ⟨trivial, rfl⟩, by simp [Datum.heads, Datum.headsFrom]⟩
  | quoted d => exact ⟨.ok ⟨hd, rfl⟩, by simp [Datum.heads, Datum.headsFrom]⟩
  | _ => exact ⟨.ok ⟨hd, rfl⟩, by simp [Datum.heads, Datum.headsFrom]⟩

end Code

end FrameLisp
