import FrameLisp.Code.Analysis

/-!
# The code of a program

Which code each kind of program has, as a relation that proofs can follow from form to form. Every
datum that analysis accepts stands in it to its code.
-/
namespace FrameLisp

/-- Whether a datum is evaluated to itself. -/
def Datum.isConstant : Datum → Bool
  | .number _ | .string _ | .boolean _ | .closure .. | .primitive _ => true
  | _ => false

mutual

inductive Datum.Compiles : Datum → Code → Prop
  | constant {d} : d.isConstant = true → Datum.Compiles d (.constant d)
  | variable (name : String) : Datum.Compiles (.symbol name) (.variable name)
  | quoted (d : Datum) : Datum.Compiles (.quoted d) (.constant d)
  | quote {mark head m d} : SpecialForm.ofHead? head = some .quote →
      Datum.Compiles (.pair mark head (.pair m d .nil)) (.constant d)
  | assignment {mark head m name m' value c} : SpecialForm.ofHead? head = some .assignment →
      value.Compiles c →
      Datum.Compiles (.pair mark head (.pair m (.symbol name) (.pair m' value .nil)))
        (.assignment name c)
  | definition {mark head m name m' value c} : SpecialForm.ofHead? head = some .definition →
      value.Compiles c →
      Datum.Compiles (.pair mark head (.pair m (.symbol name) (.pair m' value .nil)))
        (.definition name (c.named name))
  | procedure {mark head m m' name signature m'' first rest parameters units} :
      SpecialForm.ofHead? head = some .definition →
      Parameters.ofDatum signature = .ok parameters →
      Datum.CompilesAll (.pair m'' first rest) units →
      Datum.Compiles
        (.pair mark head (.pair m (.pair m' (.symbol name) signature) (.pair m'' first rest)))
        (.definition name (.lambda (.mk (some name) parameters (.ofUnits units))))
  | conditional {mark head m test m' consequent t c} :
      SpecialForm.ofHead? head = some .conditional → test.Compiles t → consequent.Compiles c →
      Datum.Compiles (.pair mark head (.pair m test (.pair m' consequent .nil)))
        (.conditional t c (.constant (.boolean false)))
  | alternative {mark head m test m' consequent m'' alternative t c a} :
      SpecialForm.ofHead? head = some .conditional → test.Compiles t → consequent.Compiles c →
      alternative.Compiles a →
      Datum.Compiles
        (.pair mark head (.pair m test (.pair m' consequent (.pair m'' alternative .nil))))
        (.conditional t c a)
  | lambda {mark head m signature m' first rest parameters units} :
      SpecialForm.ofHead? head = some .lambda → Parameters.ofDatum signature = .ok parameters →
      Datum.CompilesAll (.pair m' first rest) units →
      Datum.Compiles (.pair mark head (.pair m signature (.pair m' first rest)))
        (.lambda (.mk none parameters (.ofUnits units)))
  | sequence {mark head m first rest units} : SpecialForm.ofHead? head = some .sequence →
      Datum.CompilesAll (.pair m first rest) units →
      Datum.Compiles (.pair mark head (.pair m first rest)) (.ofUnits units)
  | application {mark head tail operator operands} : SpecialForm.ofHead? head = none →
      head.Compiles operator → Datum.CompilesAll tail operands →
      Datum.Compiles (.pair mark head tail) (.application operator operands)

/-- The units of the heads of a list. -/
inductive Datum.CompilesAll : Datum → List Code → Prop
  | nil : Datum.CompilesAll .nil []
  | cons {mark head tail unit units} : head.Compiles unit → tail.CompilesAll units →
      Datum.CompilesAll (.pair mark head tail) (unit :: units)

end

namespace Code

/-- What analysis makes of the datum is its code. -/
def Analyses (d : Datum) : Prop := ∀ {c}, ofDatum d = .ok c → d.Compiles c

section Chains

theorem compilesAll_of_ofChain {read units : List Code} {d : Datum} (hlist : d.isList = true)
    (hd : ∀ x ∈ d.heads, Analyses x) (h : ofChain read d = .ok units) :
    ∃ rest, units = read.reverse ++ rest ∧ d.CompilesAll rest := by
  induction d generalizing read with
  | pair mark head tail _ ih =>
    simp only [Datum.heads_pair, List.forall_mem_cons] at hd
    rw [ofChain] at h
    cases hunit : ofDatum head with
    | error e =>
      rw [hunit] at h
      cases h
    | ok unit =>
      rw [hunit] at h
      obtain ⟨rest, rfl, hrest⟩ := ih hlist hd.2 h
      exact ⟨unit :: rest, by simp, .cons (hd.1 hunit) hrest⟩
  | nil =>
    rw [ofChain] at h
    · cases h
      exact ⟨[], by simp, .nil⟩
    · simp
  | _ => cases hlist

/-- The units of a body that begins with `first`. -/
theorem compilesAll_of_body {α : Type} {mark : Option Nat} {first rest : Datum}
    (hlist : rest.isList = true) (hfirst : Analyses first) (hrest : ∀ x ∈ rest.heads, Analyses x)
    {f : List Code → α} {x : α}
    (h : (do
      let first ← ofDatum first
      let units ← ofChain [first] rest
      return f units) = .ok x) :
    ∃ units, x = f units ∧ Datum.CompilesAll (.pair mark first rest) units := by
  cases hunit : ofDatum first with
  | error e =>
    rw [hunit] at h
    cases h
  | ok unit =>
    rw [hunit] at h
    cases hunits : ofChain [unit] rest with
    | error e => simp [hunits, bind, Except.bind] at h
    | ok units =>
      obtain ⟨units, rfl, hall⟩ := compilesAll_of_ofChain hlist hrest hunits
      refine ⟨unit :: units, ?_, .cons (hfirst hunit) hall⟩
      simpa [hunits, bind, Except.bind, pure, Except.pure, eq_comm] using h

/-- One operand that is evaluated. -/
theorem exists_of_single {α : Type} {d : Datum} (hd : Analyses d) {f : Code → α} {x : α}
    (h : (do
      let unit ← ofDatum d
      return f unit) = .ok x) : ∃ c, x = f c ∧ d.Compiles c := by
  cases hunit : ofDatum d with
  | error e =>
    rw [hunit] at h
    cases h
  | ok c =>
    rw [hunit] at h
    cases h
    exact ⟨c, rfl, hd hunit⟩

end Chains

section Forms

variable {mark : Option Nat} {head tail : Datum}

theorem analyses_quote (hform : SpecialForm.ofHead? head = some .quote) :
    Analyses (.pair mark head tail) := by
  intro c h
  rw [ofDatum.eq_def] at h
  dsimp only at h
  rw [hform] at h
  dsimp only at h
  split at h
  · cases h
    exact .quote hform
  · cases h

theorem analyses_assignment (hform : SpecialForm.ofHead? head = some .assignment)
    (htail : ∀ x ∈ tail.heads, Analyses x) : Analyses (.pair mark head tail) := by
  intro c h
  rw [ofDatum.eq_def] at h
  dsimp only at h
  rw [hform] at h
  dsimp only at h
  split at h
  next m name m' value =>
    obtain ⟨c, rfl, hc⟩ := exists_of_single (htail value (by simp)) h
    exact .assignment hform hc
  all_goals cases h

theorem analyses_definition (hform : SpecialForm.ofHead? head = some .definition)
    (htail : ∀ x ∈ tail.heads, Analyses x) : Analyses (.pair mark head tail) := by
  intro c h
  rw [ofDatum.eq_def] at h
  dsimp only at h
  rw [hform] at h
  dsimp only at h
  split at h
  next m name m' value =>
    obtain ⟨c, rfl, hc⟩ := exists_of_single (htail value (by simp)) h
    exact .definition hform hc
  · cases h
  next m m' target signature body =>
    split at h
    next name m'' first rest =>
      simp only [Datum.heads_pair, List.forall_mem_cons] at htail
      obtain ⟨-, hfirst, hrest⟩ := htail
      split at h
      next hlist =>
        cases hparameters : Parameters.ofDatum signature with
        | error e =>
          rw [hparameters] at h
          cases h
        | ok parameters =>
          rw [hparameters] at h
          obtain ⟨units, rfl, hunits⟩ := compilesAll_of_body hlist hfirst hrest h
          exact .procedure hform hparameters hunits
      · cases h
    all_goals cases h
  all_goals cases h

theorem analyses_conditional (hform : SpecialForm.ofHead? head = some .conditional)
    (htail : ∀ x ∈ tail.heads, Analyses x) : Analyses (.pair mark head tail) := by
  intro c h
  rw [ofDatum.eq_def] at h
  dsimp only at h
  rw [hform] at h
  dsimp only at h
  split at h
  next m test m' consequent =>
    cases htest : ofDatum test with
    | error e =>
      rw [htest] at h
      cases h
    | ok t =>
      rw [htest] at h
      obtain ⟨c, rfl, hc⟩ := exists_of_single (htail consequent (by simp)) h
      exact .conditional hform (htail test (by simp) htest) hc
  next m test m' consequent m'' alternative =>
    cases htest : ofDatum test with
    | error e =>
      rw [htest] at h
      cases h
    | ok t =>
      rw [htest] at h
      cases hconsequent : ofDatum consequent with
      | error e =>
        rw [hconsequent] at h
        cases h
      | ok c =>
        rw [hconsequent] at h
        obtain ⟨a, rfl, ha⟩ := exists_of_single (htail alternative (by simp)) h
        exact .alternative hform (htail test (by simp) htest)
          (htail consequent (by simp) hconsequent) ha
  · cases h

theorem analyses_lambda (hform : SpecialForm.ofHead? head = some .lambda)
    (htail : ∀ x ∈ tail.heads, Analyses x) : Analyses (.pair mark head tail) := by
  intro c h
  rw [ofDatum.eq_def] at h
  dsimp only at h
  rw [hform] at h
  dsimp only at h
  split at h
  next m signature m' first rest =>
    simp only [Datum.heads_pair, List.forall_mem_cons] at htail
    obtain ⟨-, hfirst, hrest⟩ := htail
    split at h
    next hlist =>
      cases hparameters : Parameters.ofDatum signature with
      | error e =>
        rw [hparameters] at h
        cases h
      | ok parameters =>
        rw [hparameters] at h
        obtain ⟨units, rfl, hunits⟩ := compilesAll_of_body hlist hfirst hrest h
        exact .lambda hform hparameters hunits
    · cases h
  · cases h

theorem analyses_sequence (hform : SpecialForm.ofHead? head = some .sequence)
    (htail : ∀ x ∈ tail.heads, Analyses x) : Analyses (.pair mark head tail) := by
  intro c h
  rw [ofDatum.eq_def] at h
  dsimp only at h
  rw [hform] at h
  dsimp only at h
  split at h
  next m first rest =>
    simp only [Datum.heads_pair, List.forall_mem_cons] at htail
    split at h
    next hlist =>
      obtain ⟨units, rfl, hunits⟩ := compilesAll_of_body hlist htail.1 htail.2 h
      exact .sequence hform hunits
    · cases h
  · cases h

theorem analyses_application (hform : SpecialForm.ofHead? head = none) (hhead : Analyses head)
    (htail : ∀ x ∈ tail.heads, Analyses x) : Analyses (.pair mark head tail) := by
  intro c h
  rw [ofDatum_application hform] at h
  cases hoperator : ofDatum head with
  | error e =>
    rw [hoperator] at h
    cases h
  | ok operator =>
    cases hlist : tail.isList with
    | false =>
      rw [hoperator, hlist] at h
      cases h
    | true =>
      cases hoperands : ofChain [] tail with
      | error e =>
        rw [hoperator, hlist, hoperands] at h
        cases h
      | ok operands =>
        rw [hoperator, hlist, hoperands] at h
        cases h
        obtain ⟨units, rfl, hunits⟩ := compilesAll_of_ofChain hlist htail hoperands
        exact .application hform (hhead hoperator) hunits

end Forms

/-- What analysis accepts it makes the code of. -/
theorem compiles_of_ofDatum {d : Datum} {c : Code} (h : ofDatum d = .ok c) : d.Compiles c := by
  suffices hd : Analyses d ∧ ∀ x ∈ d.heads, Analyses x from hd.1 h
  clear h
  induction d with
  | pair mark head tail ihh iht =>
    obtain ⟨hhead, -⟩ := ihh
    obtain ⟨-, htail⟩ := iht
    refine ⟨?_, by simpa using ⟨hhead, htail⟩⟩
    cases hform : SpecialForm.ofHead? head with
    | none => exact analyses_application hform hhead htail
    | some form =>
      cases form with
      | quote => exact analyses_quote hform
      | assignment => exact analyses_assignment hform htail
      | definition => exact analyses_definition hform htail
      | conditional => exact analyses_conditional hform htail
      | lambda => exact analyses_lambda hform htail
      | sequence => exact analyses_sequence hform htail
  | symbol name =>
    refine ⟨fun h => ?_, by simp [Datum.heads, Datum.headsFrom]⟩
    cases h
    exact .variable name
  | quoted d =>
    refine ⟨fun h => ?_, by simp [Datum.heads, Datum.headsFrom]⟩
    cases h
    exact .quoted d
  | nil =>
    refine ⟨fun h => ?_, by simp [Datum.heads, Datum.headsFrom]⟩
    cases h
  | _ =>
    refine ⟨fun h => ?_, by simp [Datum.heads, Datum.headsFrom]⟩
    cases h
    exact .constant rfl

section Converse

/-- What follows a form is a list, of which the units are made one after the other. -/
def Chained (d : Datum) (units : List Code) : Prop :=
  d.isList = true ∧ ∀ read, ofChain read d = .ok (read.reverse ++ units)

/-- The forms of a body are analysed one by one, the first of them apart. -/
theorem Chained.body {α : Type} {mark : Option Nat} {first rest : Datum} {units : List Code}
    (h : Chained (.pair mark first rest) units) (f : List Code → α) :
    rest.isList = true ∧
      (do
        let first ← ofDatum first
        let units ← ofChain [first] rest
        return f units) = .ok (f units) := by
  obtain ⟨hlist, hunits⟩ := h
  have hchain := hunits []
  refine ⟨hlist, ?_⟩
  rw [ofChain] at hchain
  cases hunit : ofDatum first with
  | error e =>
    rw [hunit] at hchain
    cases hchain
  | ok unit =>
    rw [hunit] at hchain
    dsimp only [bind, Except.bind] at hchain ⊢
    rw [hchain]
    rfl

mutual

theorem ofDatum_of_compiles : ∀ {d : Datum} {c : Code}, d.Compiles c → ofDatum d = .ok c
  | d, _, .constant hd => by cases d <;> first | rfl | cases hd
  | _, _, .variable name => rfl
  | _, _, .quoted d => rfl
  | _, _, .quote hform => by
    rw [ofDatum.eq_def]
    dsimp only
    rw [hform]
  | _, _, .assignment hform hvalue => by
    rw [ofDatum.eq_def]
    dsimp only
    rw [hform]
    dsimp only
    rw [ofDatum_of_compiles hvalue]
    rfl
  | _, _, .definition hform hvalue => by
    rw [ofDatum.eq_def]
    dsimp only
    rw [hform]
    dsimp only
    rw [ofDatum_of_compiles hvalue]
    rfl
  | _, _, .procedure hform hparameters hunits => by
    obtain ⟨hlist, hbody⟩ := (chained_of_compilesAll hunits).body _
    rw [ofDatum.eq_def]
    dsimp only
    rw [hform]
    dsimp only
    rw [hlist, if_pos rfl, hparameters]
    exact hbody
  | _, _, .conditional hform htest hconsequent => by
    rw [ofDatum.eq_def]
    dsimp only
    rw [hform]
    dsimp only
    rw [ofDatum_of_compiles htest, ofDatum_of_compiles hconsequent]
    rfl
  | _, _, .alternative hform htest hconsequent halternative => by
    rw [ofDatum.eq_def]
    dsimp only
    rw [hform]
    dsimp only
    rw [ofDatum_of_compiles htest, ofDatum_of_compiles hconsequent,
      ofDatum_of_compiles halternative]
    rfl
  | _, _, .lambda hform hparameters hunits => by
    obtain ⟨hlist, hbody⟩ := (chained_of_compilesAll hunits).body _
    rw [ofDatum.eq_def]
    dsimp only
    rw [hform]
    dsimp only
    rw [hlist, if_pos rfl, hparameters]
    exact hbody
  | _, _, .sequence hform hunits => by
    obtain ⟨hlist, hbody⟩ := (chained_of_compilesAll hunits).body _
    rw [ofDatum.eq_def]
    dsimp only
    rw [hform]
    dsimp only
    rw [hlist, if_pos rfl]
    exact hbody
  | _, _, .application hform hoperator hoperands => by
    obtain ⟨hlist, hchain⟩ := chained_of_compilesAll hoperands
    rw [ofDatum_application hform, ofDatum_of_compiles hoperator, hlist, hchain []]
    rfl

theorem chained_of_compilesAll : ∀ {d : Datum} {units : List Code}, d.CompilesAll units →
    Chained d units
  | _, _, .nil => by
    refine ⟨rfl, fun read => ?_⟩
    rw [ofChain, List.append_nil]
    simp
  | _, _, @Datum.CompilesAll.cons _ _ _ unit _ hhead htail => by
    obtain ⟨hlist, hchain⟩ := chained_of_compilesAll htail
    refine ⟨hlist, fun read => ?_⟩
    rw [ofChain, ofDatum_of_compiles hhead]
    have hrest := hchain (unit :: read)
    rw [List.reverse_cons, List.append_assoc] at hrest
    exact hrest

end

end Converse

/-- The code that analysis makes of a datum is the code of that datum. -/
theorem ofDatum_eq_ok_iff {d : Datum} {c : Code} : ofDatum d = .ok c ↔ d.Compiles c :=
  ⟨compiles_of_ofDatum, ofDatum_of_compiles⟩

end Code

end FrameLisp
