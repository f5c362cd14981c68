import FrameLisp.Code.Analysis

/-!
# The core language

Which data are programs, and which shape their code has, said without analysing them. A pair whose
head is the word of a special form is only ever that form.
-/
namespace FrameLisp

/-- Proper, dotted and bare lists of distinct symbols. -/
inductive Datum.IsParameters (d : Datum) : Prop
  | required (names : List String) : names.Nodup → d.heads = names.map .symbol →
      d.chainEnd = .nil → Datum.IsParameters d
  | rest (names : List String) (rest : String) : (names ++ [rest]).Nodup →
      d.heads = names.map .symbol → d.chainEnd = .symbol rest → Datum.IsParameters d

inductive Datum.WellFormed : Datum → Prop
  | number (n : Numeric.Number) : Datum.WellFormed (.number n)
  | string (s : String) : Datum.WellFormed (.string s)
  | boolean (b : Bool) : Datum.WellFormed (.boolean b)
  | closure (mark : Nat) (l : Lambda) (frame : Store.Handle) :
      Datum.WellFormed (.closure mark l frame)
  | primitive (p : Primitive) : Datum.WellFormed (.primitive p)
  | symbol (name : String) : Datum.WellFormed (.symbol name)
  | quoted (d : Datum) : Datum.WellFormed (.quoted d)
  | quote {mark head tail d} : SpecialForm.ofHead? head = some .quote →
      tail.toList? = some [d] → Datum.WellFormed (.pair mark head tail)
  | assignment {mark head tail name value} : SpecialForm.ofHead? head = some .assignment →
      tail.toList? = some [.symbol name, value] → value.WellFormed →
      Datum.WellFormed (.pair mark head tail)
  | definition {mark head tail name value} : SpecialForm.ofHead? head = some .definition →
      tail.toList? = some [.symbol name, value] → value.WellFormed →
      Datum.WellFormed (.pair mark head tail)
  | procedureDefinition {mark head tail m name parameters body} :
      SpecialForm.ofHead? head = some .definition →
      tail.toList? = some (.pair m (.symbol name) parameters :: body) →
      parameters.IsParameters → body ≠ [] → (∀ d ∈ body, d.WellFormed) →
      Datum.WellFormed (.pair mark head tail)
  | conditional {mark head tail test consequent rest} :
      SpecialForm.ofHead? head = some .conditional →
      tail.toList? = some (test :: consequent :: rest) → rest.length ≤ 1 →
      test.WellFormed → consequent.WellFormed → (∀ d ∈ rest, d.WellFormed) →
      Datum.WellFormed (.pair mark head tail)
  | lambda {mark head tail parameters body} : SpecialForm.ofHead? head = some .lambda →
      tail.toList? = some (parameters :: body) → parameters.IsParameters → body ≠ [] →
      (∀ d ∈ body, d.WellFormed) → Datum.WellFormed (.pair mark head tail)
  | sequence {mark head tail body} : SpecialForm.ofHead? head = some .sequence →
      tail.toList? = some body → body ≠ [] → (∀ d ∈ body, d.WellFormed) →
      Datum.WellFormed (.pair mark head tail)
  | application {mark head tail operands} : SpecialForm.ofHead? head = none →
      tail.toList? = some operands → head.WellFormed → (∀ d ∈ operands, d.WellFormed) →
      Datum.WellFormed (.pair mark head tail)

/-- Code whose sequences have at least two units and whose procedures have distinct parameters. -/
inductive Code.WellShaped : Code → Prop
  | constant (d : Datum) : Code.WellShaped (.constant d)
  | variable (name : String) : Code.WellShaped (.variable name)
  | assignment {name value} : value.WellShaped → Code.WellShaped (.assignment name value)
  | definition {name value} : value.WellShaped → Code.WellShaped (.definition name value)
  | conditional {t c a} : t.WellShaped → c.WellShaped → a.WellShaped →
      Code.WellShaped (.conditional t c a)
  | lambda {name parameters body} : parameters.names.Nodup → body.WellShaped →
      Code.WellShaped (.lambda (.mk name parameters body))
  | sequence {units} : 2 ≤ units.length → (∀ unit ∈ units, unit.WellShaped) →
      Code.WellShaped (.sequence units)
  | application {operator operands} : operator.WellShaped →
      (∀ unit ∈ operands, unit.WellShaped) → Code.WellShaped (.application operator operands)

end FrameLisp
