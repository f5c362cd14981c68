/-!
# Arities

How many arguments a procedure accepts.
-/
namespace FrameLisp

inductive Arity where
  | exactly (count : Nat)
  | atLeast (count : Nat)
  deriving DecidableEq

namespace Arity

def accepts : Arity → Nat → Bool
  | .exactly n, got => got = n
  | .atLeast n, got => n ≤ got

def text : Arity → String
  | .exactly n => toString n
  | .atLeast n => "at least " ++ toString n

end Arity

/-- A number of arguments that an arity does not accept. -/
inductive ArityError where
  | tooMany (expected : Arity) (got : Nat)
  | tooFew (expected : Arity) (got : Nat)
  deriving DecidableEq

/-- Only an exact arity can be exceeded; every other mismatch is a lack of arguments. -/
def Arity.mismatch? (expected : Arity) (got : Nat) : Option ArityError :=
  if expected.accepts got then none
  else match expected with
    | .exactly n => some (if n < got then .tooMany expected got else .tooFew expected got)
    | .atLeast _ => some (.tooFew expected got)

def ArityError.message : ArityError → String
  | .tooMany expected got => s!"Too many arguments: expected {expected.text}, got {got}"
  | .tooFew expected got => s!"Too few arguments: expected {expected.text}, got {got}"

theorem Arity.mismatch?_eq_none_iff {expected : Arity} {got : Nat} :
    expected.mismatch? got = none ↔ expected.accepts got = true := by
  simp only [Arity.mismatch?]
  split
  · simp [*]
  · split <;> simp [*]

/-- The parameters of a procedure: required names and perhaps a name for the list of surplus
arguments. -/
structure Parameters where
  required : List String
  rest : Option String
  deriving DecidableEq

namespace Parameters

def arity (p : Parameters) : Arity :=
  if p.rest.isSome then .atLeast p.required.length else .exactly p.required.length

/-- All names, in the order in which they are written. -/
def names (p : Parameters) : List String := p.required ++ p.rest.toList

/-- The parameter list as it is written. -/
def text (p : Parameters) : String :=
  match p.required, p.rest with
  | [], some rest => rest
  | names, none => "(" ++ " ".intercalate names ++ ")"
  | names, some rest => "(" ++ " ".intercalate names ++ " . " ++ rest ++ ")"

end Parameters

end FrameLisp
