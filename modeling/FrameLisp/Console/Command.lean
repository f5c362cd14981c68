import FrameLisp.Numeric.Literal
import FrameLisp.Session.State

/-!
# The command line
-/
namespace FrameLisp.Console

inductive Command where
  /-- Reads, evaluates and prints, line by line. -/
  | repl (threshold : Nat)
  | run (path : String) (print : Bool) (threshold : Nat)
  /-- Prints the tokens of each line. -/
  | lex
  /-- Prints the forms of each line. -/
  | read
  deriving DecidableEq

/-- The options of a command as far as they were read. -/
structure Options where
  path : Option String
  print : Bool
  threshold : Option Nat

/-- A number of frames below `2 ^ 64`, written in digits with perhaps a plus sign. -/
def threshold? (text : String) : Option Nat :=
  let digits := match text.toList with
    | '+' :: cs => cs
    | cs => cs
  let n := Numeric.digitsValue digits
  if digits.isEmpty ∨ ¬digits.all Numeric.isDigit ∨ 0x10000000000000000 ≤ n then none else some n

/-- The text behind a given beginning. -/
def after? (start : List Char) : List Char → Option (List Char)
  | cs => if start.isPrefixOf cs then some (cs.drop start.length) else none

/-- Reads options in any order, each at most once; `literal` is set behind a `--`. -/
def Options.read (literal : Bool) (o : Options) : List String → Option Options
  | [] => some o
  | argument :: arguments =>
    if literal ∨ ¬"-".toList.isPrefixOf argument.toList ∨ argument = "-" then
      if o.path.isSome then none else Options.read literal { o with path := argument } arguments
    else if argument = "--" then Options.read true o arguments
    else if argument = "-p" ∨ argument = "--print" then
      if o.print then none else Options.read literal { o with print := true } arguments
    else if argument = "--gc-threshold" then
      match arguments with
      | [] => none
      | value :: arguments =>
        match o.threshold, threshold? value with
        | none, some n => Options.read literal { o with threshold := n } arguments
        | _, _ => none
    else
      match o.threshold,
          (after? "--gc-threshold=".toList argument.toList).bind fun v =>
            threshold? (String.ofList v) with
      | none, some n => Options.read literal { o with threshold := n } arguments
      | _, _ => none

/-- The command that arguments ask for. -/
def Command.ofArguments? : List String → Option Command
  | ["lex"] | ["lex", "--"] => some .lex
  | ["read"] | ["read", "--"] => some .read
  | "repl" :: arguments =>
    match Options.read false ⟨none, false, none⟩ arguments with
    | some ⟨none, false, threshold⟩ => some (.repl (threshold.getD Session.defaultThreshold))
    | _ => none
  | "run" :: arguments =>
    match Options.read false ⟨none, false, none⟩ arguments with
    | some ⟨some path, print, threshold⟩ =>
      some (.run path print (threshold.getD Session.defaultThreshold))
    | _ => none
  | _ => none

end FrameLisp.Console
