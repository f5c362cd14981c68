import FrameLisp.Console.Command
import FrameLisp.Console.Inspection
import FrameLisp.Console.Repl
import FrameLisp.Text.Lines

/-!
# What commands write

What each command writes as a whole, given its input and the files it can see.
-/
namespace FrameLisp.Console

open Report

/-- A word in a narrow column and a text behind it. -/
def progress (word : String) (colour : Colour) (text : String) : Output :=
  .report [.style ⟨true, true, some colour⟩, .text ("".pushn ' ' (11 - word.length) ++ word),
    .reset, .text (" " ++ text ++ "\n")]

/-- What is written before a file is run. -/
def announcement (path : String) : Output := progress "Running" .magenta path

/-- What is written when a file was run, and the code to end with; `elapsed` is how long it took. -/
def conclusion (print : Bool) (elapsed : String) (results : Results) : Transcript :=
  let printed := if print then results.values.reverse.map fun d => .line d.text else []
  match results.stopped with
  | some stop => ⟨printed ++ [reportInterruption stop], 1⟩
  | none => ⟨printed ++ [progress "Finished" .green ("in " ++ elapsed)], 0⟩

/-- Runs a file in a new session. -/
def resultsOf (depth : Nat) (files : Files) (path : String) (threshold : Nat) : Results :=
  ((Session.new threshold files).runFile depth path).1

/-- A time in seconds, with two digits after the point. -/
def seconds (milliseconds : Nat) : String :=
  let n := Numeric.roundHalfEven milliseconds 10
  let fraction := toString (n % 100)
  toString (n / 100) ++ "." ++ "".pushn '0' (2 - fraction.length) ++ fraction ++ "s"

/-- What a command writes for an input. -/
def Command.transcript (depth : Nat) (files : Files) (input : List UInt8) (elapsed : String) :
    Command → Transcript
  | .repl threshold =>
    (Repl.dialogue depth).run (Repl.start threshold files) (Text.lines input)
  | .run path print threshold =>
    let t := conclusion print elapsed (resultsOf depth files path threshold)
    ⟨announcement path :: t.outputs, t.code⟩
  | .lex => (inspection tokenLines).run () (Text.lines input)
  | .read => (inspection formLines).run () (Text.lines input)

end FrameLisp.Console
