import FrameLisp.Report.Ink
import FrameLisp.Text.Decoding

/-!
# Dialogues

A dialogue prompts for a line, answers it and goes on, until it ends by itself or the input does.
What it writes goes to the standard output or, with styles, to the standard error.
-/
namespace FrameLisp.Console

open Report

inductive Output where
  /-- Text around the answers. -/
  | prompt (s : String)
  | line (s : String)
  | report (inks : List Ink)

namespace Output

/-- All that goes to the standard output. -/
def stdout (outputs : List Output) : String :=
  outputs.foldl (fun text o => match o with
    | .prompt s => text ++ s
    | .line s => text ++ s ++ "\n"
    | .report _ => text) ""

/-- All that goes to the standard error. -/
def stderr (colour : Bool) (outputs : List Output) : String :=
  outputs.foldl (fun text o => match o with
    | .report inks => text ++ Ink.renderAll colour inks
    | _ => text) ""

/-- The lines among the outputs. -/
def lines (outputs : List Output) : List String :=
  outputs.filterMap fun o => match o with
    | .line s => some s
    | _ => none

end Output

/-- What a program wrote and the code it ended with. -/
structure Transcript where
  outputs : List Output
  code : Nat

/-- A dialogue with states of type `State`. -/
structure Dialogue (State : Type) where
  prompt : State → String
  /-- Answers a line, which comes without its end; there is no next state once it is over. -/
  answer : State → List Char → List Output × Option State
  /-- What is written when the input ends. -/
  farewell : List Output

/-- Takes a last character off. -/
def chop (c : Char) (cs : List Char) : List Char :=
  if cs.getLast? = some c then cs.dropLast else cs

/-- A line without the newline and the carriage return at its end. -/
def bare (cs : List Char) : List Char := chop '\r' (chop '\n' cs)

def invalidInput : Output := .report [.text "stream did not contain valid UTF-8\n"]

/-- What a dialogue writes in answer to a line, and its next state or the code it ends with. -/
def Dialogue.turn {State : Type} (d : Dialogue State) (s : State) (line : List UInt8) :
    List Output × Except Nat State :=
  match Text.decode? line with
  | none => ([invalidInput], .error 1)
  | some cs =>
    match d.answer s (bare cs) with
    | (outputs, some s) => (outputs, .ok s)
    | (outputs, none) => (outputs, .error 0)

/-- Lets a dialogue answer the lines of an input. -/
def Dialogue.run {State : Type} (d : Dialogue State) (s : State) :
    List (List UInt8) → Transcript
  | [] => ⟨.prompt (d.prompt s) :: d.farewell, 0⟩
  | line :: lines =>
    match d.turn s line with
    | (outputs, .error code) => ⟨.prompt (d.prompt s) :: outputs, code⟩
    | (outputs, .ok s') =>
      let rest := d.run s' lines
      ⟨.prompt (d.prompt s) :: outputs ++ rest.outputs, rest.code⟩

end FrameLisp.Console
