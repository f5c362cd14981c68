import FrameLisp.Console.Output
import FrameLisp.Report.Diagnostic
import FrameLisp.Session.Text

/-!
# Evaluating line by line

Lines are gathered until they can be read as whole forms. The value of each form is printed; a
failure is reported and the forms behind it on the same lines are given up.
-/
namespace FrameLisp.Console

open Source Report

/-- The report of a failure. -/
def report (f : Failure) : Output := .report (ofFailure f)

def reportInterruption : Interruption → Output
  | .failed f => report f
  | .exhausted => .report [.text "error: calls are nested too deeply\n"]

structure Repl where
  session : Session
  /-- Lines of a form that is not complete. -/
  pending : List Char

namespace Repl

def start (threshold : Nat) (files : Files) : Repl := ⟨.new threshold files, []⟩

def prompt (r : Repl) : String := if r.pending.isEmpty then "]=> " else "... "

/-- Evaluates forms and prints their values up to the first failure. Frames are collected behind
the last form and not between them. -/
def evaluate (depth : Nat) (s : Session) (data : List Datum) : List Output × Session :=
  let (results, s) := s.evalForms depth (fun _ s => s) [] data
  (results.values.reverse.map (fun d => .line d.text) ++
    (results.stopped.map reportInterruption).toList, s)

def answer (depth : Nat) (r : Repl) (cs : List Char) : List Output × Option Repl :=
  let trimmed := Text.trim cs
  if r.pending.isEmpty ∧ trimmed = [] then ([], some r)
  else if r.pending.isEmpty ∧ trimmed = ".exit".toList then ([], none)
  else
    let text := r.pending ++ cs ++ ['\n']
    match Program.ofChars text with
    | .error e =>
      if e.isIncomplete then ([], some { r with pending := text })
      else
        ([report (.unreadable "<repl>" (String.ofList text) e)], some { r with pending := [] })
    | .ok program =>
      let (outputs, s) := evaluate depth r.session program.data
      (outputs, some ⟨s.keeping [], []⟩)

def dialogue (depth : Nat) : Dialogue Repl where
  prompt := prompt
  answer := answer depth
  farewell := [.prompt "\n"]

end Repl

end FrameLisp.Console
