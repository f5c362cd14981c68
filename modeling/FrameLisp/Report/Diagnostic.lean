import FrameLisp.Eval.Failure
import FrameLisp.Report.Snippet

/-!
# Diagnostics

A failure is shown as a title, a snippet of the source where one is known, and an explanation. An
unexpected end is shown at the end of the source.
-/
namespace FrameLisp.Report

open Source

structure Diagnostic where
  title : String
  text : String
  location : Option Location

namespace Diagnostic

/-- The title of a diagnostic that belongs to no place. -/
def titleLine (title : String) : List Ink :=
  [.style ⟨true, false, some .red⟩, .text "error", .style ⟨true, false, none⟩,
    .text (": " ++ title ++ "\n"), .reset]

def write (d : Diagnostic) : List Ink :=
  (match d.location with
    | some location => Snippet.write d.title location
    | none => titleLine d.title) ++
  if d.text.isEmpty then [] else [.text (d.text ++ "\n")]

end Diagnostic

/-- The title that stands for a kind of failure of an evaluation. -/
def kindTitle : ErrorKind → String
  | .unboundVariable => "Unbound variable"
  | .type => "Wrong type"
  | .arity => "Wrong number of arguments"
  | .divisionByZero => "Division by zero"
  | .io => "Could not load file"
  | .reclaimedEnvironment => "Reclaimed environment"
  | .syntaxError => "Syntax error"
  | .unknownForm => "Unknown expression type"

/-- Where an error of syntax is shown in its source. -/
def shownSpan (source : String) (e : SyntaxError) : Span :=
  match e.fault with
  | .unexpectedEnd => .point source.utf8ByteSize
  | _ => e.span

def Diagnostic.ofFailure : Failure → Diagnostic
  | .unreadable path source error =>
    let details := error.details
    { title := "Syntax error"
      text := "\n".intercalate details.notes
      location := some ⟨source, path, some details.message, shownSpan source error⟩ }
  | .form error => ⟨error.title, error.message, none⟩
  | .eval error => ⟨kindTitle error.kind, error.message, none⟩
  | .file fault => ⟨"Standard IO error", fault.message, none⟩

/-- The whole report of a failure. -/
def ofFailure (f : Failure) : List Ink := (Diagnostic.ofFailure f).write ++ [.text "\n"]

end FrameLisp.Report
