import FrameLisp.Proofs.Eval.Congruence
import FrameLisp.Proofs.Source.Faults
import FrameLisp.Report.Diagnostic
import FrameLisp.Session.Text

/-!
# Diagnostics point into their source

A diagnostic of an error of syntax has a label in the text that goes with the error: the whole text
that was to be evaluated, the lines of a file that were gathered, or what was read of a file up to
the error. What is labelled begins and ends between characters of this text.
-/
namespace FrameLisp

open Source Text Report

/-- The label is on characters of its source. -/
structure Report.Location.InSource (l : Location) : Prop where
  ordered : l.span.start ≤ l.span.stop
  bounded : l.span.stop ≤ l.source.utf8ByteSize
  start : IsBoundary l.source l.span.start
  stop : IsBoundary l.source l.span.stop

/-- If the failure is one of syntax, its diagnostic has a label in the text that goes with it. -/
def Failure.PointsIntoSource (f : Failure) : Prop :=
  f.kind = .syntaxError → ∃ path source e l, f = .unreadable path source e ∧
    (Diagnostic.ofFailure f).location = some l ∧ l.path = path ∧ l.source = source ∧ l.InSource

section Labels

variable {path source : String} {label : Option String} {e : SyntaxError}

/-- A label on a stretch of the characters of a text. -/
theorem Report.Location.InSource.of_stretch {span : Span} {front text back : List Char}
    (hsource : source.toList = front ++ text ++ back)
    (hspan : span = ⟨width front, width front + width text⟩) :
    (Location.mk source path label span).InSource := by
  have hstart : IsBoundary source (width front) :=
    isBoundary_of_toList (hsource.trans (List.append_assoc _ _ _))
  have hstop : IsBoundary source (width front + width text) := by
    rw [← width_append]
    exact isBoundary_of_toList hsource
  subst hspan
  refine ⟨Nat.le_add_right _ _, ?_, hstart, hstop⟩
  rw [utf8ByteSize_eq_width, hsource, width_append, width_append]
  exact Nat.le_add_right _ _

/-- An unexpected end is shown at the end of the source, all else where the error stands. -/
theorem Source.SyntaxError.StandsIn.inSource (h : e.StandsIn source.toList) :
    (Location.mk source path label (shownSpan source e)).InSource := by
  rw [shownSpan]
  split
  · have hsource : source.toList = source.toList ++ [] ++ [] := by simp
    exact .of_stretch hsource (by rw [utf8ByteSize_eq_width]; rfl)
  · obtain ⟨front, text, back, hsource, hspan⟩ := h
    exact .of_stretch hsource hspan

theorem Source.SyntaxError.StandsIn.pointsIntoSource (h : e.StandsIn source.toList) :
    (Failure.unreadable path source e).PointsIntoSource :=
  fun _ => ⟨path, source, e, _, rfl, rfl, rfl, rfl, h.inSource⟩

theorem EvalError.Sourced.pointsIntoSource {e : EvalError} (he : e.Sourced) :
    (Failure.ofEval e).PointsIntoSource := by
  cases e with
  | unreadable path source e => exact (Program.standsIn_of_error he).pointsIntoSource
  | _ => rintro ⟨⟩

end Labels

namespace Session

variable {depth : Nat} {s : Session} {f : Failure}

theorem pointsIntoSource_of_evalForms {settle : List Datum → Session → Session}
    {values data : List Datum}
    (h : (s.evalForms depth settle values data).1.stopped = some (.failed f)) :
    f.PointsIntoSource := by
  induction data generalizing s values with
  | nil => cases h
  | cons d data ih =>
    have hsourced := Datum.sourced_evalIn depth s.root d s
    rw [evalForms] at h
    change ∀ e, (s.evalIn depth s.root d).1 = _ → _ at hsourced
    generalize s.evalIn depth s.root d = x at h hsourced
    obtain ⟨halt | value, t⟩ := x
    · cases halt with
      | exhausted => cases h
      | failed e =>
        cases h
        exact (hsourced e rfl).pointsIntoSource
    · exact ih h

/-- Whatever a session reads, its errors of syntax point into the texts that they come with. -/
structure PointsIntoSources (depth : Nat) (s : Session) : Prop where
  readEval : ∀ source f, (s.readEval depth source).1 = .error (.failed f) → f.PointsIntoSource
  runFile : ∀ path f, (s.runFile depth path).1.stopped = some (.failed f) → f.PointsIntoSource
  load : ∀ env path e, (s.load depth env path).1 = .error (.failed e) →
    (Failure.ofEval e).PointsIntoSource

theorem pointsIntoSource_of_readEval {source : String}
    (h : (s.readEval depth source).1 = .error (.failed f)) : f.PointsIntoSource := by
  rw [readEval] at h
  split at h
  · next he =>
    cases h
    exact (Program.standsIn_of_error he).pointsIntoSource
  · next p hp =>
    have hforms : (s.evalForms depth keeping [] p.data).1.stopped = some (.failed f) →
        f.PointsIntoSource := pointsIntoSource_of_evalForms
    generalize s.evalForms depth keeping [] p.data = x at h hforms
    obtain ⟨⟨values, _ | stop⟩, t⟩ := x
    · cases h
    · cases h
      exact hforms rfl

theorem pointsIntoSource_of_runFile {path : String}
    (h : (s.runFile depth path).1.stopped = some (.failed f)) : f.PointsIntoSource := by
  rw [runFile] at h
  split at h
  · cases h
    rintro ⟨⟩
  · split at h
    · cases h
      rintro ⟨⟩
    · next he =>
      cases h
      exact (Program.standsIn_of_ofStream he).pointsIntoSource
    · exact pointsIntoSource_of_evalForms h

/-- The renderer of diagnostics is never given a label that is not in its source. -/
theorem pointsIntoSources (depth : Nat) (s : Session) : PointsIntoSources depth s where
  readEval _ _ := pointsIntoSource_of_readEval
  runFile _ _ := pointsIntoSource_of_runFile
  load env path e h := (sourced_loadFile depth env path s e h).pointsIntoSource

/-- Behind a character of two bytes. -/
example (s : Session) : s.readEval 1 "é)" =
    (.error (.failed (.unreadable "<input>" "é)" ⟨.unmatchedParen, ⟨2, 3⟩⟩)), s) := by cbv

end Session

end FrameLisp
