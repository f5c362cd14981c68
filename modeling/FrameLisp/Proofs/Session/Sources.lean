import FrameLisp.Proofs.Session.Running
import FrameLisp.Proofs.Source.Cuts

/-!
# The source that goes with an error

A file that cannot be read is refused as a whole, with the error of its text and with what was asked
for of this text by then. Reading stops at the error and has asked for two characters more, so the
source that goes with the error is a beginning of the text, and seldom all of it. It is enough to
meet the same error again.
-/
namespace FrameLisp.Session

open Source

variable {s : Session} {path text : String} {bytes : List UInt8} {e : SyntaxError}

/-- How a file that cannot be read is refused, and the source that goes with its error. -/
structure RefusedWith (s : Session) (path text : String) (e : SyntaxError) (source : String) :
    Prop where
  /-- Nothing is evaluated, and the error is that of the text. -/
  refused : ∀ depth,
    s.runFile depth path = (⟨[], some (.failed (.unreadable path source e))⟩, s)
  /-- Behind the span of the error the source has two characters more, so it is the whole text if
  there are no others, and only then. -/
  cut : ∃ passed back, text.toList = passed ++ back ∧ width passed = e.span.stop ∧
    source.toList = passed ++ back.take 2 ∧ (source = text ↔ back.length ≤ 2)
  /-- Where the text ran out, the source is all of it. -/
  ranOut : e.isIncomplete = true → source = text
  /-- By itself the source has the same error. -/
  alike : Program.ofString source = .error e
  /-- Counted in 32 bits the offsets of the error are the same below `2 ^ 32` bytes. -/
  counted : e.CountedIn text

theorem exists_refusedWith (hfile : s.files path = .ok bytes)
    (htext : text.toUTF8 = bytes.toByteArray) (he : Program.ofString text = .error e) :
    ∃ source, RefusedWith s path text e source := by
  have hchars : Program.ofChars text.toList = .error e := he
  obtain ⟨passed, back, hsplit, hwidth, htake, hinc⟩ := Program.exists_take_requested hchars
  have hsame : String.ofList (passed ++ back.take 2) = text ↔ back.length ≤ 2 := by
    rw [← String.toList_inj, String.toList_ofList, hsplit, List.append_cancel_left_eq,
      List.take_eq_self_iff]
  refine ⟨String.ofList (passed ++ back.take 2), fun depth => ?_,
    ⟨passed, back, hsplit, hwidth, String.toList_ofList, hsame⟩, fun hopen => ?_, ?_,
    SyntaxError.countedIn_of_error he⟩
  · rw [← Text.decode?_eq_some_iff_toUTF8] at htext
    rw [runFile, hfile]
    dsimp only
    rw [Program.ofStream_of_error htext hchars, htake]
  · rw [hsame, hinc hopen]
    exact Nat.zero_le 2
  · rw [Program.ofString, String.toList_ofList]
    refine Program.ofChars_of_append_eq_error (t := back.drop 2) ?_ ?_
    · rwa [List.append_assoc, List.take_append_drop, ← hsplit]
    · rw [width_append, hwidth]
      exact Nat.le_add_right _ _

/-- A parenthesis too many, and a form behind it. -/
def closedFirst : String := ") (display 1)\n"

theorem toUTF8_closedFirst : closedFirst.toUTF8 = closedFirst.toUTF8.toList.toByteArray :=
  Text.decode?_eq_some_iff_toUTF8.1 (by cbv)

theorem ofString_closedFirst :
    Program.ofString closedFirst = .error ⟨.unmatchedParen, ⟨0, 1⟩⟩ := by cbv

theorem exists_refusedWith_closedFirst :
    let s := Session.new 0 fun _ => .ok closedFirst.toUTF8.toList
    (s.files "a.scm" = .ok closedFirst.toUTF8.toList ∧
      closedFirst.toUTF8 = closedFirst.toUTF8.toList.toByteArray ∧
      Program.ofString closedFirst = .error ⟨.unmatchedParen, ⟨0, 1⟩⟩) ∧
    ∃ source, RefusedWith s "a.scm" closedFirst ⟨.unmatchedParen, ⟨0, 1⟩⟩ source := by
  exact ⟨⟨rfl, toUTF8_closedFirst, ofString_closedFirst⟩,
    exists_refusedWith rfl toUTF8_closedFirst ofString_closedFirst⟩

/-- If a file cannot be read, the whole of its text goes with the error. -/
def CarriesFiles : Prop :=
  ∀ (s : Session) (depth : Nat) (path text : String) (bytes : List UInt8) (e : SyntaxError),
    s.files path = .ok bytes → text.toUTF8 = bytes.toByteArray → Program.ofString text = .error e →
    (s.runFile depth path).1.stopped = some (.failed (.unreadable path text e))

/-- With the parenthesis goes the beginning of the form behind it. -/
theorem not_carriesFiles : ¬CarriesFiles := by
  intro h
  have hrun : ((Session.new 0 fun _ => .ok closedFirst.toUTF8.toList).runFile 1 "a.scm").1.stopped =
      some (.failed (.unreadable "a.scm" ") (" ⟨.unmatchedParen, ⟨0, 1⟩⟩)) := by cbv
  have hall := h (Session.new 0 fun _ => .ok closedFirst.toUTF8.toList) 1 "a.scm" closedFirst _ _
    rfl toUTF8_closedFirst ofString_closedFirst
  rw [hrun] at hall
  simp [closedFirst] at hall

end FrameLisp.Session
