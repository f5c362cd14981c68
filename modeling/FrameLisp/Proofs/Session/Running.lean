import FrameLisp.Proofs.Session.Loading
import FrameLisp.Proofs.Source.Stream
import FrameLisp.Proofs.Text.Encoding

/-!
# Running a file as a whole

A file that is run is decoded while it is scanned, and the scanner takes a fault in the bytes for
the end of the file. What was read by then may well be a program, but it is not run: the scanner
does not get to an end without having asked for what stands there, and a fault that it met counts
more than anything it read.
-/
namespace FrameLisp

open Source Text

namespace Source.Program

variable {p : Program} {bytes : List UInt8}

/-- Whether the bytes are those of a text that is read as this program. -/
def IsIn (p : Program) (bytes : List UInt8) : Prop :=
  ∃ text : String, text.toUTF8 = bytes.toByteArray ∧ Program.ofString text = .ok p

theorem ofStream_eq_ok_iff : Program.ofStream bytes = .ok p ↔ p.IsIn bytes := by
  rw [← CharStream.program_decode, CharStream.program_eq_ok_iff]
  constructor
  · rintro ⟨cs, hdecode, hp⟩
    refine ⟨String.ofList cs, ?_, ?_⟩
    · rw [← decode?_eq_some_iff_toUTF8, String.toList_ofList, decode?_eq_some_iff, hdecode]
    · rw [Program.ofString, String.toList_ofList, hp]
  · rintro ⟨text, htext, hp⟩
    rw [← decode?_eq_some_iff_toUTF8, decode?_eq_some_iff] at htext
    exact ⟨text.toList, htext, hp⟩

end Source.Program

namespace Session

variable {s : Session} {path : String} {bytes : List UInt8}

/-- A file is read as a whole before any of it is evaluated. -/
structure RunsAsAWhole (depth : Nat) (s : Session) (path : String) (bytes : List UInt8) :
    Prop where
  /-- The bytes are decoded while they are scanned, as far as characters are asked for. -/
  scanned : Program.ofStream bytes = CharStream.program (decode bytes)
  /-- If there is a fault anywhere in the bytes or in their text, nothing is evaluated. -/
  refused : (∀ p : Program, ¬p.IsIn bytes) →
    ∃ f, s.runFile depth path = (⟨[], some (.failed f)⟩, s)
  /-- Otherwise the forms of the whole text are. -/
  evaluated : ∀ p : Program, p.IsIn bytes →
    s.runFile depth path = s.evalForms depth (fun _ s => s.keeping []) [] p.data

section Files

variable (hfile : s.files path = .ok bytes)

include hfile

theorem runFile_of_ok {p : Program} (hread : Program.ofStream bytes = .ok p) (depth : Nat) :
    s.runFile depth path = s.evalForms depth (fun _ s => s.keeping []) [] p.data := by
  rw [runFile, hfile]
  dsimp only
  rw [hread]

theorem exists_runFile_of_error {e : StreamError} (hread : Program.ofStream bytes = .error e)
    (depth : Nat) : ∃ f, s.runFile depth path = (⟨[], some (.failed f)⟩, s) := by
  rw [runFile, hfile]
  dsimp only
  rw [hread]
  cases e <;> exact ⟨_, rfl⟩

theorem runsAsAWhole (depth : Nat) : RunsAsAWhole depth s path bytes := by
  refine ⟨(CharStream.program_decode bytes).symm, fun hnone => ?_, fun p hp => ?_⟩
  · cases hread : Program.ofStream bytes with
    | ok p => exact absurd (Program.ofStream_eq_ok_iff.1 hread) (hnone p)
    | error e => exact exists_runFile_of_error hfile hread depth
  · exact runFile_of_ok hfile (Program.ofStream_eq_ok_iff.2 hp) depth

end Files

/-- A form, and behind it a byte that is not one of a text. -/
def faultBehind : List UInt8 := "(define x 1)".toUTF8.toList ++ [0xFF]

theorem runsAsAWhole_faultBehind :
    let s := Session.new 0 fun _ => .ok faultBehind
    s.files "fault.scm" = .ok faultBehind ∧ RunsAsAWhole 100 s "fault.scm" faultBehind :=
  ⟨rfl, runsAsAWhole rfl 100⟩

example : (Program.ofString "(define x 1)").isOk = true ∧
    Program.ofStream faultBehind = .error (.fault .invalidData) := by
  constructor <;> cbv

end Session

end FrameLisp
