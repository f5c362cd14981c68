import FrameLisp.Proofs.Report.Position
import FrameLisp.Proofs.Session.Loading
import FrameLisp.Proofs.Source.Cuts

/-!
# Where errors of syntax in a file are reported

A file that is run is reported on in what was read of it from its beginning on, so at the place of
the error in the file. One that is loaded is reported on in the lines that were gathered since the
last form was evaluated, with the path of the whole file: the line is off by the lines before these.
What is gathered has a newline behind the last line, also where the file has none; so if the file
ends inside of a form, that is reported a line later still.
-/
namespace FrameLisp

open Source Store Text Report

section Files

variable {s : Session} {path : String} {bytes : List UInt8} {text : List Char} {e : SyntaxError}

/-- What was read of a text by the time of its error shows it at its place. -/
theorem Source.Program.exists_shownBehind_requested (he : Program.ofChars text = .error e) :
    ∃ front, e.ShownBehind text front ∧
      e.ShownBehind (text.take (Program.requested text (.error e))) front := by
  obtain ⟨front, hfront⟩ := (Program.standsIn_of_error he).requested.exists_shownBehind
  refine ⟨front, hfront.of_prefix (List.take_prefix _ _) fun hfault => ?_, hfront⟩
  -- a text that ends too early was read to its end
  obtain ⟨passed, back, hsplit, -, htake, hinc⟩ := Program.exists_take_requested he
  rw [htake, hsplit, hinc (by rw [SyntaxError.isIncomplete, hfault])]
  rfl

/-- What was gathered of a text that cannot be read, behind the first lines of it: its error is that
of the whole text with its last line completed, behind the same characters. -/
structure Gathered (text front source : List Char) (e : SyntaxError) (shown : List Char) : Prop where
  lines : front ++ source <+: ended text
  whole : IsWhole front
  alone : Program.ofChars source = .error e
  fault : e.ShownBehind source shown
  below : ∃ e', Program.ofChars (ended text) = .error e' ∧
    e'.ShownBehind (ended text) (front ++ shown)

/-- Loading a file that cannot be read evaluates the forms of some first lines, and fails with the
error of what was gathered behind these. -/
theorem exists_gathered (hfile : s.files path = .ok bytes) (htext : decode? bytes = some text)
    (hbreaks : ¬['\r', '\n'] <:+: text) (he : Program.ofChars text = .error e) :
    ∃ front p source e' shown, Gathered text front source e' shown ∧
      Program.ofChars front = .ok p ∧ ∀ evaluate env, (loadFile evaluate env path).runFrom s =
        (evalAll evaluate env p.data >>= fun _ =>
          Action.fail (.unreadable path (String.ofList source) e')).runFrom s := by
  have hload := fun evaluate env => runFrom_loadFile evaluate env hfile
  have hgathers := Chunk.gathers_ofBytes htext hbreaks
  generalize Chunk.ofBytes bytes = chunks at hgathers hload
  generalize hended : ended text = lines at hgathers
  cases hgathers with
  | forms hp =>
    rcases ended_eq_or text with hwhole | hnewline
    · cases he.symm.trans (hwhole ▸ hended ▸ hp)
    · obtain ⟨e', he', -⟩ := Program.exists_ofChars_newline_eq_error he
      cases he'.symm.trans (hnewline ▸ hended ▸ hp)
  | @unreadable front rest p pieces source e' hsplit hwhole hfront hpieces hsource hlast he' hrest =>
    obtain ⟨shown, hshown⟩ := (Program.standsIn_of_error he').exists_shownBehind
    have hlater : e'.ShownBehind rest shown := hshown.of_prefix hsource fun hfault =>
      hlast (by rw [SyntaxError.isIncomplete, hfault])
    have htotal := Program.ofChars_append (t := rest) (hwhole.imp_right .inl) hfront
    rw [hrest, ← hsplit, ← hended] at htotal
    have hbelow := hlater.shift front
    rw [← hsplit, ← hended] at hbelow
    have hlines : front ++ source <+: ended text := by
      rw [hended, hsplit]
      exact (List.prefix_append_right_inj front).2 hsource
    refine ⟨front, p, source, e', shown, ⟨hlines, hwhole, he', hshown, _, htotal, hbelow⟩, hfront,
      fun evaluate env => ?_⟩
    rw [hload, loadChunks_append, hpieces]
    rfl

end Files

namespace Session

variable {s : Session} {path : String} {bytes : List UInt8} {text : List Char} {e : SyntaxError}

/-- How a file that cannot be read is reported where it is run and where it is loaded. The lines in
`front` are those that were evaluated before the error was met, with the blank lines among them. -/
structure ReportsBelow (s : Session) (path : String) (text : List Char) (e : SyntaxError)
    (front : List Char) (run load : Spot) : Prop where
  whole : IsWhole front
  /-- What is reported on is what was read of the file. -/
  runs : ∃ source : String, source.toList <+: text ∧
    (Failure.unreadable path source e).spot? = some run ∧ ∀ depth,
      s.runFile depth path = (⟨[], some (.failed (.unreadable path source e))⟩, s)
  /-- What is reported on is what was gathered, unless one of the forms before it fails. -/
  loads : ∃ (p : Program) (source : String) (e' : SyntaxError), Program.ofChars front = .ok p ∧
    front ++ source.toList <+: ended text ∧
    e'.CountedIn source ∧ (Failure.unreadable path source e').spot? = some load ∧ ∀ depth env,
      s.load depth env path = (evalAll (Datum.evalIn (call depth)) env p.data >>= fun _ =>
        Action.fail (.unreadable path source e')).runFrom s
  /-- Counted in 32 bits the offsets of the error are the same below `2 ^ 32` bytes. -/
  counted : e.CountedIn (String.ofList text)
  /-- In a file of complete lines, and wherever the error is not that the text has run out, the
  lines that were evaluated are missing from the place of a load. -/
  missing : IsWhole text ∨ e.isIncomplete = false → run = load.down (front.count '\n')
  /-- So the places are the same only if no line was. -/
  same : IsWhole text ∨ e.isIncomplete = false → (load = run ↔ '\n' ∉ front)
  /-- A file that ends inside of a form is loaded up to the beginning of a line behind its last. -/
  ranOut : ¬IsWhole text → e.fault = .unexpectedEnd →
    run = .behind path text ∧ load.down (front.count '\n') = ⟨path, text.count '\n' + 2, 1⟩
  /-- A string that is open at the end of a file has a newline in it when it is loaded, which no
  backslash may stand before. -/
  openString : ¬IsWhole text → e.isIncomplete = true → e.fault ≠ .unexpectedEnd →
    run = load.down (front.count '\n') ∨
      ∃ cs, text = cs ++ ['\\'] ∧ load.down (front.count '\n') = .behind path cs

theorem exists_reportsBelow (hfile : s.files path = .ok bytes) (htext : decode? bytes = some text)
    (hbreaks : ¬['\r', '\n'] <:+: text) (he : Program.ofChars text = .error e) :
    ∃ front run load, ReportsBelow s path text e front run load := by
  obtain ⟨before, hbefore, hread⟩ := Program.exists_shownBehind_requested he
  obtain ⟨front, p, source, e', shown, ⟨hlines, hwhole, halone, hshown, e'', he'', hbelow⟩,
    hfront, hload⟩ := exists_gathered hfile htext hbreaks he
  have hdown : Spot.behind path (front ++ shown) =
      (Spot.behind path shown).down (front.count '\n') := Spot.behind_append_of_isWhole hwhole _ _
  have hcases := hbefore.cases_of_ended he he'' hbelow
  have hmissing (hsame : IsWhole text ∨ e.isIncomplete = false) :
      Spot.behind path before = (Spot.behind path shown).down (front.count '\n') := by
    rw [← hdown]
    rcases hcases with ⟨-, heq⟩ | ⟨hnot, hopen, -⟩
    · rw [heq]
    · rcases hsame with hwhole' | hfinal
      · exact absurd hwhole' hnot
      · rw [hopen] at hfinal
        cases hfinal
  refine ⟨front, .behind path before, .behind path shown, hwhole,
    ⟨_, ?_, SyntaxError.ShownBehind.spot? (by rwa [String.toList_ofList]) path, fun depth => ?_⟩,
    ⟨p, String.ofList source, e', hfront, by rwa [String.toList_ofList],
      SyntaxError.countedIn_of_error (by rwa [Program.ofString, String.toList_ofList]),
      SyntaxError.ShownBehind.spot? (by rwa [String.toList_ofList]) path,
      fun depth env => hload _ env⟩,
    SyntaxError.countedIn_of_error (by rwa [Program.ofString, String.toList_ofList]), hmissing,
    fun hsame => ?_, ?_, ?_⟩
  · rw [String.toList_ofList]
    exact List.take_prefix _ _
  · rw [runFile, hfile]
    dsimp only
    rw [Program.ofStream_of_error htext he]
  · rw [hmissing hsame, Spot.eq_down_iff, List.count_eq_zero]
  · intro hnot hend
    rw [← hdown]
    rcases hcases with ⟨hwhole' | hne, -⟩ | ⟨-, -, ⟨-, rfl, hb⟩ | ⟨hne, -⟩⟩
    · exact absurd hwhole' hnot
    · exact absurd hend hne
    · rw [hb, Spot.behind_newline]
      exact ⟨rfl, rfl⟩
    · exact absurd hend hne
  · intro hnot hopen hne
    rw [← hdown]
    rcases hcases with ⟨-, heq⟩ | ⟨-, -, ⟨hend, -⟩ | ⟨-, hcs⟩⟩
    · exact .inl (by rw [heq])
    · exact absurd hend hne
    · exact .inr ⟨_, hcs, rfl⟩

/-- A form, and on the next line a parenthesis too many. -/
def strayParen : String := "(define x 1)\n)\n"

/-- A directory with this file. -/
def strayFiles : Files := fun _ => .ok strayParen.toUTF8.toList

theorem exists_reportsBelow_strayParen :
    let s := Session.new 0 strayFiles
    (s.files "a.scm" = .ok strayParen.toUTF8.toList ∧
      decode? strayParen.toUTF8.toList = some strayParen.toList ∧
      ¬['\r', '\n'] <:+: strayParen.toList ∧
      Program.ofChars strayParen.toList = .error ⟨.unmatchedParen, ⟨13, 14⟩⟩) ∧
    ∃ front run load, ReportsBelow s "a.scm" strayParen.toList ⟨.unmatchedParen, ⟨13, 14⟩⟩
      front run load := by
  have htext : decode? strayParen.toUTF8.toList = some strayParen.toList := by cbv
  have hbreaks : ¬['\r', '\n'] <:+: strayParen.toList := by decide
  have he : Program.ofChars strayParen.toList = .error ⟨.unmatchedParen, ⟨13, 14⟩⟩ := by cbv
  exact ⟨⟨rfl, htext, hbreaks, he⟩, exists_reportsBelow rfl htext hbreaks he⟩

/-- If a load fails with an error of syntax, this is reported where running the file reports it. -/
def LoadsReportAsRuns : Prop :=
  ∀ (s : Session) (depth : Nat) (env : Handle) (path : String) (bytes : List UInt8)
    (text : List Char) (e : EvalError) (f : Failure), s.files path = .ok bytes →
    decode? bytes = some text → '\r' ∉ text → (∀ p, Program.ofChars text ≠ .ok p) →
    (s.load depth env path).1 = .error (.failed e) → e.kind = .syntaxError →
    (s.runFile depth path).1.stopped = some (.failed f) → (Failure.ofEval e).spot? = f.spot?

theorem not_loadsReportAsRuns : ¬LoadsReportAsRuns := by
  intro h
  have hload : ((Session.new 0 strayFiles).load 1 (Session.new 0 strayFiles).root "a.scm").1 =
      .error (.failed (.unreadable "a.scm" ")\n" ⟨.unmatchedParen, ⟨0, 1⟩⟩)) := by cbv
  have hrun : ((Session.new 0 strayFiles).runFile 1 "a.scm").1.stopped =
      some (.failed (.unreadable "a.scm" strayParen ⟨.unmatchedParen, ⟨13, 14⟩⟩)) := by cbv
  have htext : decode? strayParen.toUTF8.toList = some strayParen.toList := by cbv
  have he : Program.ofChars strayParen.toList = .error ⟨.unmatchedParen, ⟨13, 14⟩⟩ := by cbv
  have hspots := h (Session.new 0 strayFiles) 1 _ "a.scm" _ _ _ _ rfl htext (by decide)
    (fun p hp => by cases he.symm.trans hp) hload rfl hrun
  have hfirst : (Failure.unreadable "a.scm" ")\n" ⟨.unmatchedParen, ⟨0, 1⟩⟩).spot? =
      some ⟨"a.scm", 1, 1⟩ := by decide
  have hsecond : (Failure.unreadable "a.scm" strayParen ⟨.unmatchedParen, ⟨13, 14⟩⟩).spot? =
      some ⟨"a.scm", 2, 1⟩ := by decide
  rw [Failure.ofEval, hfirst, hsecond] at hspots
  simp at hspots

end Session

end FrameLisp
