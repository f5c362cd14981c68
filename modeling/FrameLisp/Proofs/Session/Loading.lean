import FrameLisp.Proofs.Eval.Congruence
import FrameLisp.Proofs.Source.Chunks
import FrameLisp.Session.Text

/-!
# Loading a file and running it

A file is loaded line by line and run as a whole. Both evaluate its forms in order up to the first
failure, with the same effects, as long as the text can be read and no frames are collected between
the forms. A text that cannot be read is not run at all; when it is loaded, the forms before the
fault are evaluated first.
-/
namespace FrameLisp

open Source Store Text

section Files

variable (evaluate : Evaluator) (env : Handle) (path : String)

theorem evalAll_append (ds es : List Datum) : evalAll evaluate env (ds ++ es) =
    evalAll evaluate env ds >>= fun _ => evalAll evaluate env es := by
  induction ds with
  | nil => rfl
  | cons d ds ih =>
    rw [List.cons_append, evalAll, evalAll, ih, bind_assoc]

/-- Chunks of forms are evaluated like all their forms together. -/
theorem loadChunks_append (pieces : List (List Datum)) (chunks : List Chunk) :
    loadChunks evaluate env path (pieces.map .forms ++ chunks) =
      evalAll evaluate env pieces.flatten >>= fun _ => loadChunks evaluate env path chunks := by
  induction pieces with
  | nil => rfl
  | cons ds pieces ih =>
    rw [List.map_cons, List.cons_append, loadChunks, ih, List.flatten_cons, evalAll_append,
      bind_assoc]

theorem loadChunks_forms (pieces : List (List Datum)) :
    loadChunks evaluate env path (pieces.map .forms) = evalAll evaluate env pieces.flatten := by
  have h := loadChunks_append evaluate env path pieces []
  rw [List.append_nil] at h
  rw [h]
  exact bind_pure_unit

variable {path} {s : Session} {bytes : List UInt8} {text : List Char} {p : Program}
  {e : SyntaxError}

theorem runFrom_loadFile (hfile : s.files path = .ok bytes) :
    (loadFile evaluate env path).runFrom s =
      (loadChunks evaluate env path (Chunk.ofBytes bytes)).runFrom s := by
  have hget : (get : Action Session).runFrom s = (.ok s, s) := rfl
  rw [loadFile, Action.runFrom_bind, hget]
  dsimp only
  rw [hfile]

/-- A file that can be read is loaded by evaluating the forms of its text. -/
theorem loadFile_of_ok (hfile : s.files path = .ok bytes) (htext : decode? bytes = some text)
    (hbreaks : ¬['\r', '\n'] <:+: text) (hp : Program.ofChars text = .ok p) :
    (loadFile evaluate env path).runFrom s = (evalAll evaluate env p.data).runFrom s := by
  rw [runFrom_loadFile evaluate env hfile]
  have hcuts := Chunk.cuts_ofBytes htext hbreaks
  generalize Chunk.ofBytes bytes = chunks at hcuts ⊢
  cases hcuts with
  | forms hq hpieces =>
    obtain rfl := Except.ok.inj (hp.symm.trans hq)
    rw [loadChunks_forms, hpieces]
  | unreadable he => cases hp.symm.trans he

/-- A file that cannot be read is loaded by evaluating the forms of a beginning of its text, and
then fails. -/
theorem loadFile_of_error (hfile : s.files path = .ok bytes) (htext : decode? bytes = some text)
    (hbreaks : ¬['\r', '\n'] <:+: text) (he : Program.ofChars text = .error e) :
    ∃ front back p source e', text = front ++ back ∧ Program.ofChars front = .ok p ∧
      Program.ofString source = .error e' ∧ ∀ evaluate env,
        (loadFile evaluate env path).runFrom s =
          (evalAll evaluate env p.data >>= fun _ =>
            Action.fail (.unreadable path source e')).runFrom s := by
  have hload := fun evaluate env => runFrom_loadFile evaluate env hfile
  have hcuts := Chunk.cuts_ofBytes htext hbreaks
  generalize Chunk.ofBytes bytes = chunks at hcuts hload
  cases hcuts with
  | forms hq => cases he.symm.trans hq
  | @unreadable _ front back p pieces source e' _ hsplit hfront hpieces hsource =>
    refine ⟨front, back, p, String.ofList source, e', hsplit, hfront, ?_, fun evaluate env => ?_⟩
    · rw [Program.ofString, String.toList_ofList, hsource]
    · rw [hload, loadChunks_append, hpieces]
      rfl

/-- A stream of a text without faults is read as the text is. What is asked for up to an error goes
with it. -/
theorem Source.Program.ofStream_of_decode? (htext : decode? bytes = some text) :
    Program.ofStream bytes = (Program.ofChars text).mapError fun e =>
      .unreadable (String.ofList (text.take (requested text (.error e)))) e := by
  have hleading : Decoded.leading (text.map .char) = text := by
    rw [Decoded.leading, List.takeWhile_eq_self_iff.2 (by simp [Decoded.char?])]
    rw [List.filterMap_map]
    exact List.filterMap_some
  have hfaults : ∀ count, ((text.map Decoded.char).take count).filterMap faultOf? = [] := by
    intro count
    rw [← List.map_take, List.filterMap_map]
    simp [faultOf?]
  rw [ofStream, decode_eq_of_decode? htext]
  simp only [hleading, hfaults, List.getLast?_nil]
  cases Program.ofChars text <;> rfl

theorem Source.Program.ofStream_of_ok (htext : decode? bytes = some text)
    (hp : Program.ofChars text = .ok p) : Program.ofStream bytes = .ok p := by
  rw [ofStream_of_decode? htext, hp]
  rfl

theorem Source.Program.ofStream_of_error (htext : decode? bytes = some text)
    (he : Program.ofChars text = .error e) : Program.ofStream bytes =
      .error (.unreadable (String.ofList (text.take (requested text (.error e)))) e) := by
  rw [ofStream_of_decode? htext, he]
  rfl

end Files

namespace Session

/-- Forms are evaluated one after the other in the root frame, with these values, up to the last
one or to one that stops the evaluation. -/
inductive Evaluates (depth : Nat) :
    Session → List Datum → List Datum → Option Halt → Session → Prop
  | done {s} : Evaluates depth s [] [] none s
  | stop {s d halt t} : s.evalIn depth s.root d = (.error halt, t) →
      Evaluates depth s [d] [] (some halt) t
  | next {s d value t ds values stopped u} : s.evalIn depth s.root d = (.ok value, t) →
      Evaluates depth t ds values stopped u →
      Evaluates depth s (d :: ds) (value :: values) stopped u

/-- How a load ends. -/
def loaded : Option Halt → Except Halt Unit
  | none => .ok ()
  | some halt => .error halt

variable {depth : Nat} {s t : Session} {ds values : List Datum} {stopped : Option Halt}

theorem sameSettings_evalIn (depth : Nat) (s : Session) (env : Handle) (d : Datum) :
    s.SameSettings (s.evalIn depth env d).2 :=
  Datum.keepsSettings_evalIn depth env d s

/-- Forms are evaluated up to some place, behind which there are none left or which stopped it. -/
theorem exists_evaluates (depth : Nat) (s : Session) (ds : List Datum) :
    ∃ evaluated rest values stopped t, ds = evaluated ++ rest ∧
      Evaluates depth s evaluated values stopped t ∧ (stopped = none → rest = []) := by
  induction ds generalizing s with
  | nil => exact ⟨[], [], [], none, s, rfl, .done, fun _ => rfl⟩
  | cons d ds ih =>
    cases heval : s.evalIn depth s.root d with
    | mk result t =>
      cases result with
      | error halt => exact ⟨[d], ds, [], some halt, t, rfl, .stop heval, by simp⟩
      | ok value =>
        obtain ⟨evaluated, rest, values, stopped, u, rfl, h, hrest⟩ := ih t
        exact ⟨d :: evaluated, rest, value :: values, stopped, u, rfl, .next heval h, hrest⟩

/-- Forms that are evaluated to their end are evaluated in two parts. -/
theorem Evaluates.exists_of_append {ds' : List Datum}
    (h : Evaluates depth s (ds ++ ds') values none t) : ∃ values₁ values₂ u,
      values = values₁ ++ values₂ ∧ Evaluates depth s ds values₁ none u ∧
        Evaluates depth u ds' values₂ none t := by
  induction ds generalizing s values with
  | nil => exact ⟨[], values, s, rfl, .done, h⟩
  | cons d ds ih =>
    rw [List.cons_append] at h
    generalize hrest : ds ++ ds' = rest at h
    cases h with
    | next heval hlater =>
      subst hrest
      obtain ⟨values₁, values₂, u, rfl, hfront, hback⟩ := ih hlater
      exact ⟨_ :: values₁, values₂, u, rfl, .next heval hfront, hback⟩

/-- Loading evaluates forms in a fixed frame, and the root frame stays the same. -/
theorem Evaluates.runFrom_evalAll (h : Evaluates depth s ds values stopped t)
    {rest : List Datum} (hrest : stopped = none → rest = []) :
    (evalAll (Datum.evalIn (call depth)) s.root (ds ++ rest)).runFrom s = (loaded stopped, t) := by
  induction h with
  | done =>
    rw [hrest rfl]
    rfl
  | stop heval =>
    rw [List.singleton_append, evalAll, Action.runFrom_bind]
    rw [evalIn] at heval
    rw [heval]
    rfl
  | @next s d value t ds values stopped u heval h ih =>
    have hroot : t.root = s.root := by
      have hsame := (sameSettings_evalIn depth s s.root d).root
      rwa [heval] at hsame
    rw [List.cons_append, evalAll, Action.runFrom_bind]
    rw [evalIn] at heval
    rw [heval, ← hroot]
    exact ih hrest

/-- If nothing is done between the forms, they are evaluated likewise. -/
theorem Evaluates.evalForms_of_settled (h : Evaluates depth s ds values stopped t)
    {settle : List Datum → Session → Session}
    (hsettle : ∀ values u, s.SameSettings u → settle values u = u)
    {rest : List Datum} (hrest : stopped = none → rest = []) (before : List Datum) :
    s.evalForms depth settle before (ds ++ rest) =
      (⟨values.reverse ++ before, stopped.map .ofHalt⟩, t) := by
  induction h generalizing before with
  | done =>
    rw [hrest rfl]
    rfl
  | stop heval =>
    rw [List.singleton_append, Session.evalForms, heval]
    rfl
  | @next s d value t ds values stopped u heval h ih =>
    have hsame := sameSettings_evalIn depth s s.root d
    rw [heval] at hsame
    rw [List.cons_append, Session.evalForms, heval]
    dsimp only
    rw [hsettle _ _ hsame, ih (fun values u hu => hsettle values u (hsame.trans hu)) hrest]
    simp

theorem keeping_of_threshold (hoff : s.threshold = 0) (values : List Datum) :
    keeping values s = s := by
  rw [keeping, collectIfNeeded, if_pos (.inl hoff)]

/-- Without collections, running evaluates the forms likewise. -/
theorem Evaluates.evalForms (h : Evaluates depth s ds values stopped t) (hoff : s.threshold = 0)
    {rest : List Datum} (hrest : stopped = none → rest = []) (before : List Datum) :
    s.evalForms depth (fun _ s => keeping [] s) before (ds ++ rest) =
      (⟨values.reverse ++ before, stopped.map .ofHalt⟩, t) :=
  h.evalForms_of_settled (fun _ _ hsame => keeping_of_threshold (hsame.threshold.trans hoff) [])
    hrest before

/-- How the load of a text that cannot be read fails. Forms of a beginning of the text are
evaluated, and only if all of them succeed it fails because of the text. -/
inductive FailsToLoad (depth : Nat) (s : Session) (path : String) (text : List Char) : Prop
  | form {front back p evaluated rest values halt t} : text = front ++ back →
      Program.ofChars front = .ok p → p.data = evaluated ++ rest →
      Evaluates depth s evaluated values (some halt) t →
      s.load depth s.root path = (.error halt, t) → FailsToLoad depth s path text
  | text {front back p values t source e} : text = front ++ back →
      Program.ofChars front = .ok p → Evaluates depth s p.data values none t →
      Program.ofString source = .error e →
      s.load depth s.root path = (.error (.failed (.unreadable path source e)), t) →
      FailsToLoad depth s path text

/-- How loading a file with this text into the root frame and running the file compare. -/
structure LoadsAsItRuns (depth : Nat) (s : Session) (path : String) (text : List Char) : Prop where
  /-- A text that can be read is loaded and run by evaluating its forms, whatever that does. -/
  forms : ∀ p, Program.ofChars text = .ok p →
    (∀ evaluate env,
      (loadFile evaluate env path).runFrom s = (evalAll evaluate env p.data).runFrom s) ∧
    s.runFile depth path = s.evalForms depth (fun _ s => keeping [] s) [] p.data
  /-- Both stop at the same form, if at any, for the same reason, and leave the same session. -/
  agree : ∀ p, Program.ofChars text = .ok p → ∃ evaluated rest values stopped t,
    p.data = evaluated ++ rest ∧ Evaluates depth s evaluated values stopped t ∧
      (stopped = none → rest = []) ∧ s.load depth s.root path = (loaded stopped, t) ∧
      s.runFile depth path = (⟨values.reverse, stopped.map .ofHalt⟩, t)
  succeeds : (s.load depth s.root path).1 = .ok () ↔ ∃ p values t,
    Program.ofChars text = .ok p ∧ Evaluates depth s p.data values none t
  fails : ∀ e, Program.ofChars text = .error e → FailsToLoad depth s path text

section Agreement

variable {path : String} {bytes : List UInt8} {text : List Char} {p : Program} {e : SyntaxError}

theorem FailsToLoad.load_ne_ok (h : FailsToLoad depth s path text) :
    (s.load depth s.root path).1 ≠ .ok () := by
  cases h with
  | form _ _ _ _ hload => simp [hload]
  | text _ _ _ _ hload => simp [hload]

variable (hfile : s.files path = .ok bytes) (htext : decode? bytes = some text)
  (hbreaks : ¬['\r', '\n'] <:+: text)

include hfile htext hbreaks

theorem failsToLoad (he : Program.ofChars text = .error e) (depth : Nat) :
    FailsToLoad depth s path text := by
  obtain ⟨front, back, p, source, e', hsplit, hfront, hsource, hload⟩ :=
    loadFile_of_error hfile htext hbreaks he
  obtain ⟨evaluated, rest, values, stopped, t, hdata, heval, hrest⟩ :=
    exists_evaluates depth s p.data
  have hrun := hload (Datum.evalIn (call depth)) s.root
  rw [Action.runFrom_bind, hdata, heval.runFrom_evalAll hrest] at hrun
  cases stopped with
  | some halt => exact .form hsplit hfront hdata heval hrun
  | none =>
    rw [hrest rfl, List.append_nil] at hdata
    exact .text hsplit hfront (hdata ▸ heval) hsource hrun

theorem load_eq_ok_iff (depth : Nat) :
    (s.load depth s.root path).1 = .ok () ↔ ∃ p values t,
      Program.ofChars text = .ok p ∧ Evaluates depth s p.data values none t := by
  constructor
  · intro hok
    cases hp : Program.ofChars text with
    | error e => exact absurd hok (failsToLoad hfile htext hbreaks hp depth).load_ne_ok
    | ok p =>
      obtain ⟨evaluated, rest, values, stopped, t, hdata, heval, hrest⟩ :=
        exists_evaluates depth s p.data
      rw [load, loadFile_of_ok _ _ hfile htext hbreaks hp, hdata,
        heval.runFrom_evalAll hrest] at hok
      cases stopped with
      | some halt => simp [loaded] at hok
      | none =>
        rw [hrest rfl, List.append_nil] at hdata
        exact ⟨p, values, t, rfl, hdata ▸ heval⟩
  · rintro ⟨p, values, t, hp, heval⟩
    have hrun := heval.runFrom_evalAll fun _ => rfl
    rw [List.append_nil] at hrun
    rw [load, loadFile_of_ok _ _ hfile htext hbreaks hp, hrun]
    rfl

/-- A file without carriage returns before newlines is loaded as it is run, as long as no frames are
collected. -/
theorem loadsAsItRuns (hoff : s.threshold = 0) (depth : Nat) :
    LoadsAsItRuns depth s path text := by
  have hrun : ∀ p, Program.ofChars text = .ok p →
      s.runFile depth path = s.evalForms depth (fun _ s => keeping [] s) [] p.data := by
    intro p hp
    rw [runFile, hfile]
    dsimp only
    rw [Program.ofStream_of_ok htext hp]
  refine ⟨fun p hp => ⟨fun evaluate env => ?_, hrun p hp⟩, fun p hp => ?_,
    load_eq_ok_iff hfile htext hbreaks depth, fun e he => failsToLoad hfile htext hbreaks he depth⟩
  · exact loadFile_of_ok evaluate env hfile htext hbreaks hp
  · obtain ⟨evaluated, rest, values, stopped, t, hdata, heval, hrest⟩ :=
      exists_evaluates depth s p.data
    refine ⟨evaluated, rest, values, stopped, t, hdata, heval, hrest, ?_, ?_⟩
    · rw [load, loadFile_of_ok _ _ hfile htext hbreaks hp, hdata, heval.runFrom_evalAll hrest]
    · rw [hrun p hp, hdata, heval.evalForms hoff hrest, List.append_nil]

omit hfile htext hbreaks

/-- A form on two lines with a comment behind it, a form that fails, and one that is not reached. -/
def threeForms : String := "(define x\n  1) ; one\n(car x) (define y 2)"

theorem loadsAsItRuns_threeForms :
    let files : Files := fun _ => .ok threeForms.toUTF8.toList
    ((Session.new 0 files).files "three.scm" = .ok threeForms.toUTF8.toList ∧
      decode? threeForms.toUTF8.toList = some threeForms.toList ∧
      ¬['\r', '\n'] <:+: threeForms.toList ∧ (Session.new 0 files).threshold = 0) ∧
    LoadsAsItRuns 100 (Session.new 0 files) "three.scm" threeForms.toList := by
  have htext : decode? threeForms.toUTF8.toList = some threeForms.toList := by cbv
  have hbreaks : ¬['\r', '\n'] <:+: threeForms.toList := by decide
  exact ⟨⟨rfl, htext, hbreaks, rfl⟩, loadsAsItRuns rfl htext hbreaks rfl 100⟩

end Agreement

end Session

end FrameLisp
