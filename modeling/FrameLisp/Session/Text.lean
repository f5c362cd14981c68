import FrameLisp.Eval.Failure
import FrameLisp.Eval.Run

/-!
# Evaluating texts and files in a session

A text is read as a whole before its first form is evaluated, and so is a file that is run; forms
are then evaluated in order up to the first failure. Frames are collected between the forms.
-/
namespace FrameLisp

open Source Store

/-- Why a text or a file was not evaluated to its end. -/
inductive Interruption where
  | failed (f : Failure)
  /-- The bound on the depth of calls was reached. -/
  | exhausted

def Interruption.ofHalt : Halt → Interruption
  | .failed e => .failed (.ofEval e)
  | .exhausted => .exhausted

/-- What the evaluation of forms leads to: the values up to the end or the interruption, the last
one first. -/
structure Results where
  values : List Datum
  stopped : Option Interruption

namespace Session

/-- Evaluates a datum in a frame. -/
def evalIn (depth : Nat) (s : Session) (env : Handle) (d : Datum) : Except Halt Datum × Session :=
  (Datum.evalIn (call depth) env d).runFrom s

/-- Evaluates forms in the root frame, the values so far being `values`. Behind each form `settle`
is done, given all values so far, the last one first. -/
def evalForms (depth : Nat) (settle : List Datum → Session → Session) (values : List Datum)
    (s : Session) : List Datum → Results × Session
  | [] => (⟨values, none⟩, s)
  | d :: ds =>
    match s.evalIn depth s.root d with
    | (.error halt, s) => (⟨values, some (.ofHalt halt)⟩, s)
    | (.ok value, s) => evalForms depth settle (value :: values) (settle (value :: values) s) ds

/-- Collects frames if it is time to; the frames that the values refer to are kept. -/
def keeping (values : List Datum) (s : Session) : Session :=
  (s.collectIfNeeded values.reverse).2

/-- Evaluates a text; all values are kept until the end. -/
def readEval (depth : Nat) (s : Session) (source : String) :
    Except Interruption (List Datum) × Session :=
  match Program.ofString source with
  | .error e => (.error (.failed (.unreadable "<input>" source e)), s)
  | .ok program =>
    match s.evalForms depth keeping [] program.data with
    | (⟨values, none⟩, s) => (.ok values.reverse, s)
    | (⟨_, some stop⟩, s) => (.error stop, s)

/-- Runs a file; the values are printed and not kept. -/
def runFile (depth : Nat) (s : Session) (path : String) : Results × Session :=
  match s.files path with
  | .error f => (⟨[], some (.failed (.file f))⟩, s)
  | .ok bytes =>
    match Program.ofStream bytes with
    | .error (.fault f) => (⟨[], some (.failed (.file f))⟩, s)
    | .error (.unreadable source e) => (⟨[], some (.failed (.unreadable path source e))⟩, s)
    | .ok program => s.evalForms depth (fun _ s => s.keeping []) [] program.data

/-- Loads a file into a frame line by line. -/
def load (depth : Nat) (s : Session) (env : Handle) (path : String) :
    Except Halt Unit × Session :=
  (loadFile (Datum.evalIn (call depth)) env path).runFrom s

/-- Calls a procedure without counting as an evaluation. -/
def apply (depth : Nat) (s : Session) (procedure : Datum) (arguments : List Datum) :
    Except Halt Datum × Session :=
  (call depth procedure arguments).runFrom s

end Session

end FrameLisp
