import FrameLisp.Proofs.Eval.Depth
import FrameLisp.Session.Text

/-!
# Requests

A session is asked to evaluate texts and files one after the other. What it answers is kept form by
form, also where a text hands out its values only if all of its forms succeed. An answer that came
to its end is the same under every greater bound on the depth of calls.
-/
namespace FrameLisp

open Source

/-- What a session is asked to evaluate. -/
inductive Request where
  | text (source : String)
  | file (path : String)

namespace Results

/-- The bound on the depth of calls was not reached. -/
def Ended (r : Results) : Prop := r.stopped ≠ some .exhausted

/-- All values, if nothing stopped the evaluation. -/
def returned (r : Results) : Except Interruption (List Datum) :=
  match r.stopped with
  | none => .ok r.values.reverse
  | some stop => .error stop

end Results

namespace Session

/-- The values of the forms of a text. -/
def readForms (depth : Nat) (s : Session) (source : String) : Results × Session :=
  match Program.ofString source with
  | .error e => (⟨[], some (.failed (.unreadable "<input>" source e))⟩, s)
  | .ok program => s.evalForms depth keeping [] program.data

theorem readEval_eq (depth : Nat) (s : Session) (source : String) :
    s.readEval depth source =
      ((s.readForms depth source).1.returned, (s.readForms depth source).2) := by
  rw [readEval, readForms]
  cases Program.ofString source with
  | error e => rfl
  | ok program =>
    dsimp only
    obtain ⟨⟨values, _ | stop⟩, t⟩ := s.evalForms depth keeping [] program.data <;> rfl

def answer (depth : Nat) (s : Session) : Request → Results × Session
  | .text source => s.readForms depth source
  | .file path => s.runFile depth path

/-- What a session answers to one request after the other. -/
def answers (depth : Nat) (s : Session) : List Request → List Results × Session
  | [] => ([], s)
  | request :: requests =>
    let (result, s) := s.answer depth request
    let (results, s) := answers depth s requests
    (result :: results, s)

/-- The session answers the requests with these results, and all of them come to an end. -/
def Answers (s : Session) (requests : List Request) (results : List Results) : Prop :=
  ∃ depth, (s.answers depth requests).1 = results ∧ ∀ r ∈ results, r.Ended

variable {n m : Nat} {s : Session}

theorem evalIn_of_le (hnm : n ≤ m) (s : Session) (env : Store.Handle) (d : Datum) :
    (s.evalIn n env d).1 = .error .exhausted ∨ s.evalIn m env d = s.evalIn n env d :=
  Datum.below_evalIn hnm env d s

theorem evalForms_of_le (hnm : n ≤ m) (settle : List Datum → Session → Session)
    {values ds : List Datum} (he : (s.evalForms n settle values ds).1.Ended) :
    s.evalForms m settle values ds = s.evalForms n settle values ds := by
  induction ds generalizing s values with
  | nil => rfl
  | cons d ds ih =>
    rw [evalForms] at he
    rw [evalForms, evalForms]
    rcases evalIn_of_le hnm s s.root d with hn | hn
    · generalize s.evalIn n s.root d = x at he hn
      obtain ⟨x, t⟩ := x
      obtain rfl : x = .error .exhausted := hn
      exact absurd rfl he
    · rw [hn]
      generalize s.evalIn n s.root d = x at he ⊢
      obtain ⟨halt | value, t⟩ := x
      · rfl
      · exact ih he

theorem answer_of_le (hnm : n ≤ m) {request : Request} (he : (s.answer n request).1.Ended) :
    s.answer m request = s.answer n request := by
  cases request with
  | text source =>
    simp only [answer, readForms] at he ⊢
    split
    · rfl
    · next program hp =>
      rw [hp] at he
      exact evalForms_of_le hnm _ he
  | file path =>
    simp only [answer, runFile] at he ⊢
    split
    · rfl
    · next bytes hb =>
      rw [hb] at he
      dsimp only at he
      split
      · rfl
      · rfl
      · next program hp =>
        rw [hp] at he
        exact evalForms_of_le hnm _ he

theorem answers_of_le (hnm : n ≤ m) {requests : List Request}
    (he : ∀ r ∈ (s.answers n requests).1, r.Ended) :
    s.answers m requests = s.answers n requests := by
  induction requests generalizing s with
  | nil => rfl
  | cons request requests ih =>
    simp only [answers] at he ⊢
    obtain ⟨hfirst, hrest⟩ := List.forall_mem_cons.1 he
    rw [answer_of_le hnm hfirst, ih hrest]

end Session

end FrameLisp
