import FrameLisp.Session.Host

/-!
# Sessions among hosts

The primitives that observe or drive the collection of frames are programs like those of any host. A
host that has no others changes nothing: what is entered answers as the session does by itself.
-/
namespace FrameLisp

open Store Source

theorem HostPrimitive.freed_reclaim (collect : Session → Option Nat × Session) :
    (modifyGet collect >>= fun n => pure (freed n) : Action Datum) = Primitive.reclaim collect := by
  funext s
  change (.ok (freed (collect s).1), (collect s).2) = Primitive.reclaim collect s
  rw [Primitive.reclaim]
  obtain ⟨_ | n, t⟩ := collect s <;> rfl

/-- A primitive that observes or drives collections does as a program what it does by itself. -/
theorem HostPrimitive.run_program (p : HostPrimitive) (arguments : List Datum) (call : Caller) :
    (p.program arguments).run .session call =
      (Primitive.host p).invoke call (Datum.evalIn call) arguments := by
  unfold program
  rw [Primitive.invoke]
  cases (Primitive.host p).arity.mismatch? arguments.length with
  | some e => rfl
  | none =>
    cases p with
    | tryCollect => exact freed_reclaim fun s => s.collectGarbage arguments
    | collectIfNeeded => exact freed_reclaim fun s => s.collectIfNeeded arguments
    | frameCount | allocatedCount | isEvaluating => rfl

/-- Calls among these primitives are the calls of the session. -/
theorem Hosts.call_observers (depth : Nat) :
    observers.call .session depth = FrameLisp.call depth := by
  induction depth with
  | zero => rfl
  | succ depth ih =>
    funext procedure arguments
    rw [Hosts.call, FrameLisp.call, ← ih]
    cases procedure with
    | primitive p =>
      cases p with
      | host p => exact p.run_program arguments _
      | _ => rfl
    | _ => rfl

/-- What a run leads to, its failures being answers. -/
def Answer.ofRun {α : Type} (answer : Except EvalError α → Answer) :
    Except Halt α × Session → Except Halt Answer × Session
  | (.ok x, s) => (.ok (answer (.ok x)), s)
  | (.error (.failed e), s) => (.ok (answer (.error e)), s)
  | (.error .exhausted, s) => (.error .exhausted, s)

/-- What a session answers to an entry when it is left to itself. -/
def Entry.outcome (depth : Nat) (s : Session) : Entry → Except Halt Answer × Session
  | .execute unit env =>
    Answer.ofRun .value ((Action.evaluating (unit.run (call depth) env)).runFrom s)
  | .eval d => Answer.ofRun .value (s.evalIn depth s.root d)
  | .evalIn env d => Answer.ofRun .value (s.evalIn depth env d)
  | .readEval source =>
    match s.readEval depth source with
    | (.ok values, s) => (.ok (.values (.ok values)), s)
    | (.error (.failed f), s) => (.ok (.values (.error f)), s)
    | (.error .exhausted, s) => (.error .exhausted, s)
  | .loadFile env path => Answer.ofRun .loaded (s.load depth env path)
  | .runFile path =>
    match s.runFile depth path with
    | (⟨values, none⟩, s) => (.ok (.printed values none), s)
    | (⟨values, some (.failed f)⟩, s) => (.ok (.printed values (some f)), s)
    | (⟨_, some .exhausted⟩, s) => (.error .exhausted, s)

/-- Forms are evaluated as in the session, with the same done behind each. -/
theorem runFrom_evaluateForms (depth : Nat) (settle : List Datum → Action (Option Nat))
    (keep : List Datum → Session → Session)
    (hsettle : ∀ values s, ∃ n, (settle values).runFrom s = (.ok n, keep values s))
    (values data : List Datum) (s : Session) :
    (evaluateForms (Datum.evalIn (call depth)) settle values data).runFrom s =
      match s.evalForms depth keep values data with
      | (⟨values, none⟩, s) => (.ok (values, none), s)
      | (⟨values, some (.failed f)⟩, s) => (.ok (values, some f), s)
      | (⟨_, some .exhausted⟩, s) => (.error .exhausted, s) := by
  induction data generalizing values s with
  | nil => rfl
  | cons d data ih =>
    change Action.runFrom s ((Datum.evalIn (call depth) s.root d).caught >>= _) = _
    rw [Session.evalForms, Action.runFrom_bind, Action.runFrom_caught, Session.evalIn]
    obtain ⟨(e | _) | value, t⟩ := (Datum.evalIn (call depth) s.root d).runFrom s
    · rfl
    · rfl
    · obtain ⟨n, hn⟩ := hsettle (value :: values) t
      change Action.runFrom t (settle (value :: values) >>= _) = _
      rw [Action.runFrom_bind, hn]
      exact ih (value :: values) _

theorem Action.runFrom_caught_bind {α : Type} (a : Action α) (answer : Except EvalError α → Answer)
    (s : Session) :
    (a.caught >>= fun x => pure (answer x)).runFrom s = Answer.ofRun answer (a.runFrom s) := by
  rw [runFrom_bind, runFrom_caught]
  obtain ⟨(e | _) | x, t⟩ := a.runFrom s <;> rfl

/-- Entered from outside, such a host answers as the session does. -/
theorem Hosts.enter_observers (depth : Nat) (e : Entry) (s : Session) :
    observers.enter .session depth e s = e.outcome depth s := by
  rw [enter, call_observers]
  cases e with
  | execute unit env => exact Action.runFrom_caught_bind _ _ s
  | eval d => exact Action.runFrom_caught_bind _ _ s
  | evalIn env d => exact Action.runFrom_caught_bind _ _ s
  | loadFile env path => exact Action.runFrom_caught_bind _ _ s
  | readEval source =>
    simp only [Entry.run, Entry.outcome, Session.readEval]
    cases Program.ofString source with
    | error e => rfl
    | ok program =>
      have hforms := runFrom_evaluateForms depth
        (fun values => Collector.session.collectIfNeeded values.reverse) Session.keeping
        (fun values s => ⟨_, rfl⟩) [] program.data s
      simp only [Action.runFrom_bind, hforms]
      obtain ⟨⟨values, _ | (f | _)⟩, t⟩ := s.evalForms depth Session.keeping [] program.data <;> rfl
  | runFile path =>
    simp only [Entry.run, Entry.outcome, Session.runFile, Action.runFrom_get_bind]
    cases s.files path with
    | error f => rfl
    | ok bytes =>
      dsimp only
      cases Program.ofStream bytes with
      | error f => cases f <;> rfl
      | ok program =>
        have hforms := runFrom_evaluateForms depth (fun _ => Collector.session.collectIfNeeded [])
          (fun _ s => s.keeping []) (fun values s => ⟨_, rfl⟩) [] program.data s
        simp only [Action.runFrom_bind, hforms]
        obtain ⟨⟨values, _ | (f | _)⟩, t⟩ := s.evalForms depth _ [] program.data <;> rfl

end FrameLisp
