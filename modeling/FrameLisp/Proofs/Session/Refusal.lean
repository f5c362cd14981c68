import FrameLisp.Proofs.Eval.Congruence
import FrameLisp.Session.Host

/-!
# No collection inside an evaluation

Each evaluation raises the number of running evaluations for as long as it runs, also when it is
started by a host primitive inside another one, and lowers it again however it ends. So whatever a
host primitive is applied in is an evaluating session, which collects nothing.
-/
namespace FrameLisp

open Source Store

variable {α β : Type} {n m : Nat}

namespace Action

/-- Where at least `n` evaluations are running, the actions end in the same way, and as many are
running behind them. -/
def AgreeFrom (n : Nat) (a b : Action α) : Prop :=
  ∀ s, n ≤ s.depth → b.runFrom s = a.runFrom s ∧ (a.runFrom s).2.depth = s.depth

namespace AgreeFrom

theorem refl {a : Action α} (ha : ∀ s, (a.runFrom s).2.depth = s.depth) : AgreeFrom n a a :=
  fun s _ => ⟨rfl, ha s⟩

theorem pure (x : α) : AgreeFrom n (pure x) (pure x) := refl fun _ => rfl

theorem get : AgreeFrom n MonadState.get MonadState.get := refl fun _ => rfl

/-- Two actions that only give this answer while an evaluation is running. -/
theorem of_answer {a b : Action α} {x : α}
    (ha : ∀ s, s.isEvaluating → a.runFrom s = (.ok x, s))
    (hb : ∀ s, s.isEvaluating → b.runFrom s = (.ok x, s)) : AgreeFrom 1 a b := by
  intro s hs
  have hevaluating : s.isEvaluating := decide_eq_true hs
  rw [ha s hevaluating, hb s hevaluating]
  exact ⟨rfl, rfl⟩

theorem bind {a b : Action α} {f g : α → Action β} (hab : AgreeFrom n a b)
    (hfg : ∀ x, AgreeFrom n (f x) (g x)) : AgreeFrom n (a >>= f) (b >>= g) := by
  intro s hs
  obtain ⟨heq, hdepth⟩ := hab s hs
  rw [runFrom_bind, runFrom_bind, heq]
  generalize a.runFrom s = x at hdepth ⊢
  obtain ⟨x | x, t⟩ := x
  · exact ⟨rfl, hdepth⟩
  · obtain ⟨heq', hdepth'⟩ := hfg x t (hdepth.symm ▸ hs)
    exact ⟨heq', hdepth'.trans hdepth⟩

theorem mono {a b : Action α} (hnm : n ≤ m) (hab : AgreeFrom n a b) : AgreeFrom m a b :=
  fun s hs => hab s (Nat.le_trans hnm hs)

/-- Inside an evaluation one more is running. -/
theorem evaluating {a b : Action α} (hab : AgreeFrom (n + 1) a b) :
    AgreeFrom n (evaluating a) (evaluating b) := by
  intro s hs
  obtain ⟨heq, hdepth⟩ := hab { s with depth := s.depth + 1 } (Nat.succ_le_succ hs)
  rw [runFrom_evaluating, runFrom_evaluating, heq]
  exact ⟨rfl, congrArg Nat.pred hdepth⟩

theorem caught {a b : Action α} (hab : AgreeFrom n a b) : AgreeFrom n a.caught b.caught := by
  intro s hs
  obtain ⟨heq, hdepth⟩ := hab s hs
  rw [runFrom_caught, runFrom_caught, heq]
  generalize a.runFrom s = x at hdepth ⊢
  obtain ⟨(_ | _) | x, t⟩ := x <;> exact ⟨rfl, hdepth⟩

end AgreeFrom

theorem congruence_agreeFrom (n : Nat) : Congruence fun _ => AgreeFrom n where
  step ha := .refl fun s => (ha.settings s).depth
  bind := .bind
  evaluating hab := .evaluating (hab.mono (Nat.le_succ n))

end Action

namespace Collector

/-- A collector collects nothing while an evaluation is running: a request is answered with nothing
and leaves the session as it is. -/
def Refuses (c : Collector) : Prop :=
  ∀ live s, s.isEvaluating →
    (c.collectGarbage live).runFrom s = (.ok none, s) ∧
      (c.collectIfNeeded live).runFrom s = (.ok none, s)

theorem refuses_session : session.Refuses := by
  intro live s hs
  have hdepth : 0 < s.depth := of_decide_eq_true hs
  rw [session, Action.runFrom_modifyGet, Action.runFrom_modifyGet,
    Session.collectGarbage_of_depth hdepth, Session.collectIfNeeded_of_depth hdepth]
  exact ⟨rfl, rfl⟩

variable {c c' : Collector}

theorem Refuses.agree_collectGarbage (hc : c.Refuses) (hc' : c'.Refuses) (live : List Datum) :
    Action.AgreeFrom 1 (c.collectGarbage live) (c'.collectGarbage live) :=
  .of_answer (fun s hs => (hc live s hs).1) fun s hs => (hc' live s hs).1

theorem Refuses.agree_collectIfNeeded (hc : c.Refuses) (hc' : c'.Refuses) (live : List Datum) :
    Action.AgreeFrom 1 (c.collectIfNeeded live) (c'.collectIfNeeded live) :=
  .of_answer (fun s hs => (hc live s hs).2) fun s hs => (hc' live s hs).2

end Collector

section Agreement

variable {c c' : Collector} {call call' : Caller}

/-- An evaluation of a datum agrees if calls do inside evaluations. -/
theorem Datum.agree_evalIn (hcall : call.Related (fun _ => Action.AgreeFrom 1) call') :
    (Datum.evalIn call).Related (fun _ => Action.AgreeFrom 0) (Datum.evalIn call') := by
  intro env d
  rw [Datum.evalIn, Datum.evalIn]
  split
  · exact .evaluating ((Action.congruence_agreeFrom 1).run hcall _ env)
  · exact .refl fun _ => rfl

theorem agree_evaluateForms {evaluate evaluate' : Evaluator}
    {settle settle' : List Datum → Action (Option Nat)}
    (he : evaluate.Related (fun _ => Action.AgreeFrom n) evaluate')
    (hsettle : ∀ values, Action.AgreeFrom n (settle values) (settle' values))
    (values data : List Datum) :
    Action.AgreeFrom n (evaluateForms evaluate settle values data)
      (evaluateForms evaluate' settle' values data) := by
  induction data generalizing values with
  | nil => exact .pure _
  | cons d data ih =>
    refine .bind .get fun s => .bind (he s.root d).caught fun result => ?_
    cases result with
    | error e => exact .pure _
    | ok value => exact .bind (hsettle _) fun _ => ih _

/-- Evaluations agree if calls do inside evaluations, and what is collected between forms. -/
theorem Entry.agree_run (hcall : call.Related (fun _ => Action.AgreeFrom 1) call')
    (hcollect : ∀ live, Action.AgreeFrom n (c.collectIfNeeded live) (c'.collectIfNeeded live))
    (e : Entry) : Action.AgreeFrom n (e.run c call) (e.run c' call') := by
  have hevalIn : (Datum.evalIn call).Related (fun _ => Action.AgreeFrom n) (Datum.evalIn call') :=
    fun env d => (Datum.agree_evalIn hcall env d).mono (Nat.zero_le n)
  cases e with
  | execute unit env =>
    have hrun := (Action.congruence_agreeFrom 1).run hcall unit env
    exact .bind (hrun.evaluating.mono (Nat.zero_le n)).caught fun _ => .pure _
  | eval d => exact .bind .get fun s => .bind (hevalIn s.root d).caught fun _ => .pure _
  | evalIn env d => exact .bind (hevalIn env d).caught fun _ => .pure _
  | readEval source =>
    simp only [Entry.run]
    split
    · exact .pure _
    · refine .bind (agree_evaluateForms hevalIn (fun values => hcollect _) [] _) fun x => ?_
      obtain ⟨values, _ | e⟩ := x <;> exact .pure _
  | loadFile env path =>
    exact .bind ((Action.congruence_agreeFrom n).loadFile hevalIn env path).caught fun _ => .pure _
  | runFile path =>
    refine .bind .get fun s => ?_
    split
    · exact .pure _
    · split
      · exact .pure _
      · exact .pure _
      · exact .bind (agree_evaluateForms hevalIn (fun values => hcollect _) [] _) fun _ => .pure _

theorem HostProgram.agree_run (hc : c.Refuses) (hc' : c'.Refuses)
    (hcall : call.Related (fun _ => Action.AgreeFrom 1) call') (p : HostProgram) :
    Action.AgreeFrom 1 (p.run c call) (p.run c' call') := by
  induction p with
  | finish result => exact .refl fun _ => by cases result <;> rfl
  | observe next ih => exact .bind .get ih
  | replace environments marks files next ih => exact .bind (.refl fun _ => rfl) fun _ => ih
  | collectGarbage live next ih => exact .bind (hc.agree_collectGarbage hc' live) ih
  | collectIfNeeded live next ih => exact .bind (hc.agree_collectIfNeeded hc' live) ih
  | apply procedure arguments next ih => exact .bind (hcall procedure arguments).caught ih
  | enter e next ih =>
    exact .bind (e.agree_run hcall (hc.agree_collectIfNeeded hc')) ih

/-- Inside evaluations calls do the same whatever serves the requests of host primitives. -/
theorem Hosts.agree_call (hosts : Hosts) (hc : c.Refuses) (hc' : c'.Refuses) (depth : Nat) :
    (hosts.call c depth).Related (fun _ => Action.AgreeFrom 1) (hosts.call c' depth) := by
  induction depth with
  | zero => exact fun procedure arguments => .refl fun _ => rfl
  | succ depth ih =>
    intro procedure arguments
    rw [Hosts.call, Hosts.call]
    cases hosts procedure with
    | some program => exact (program arguments).agree_run hc hc' ih
    | none => exact (Action.congruence_agreeFrom 1).applyWith ih procedure arguments

/-- From outside, too: entries evaluate what they are given inside an evaluation. -/
theorem Hosts.agree_enter (hosts : Hosts) (hc : c.Refuses) (hc' : c'.Refuses) (depth : Nat)
    (e : Entry) (s : Session) :
    hosts.enter c' depth e s = hosts.enter c depth e s ∧
      (hosts.enter c depth e s).2.depth = s.depth := by
  have hcollect (live : List Datum) : Action.AgreeFrom 0
      (Collector.session.collectIfNeeded live) (Collector.session.collectIfNeeded live) :=
    .refl fun s => (s.sameSettings_collectIfNeeded live).depth
  exact e.agree_run (hosts.agree_call hc hc' depth) hcollect s (Nat.zero_le _)

/-- A session in which an evaluation is running answers requests to collect with nothing, and frees
no frame. The host primitives that are applied in an evaluation make their requests only then: what
a collector would do at other times, be it to stop the program, makes no difference to it. Behind an
evaluation the session is evaluating if it was before, however the evaluation ended. -/
theorem Hosts.no_collection_while_evaluating (hosts : Hosts) (depth : Nat) (e : Entry)
    (s : Session) :
    (∀ (t : Session) (live : List Datum), t.isEvaluating →
        t.collectGarbage live = (none, t) ∧ t.collectIfNeeded live = (none, t)) ∧
      (∀ c : Collector, c.Refuses → hosts.enter c depth e s = hosts.enter .session depth e s) ∧
      (hosts.enter .session depth e s).2.isEvaluating = s.isEvaluating := by
  refine ⟨fun t live ht => ?_, fun c hc => ?_, ?_⟩
  · have hdepth : 0 < t.depth := of_decide_eq_true ht
    exact ⟨Session.collectGarbage_of_depth hdepth live,
      Session.collectIfNeeded_of_depth hdepth live⟩
  · exact (hosts.agree_enter Collector.refuses_session hc depth e s).1
  · have hdepth :=
      (hosts.agree_enter Collector.refuses_session Collector.refuses_session depth e s).2
    rw [Session.isEvaluating, hdepth, Session.isEvaluating]

/-- A collector that stops whatever is running when it is asked outside an evaluation. -/
def Collector.alarm : Collector where
  collectGarbage _ := fun s => if s.isEvaluating then (.ok none, s) else (.error .exhausted, s)
  collectIfNeeded _ := fun s => if s.isEvaluating then (.ok none, s) else (.error .exhausted, s)

theorem Collector.refuses_alarm : alarm.Refuses :=
  fun _ _ hs => ⟨if_pos hs, if_pos hs⟩

/-- A collection requested through `apply` is refused, and nothing is stopped. -/
theorem Hosts.no_collection_while_evaluating_applied :
    Collector.alarm.Refuses ∧
      (observers.enter .alarm 2
        (.execute (.application (.constant (.primitive .apply))
          [.constant (.primitive (.host .tryCollect)), .constant .nil]) ⟨0, 0⟩)
        (Session.new 1 fun _ => .error .notFound)).1 = .ok (.value (.ok (.boolean false))) := by
  refine ⟨Collector.refuses_alarm, ?_⟩
  rw [(no_collection_while_evaluating observers 2 _ _).2.1 .alarm Collector.refuses_alarm]
  rfl

end Agreement

end FrameLisp
