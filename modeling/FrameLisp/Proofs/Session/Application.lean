import FrameLisp.Proofs.Eval.Growth
import FrameLisp.Proofs.Session.Hosts

/-!
# Applying procedures directly

A procedure can be called without starting an evaluation. What such a call works with is held by
the call alone: no frame refers to the one it makes. Inside an evaluation requests to collect are
refused, so that a call only adds, whatever host primitives it reaches. Outside, a request is
granted in the middle of the call, which then comes across its own frame reclaimed.
-/
namespace FrameLisp

open Store Source

namespace Hosts

/-- Calls a procedure without counting as an evaluation. -/
def apply (hosts : Hosts) (depth : Nat) (s : Session) (procedure : Datum)
    (arguments : List Datum) : Except Halt Datum × Session :=
  (hosts.call .session depth procedure arguments).runFrom s

theorem apply_observers (depth : Nat) (s : Session) (procedure : Datum) (arguments : List Datum) :
    observers.apply depth s procedure arguments = s.apply depth procedure arguments := by
  rw [apply, call_observers, Session.apply]

end Hosts

/-- The entry holds handles in use only. -/
def Entry.Held (q : Primitive → Prop) (used : Handle → Prop) : Entry → Prop
  | .execute unit env => used env ∧ unit.Within used q
  | .eval d => d.Held q used
  | .evalIn env d => used env ∧ d.Held q used
  | .readEval _ => True
  | .loadFile env _ => used env
  | .runFile _ => True

/-- The values hold handles in use only, and no failure is that a handle outlived its frame. -/
def Answer.Held (q : Primitive → Prop) (used : Handle → Prop) : Answer → Prop
  | .value result => Ends (· ≠ .reclaimed) (Datum.Held q used) result
  | .values result => Ends (· ≠ .eval .reclaimed) (Datum.AllHeld q used) result
  | .loaded result => Ends (· ≠ .reclaimed) (fun _ => True) result
  | .printed shown stopped => Datum.AllHeld q used shown ∧ stopped ≠ some (.eval .reclaimed)

variable {q : Primitive → Prop} {n : Nat} {used : Handle → Prop} {call : Caller}

theorem Failure.ofEval_ne {e : EvalError} (he : e ≠ .reclaimed) :
    Failure.ofEval e ≠ .eval .reclaimed := by
  cases e with
  | reclaimed => exact absurd rfl he
  | _ => simp [ofEval]

section Entries

theorem grows_evaluateForms {evaluate : Evaluator} (he : evaluate.Grows q n)
    {settle : List Datum → Action (Option Nat)}
    (hsettle : ∀ values used, (settle values).Grows q n used fun _ _ => True)
    {values data : List Datum} (hvalues : Datum.AllHeld q used values)
    (hd : ∀ d ∈ data, d.Plain) :
    (evaluateForms evaluate settle values data).Grows q n used fun used x =>
      Datum.AllHeld q used x.1 ∧ x.2 ≠ some (.eval .reclaimed) := by
  induction data generalizing used values with
  | nil => exact .pure ⟨hvalues, by simp⟩
  | cons d data ih =>
    obtain ⟨hhead, htail⟩ := List.forall_mem_cons.1 hd
    refine .bind .get fun used₁ hle₁ s hs => ?_
    refine .bind (.caught (he hs.root hhead.held)) fun used₂ hle₂ x hx => ?_
    have hvalues₂ : Datum.AllHeld q used₂ values := (hvalues.mono hle₁).mono hle₂
    cases hx with
    | error he => exact .pure ⟨hvalues₂, fun h => Failure.ofEval_ne he (Option.some.inj h)⟩
    | @ok value hvalue =>
      have hall : Datum.AllHeld q used₂ (value :: values) :=
        List.forall_mem_cons.2 ⟨hvalue, hvalues₂⟩
      refine .bind (hsettle (value :: values) used₂) fun used₃ hle₃ _ _ => ?_
      exact ih (hall.mono hle₃) htail

/-- Between the forms nothing is collected while an evaluation is running. -/
theorem grows_collectIfNeeded (hn : 0 < n) (live : List Datum) (used : Handle → Prop) :
    (Collector.session.collectIfNeeded live).Grows q n used fun _ _ => True := by
  refine .of_runFrom fun s hs hsound => ?_
  have hrefused : (Collector.session.collectIfNeeded live).runFrom s = (.ok none, s) :=
    congrArg (fun x => (Except.ok x.1, x.2)) (s.collectIfNeeded_of_depth (hn.trans_le hs) live)
  rw [hrefused]
  exact ⟨.refl hsound, .ok trivial⟩

theorem Entry.grows_run (hn : 0 < n) (hcall : call.Grows q n) (e : Entry) (he : e.Held q used) :
    (e.run .session call).Grows q n used (Answer.Held q) := by
  have heval : (Datum.evalIn call).Grows q n := Datum.grows_evalIn hcall
  cases e with
  | execute unit env =>
    have hunit := Code.grows_run hcall unit he.1 he.2
    exact .bind (.caught (.evaluating hunit)) fun _ _ _ hx => .pure hx
  | eval d =>
    refine .bind .get fun used₁ hle s hs => ?_
    exact .bind (.caught (heval hs.root (Datum.Held.mono he hle))) fun _ _ _ hx => .pure hx
  | evalIn env d => exact .bind (.caught (heval he.1 he.2)) fun _ _ _ hx => .pure hx
  | loadFile env path =>
    exact .bind (.caught (grows_loadFile heval he path)) fun _ _ _ hx => .pure hx
  | readEval source =>
    simp only [Entry.run]
    cases hp : Program.ofString source with
    | error e => exact .pure (.error (by simp))
    | ok program =>
      refine .bind (grows_evaluateForms heval
        (fun values used => grows_collectIfNeeded hn values.reverse used)
        (fun _ hd => absurd hd List.not_mem_nil) (plain_of_ofString hp)) fun used₁ _ x hx => ?_
      obtain ⟨values, _ | f⟩ := x
      · exact .pure (.ok fun d hd => hx.1 d (List.mem_reverse.1 hd))
      · exact .pure (.error fun h => hx.2 (congrArg some h))
  | runFile path =>
    refine .bind .get fun used₁ _ s _ => ?_
    cases s.files path with
    | error f => exact .pure ⟨fun _ hd => absurd hd List.not_mem_nil, by simp⟩
    | ok bytes =>
      dsimp only
      cases hp : Program.ofStream bytes with
      | error f =>
        cases f with
        | _ => exact .pure ⟨fun _ hd => absurd hd List.not_mem_nil, by simp⟩
      | ok program =>
        exact .bind (grows_evaluateForms heval (fun _ used => grows_collectIfNeeded hn [] used)
          (fun _ hd => absurd hd List.not_mem_nil) (plain_of_ofStream hp)) fun _ _ _ hx => .pure hx

end Entries

/-- In a session where these handles are in use, the program works with those only, and with what
it is answered, and it takes nothing away from the frames. Its requests to collect are refused. -/
def HostProgram.Careful (q : Primitive → Prop) : HostProgram → (Handle → Prop) → Session → Prop
  | .finish result, used, _ => Ends (· ≠ .failed .reclaimed) (Datum.Held q used) result
  | .observe next, used, s => (next s).Careful q used s
  | .replace environments marks files next, used, s =>
    ∃ used', s.Grows q used used' { s with environments, marks, files } ∧
      next.Careful q used' { s with environments, marks, files }
  | .collectGarbage _ next, used, s => (next none).Careful q used s
  | .collectIfNeeded _ next, used, s => (next none).Careful q used s
  | .apply procedure arguments next, used, s =>
    procedure.Held q used ∧ Datum.AllHeld q used arguments ∧
      ∀ used' t answer, s.Grows q used used' t →
        Ends (· ≠ .reclaimed) (Datum.Held q used') answer → (next answer).Careful q used' t
  | .enter entry next, used, s =>
    entry.Held q used ∧ ∀ used' t answer, s.Grows q used used' t → answer.Held q used' →
      (next answer).Careful q used' t

/-- Whatever handles are in use while an evaluation is running, the primitives of the host work
with those only. -/
def Hosts.Careful (hosts : Hosts) (q : Primitive → Prop) : Prop :=
  ∀ {procedure program}, hosts procedure = some program → ∀ {used s arguments}, 0 < s.depth →
    s.environments.Sustains used q → procedure.Held q used → Datum.AllHeld q used arguments →
    (program arguments).Careful q used s

theorem HostProgram.growsFrom_run (hcall : call.Grows q 1) (p : HostProgram) {s : Session}
    (hs : 0 < s.depth) (hsound : s.environments.Sustains used q) (hp : p.Careful q used s) :
    (p.run .session call).GrowsFrom q used s (Datum.Held q) := by
  induction p generalizing used s with
  | finish result =>
    cases result with
    | error halt | ok value => exact ⟨used, .refl hsound, hp⟩
  | observe next ih => exact ih s hs hsound hp
  | replace environments marks files next ih =>
    obtain ⟨used₁, hst, hnext⟩ := hp
    obtain ⟨used₂, htu, hend⟩ := ih (s := { s with environments, marks, files }) hs hst.sustains
      hnext
    exact ⟨used₂, hst.trans htu, hend⟩
  | collectGarbage live next ih =>
    rw [Action.GrowsFrom, run, Action.runFrom_bind, Collector.session, Action.runFrom_modifyGet,
      s.collectGarbage_of_depth hs live]
    exact ih none hs hsound hp
  | collectIfNeeded live next ih =>
    rw [Action.GrowsFrom, run, Action.runFrom_bind, Collector.session, Action.runFrom_modifyGet,
      s.collectIfNeeded_of_depth hs live]
    exact ih none hs hsound hp
  | apply procedure arguments next ih =>
    obtain ⟨hprocedure, harguments, hnext⟩ := hp
    have happly := (hcall hprocedure harguments).caught s hs hsound
    refine happly.bind fun used' t answer hst hanswer => ?_
    exact ih answer (hst.depth ▸ hs) hst.sustains (hnext used' t answer hst hanswer)
  | enter entry next ih =>
    obtain ⟨hentry, hnext⟩ := hp
    have henter := entry.grows_run Nat.one_pos hcall hentry s hs hsound
    refine henter.bind fun used' t answer hst hanswer => ?_
    exact ih answer (hst.depth ▸ hs) hst.sustains (hnext used' t answer hst hanswer)

namespace Hosts

/-- Calls go back and forth between procedures and primitives of the host; both only add. -/
theorem Careful.grows_call {hosts : Hosts} (h : hosts.Careful q) (depth : Nat) :
    (hosts.call .session depth).Grows q 1 := by
  induction depth with
  | zero =>
    intro used procedure arguments _ _
    exact .exhausted
  | succ depth ih =>
    intro used procedure arguments hp ha
    rw [call]
    split
    · next program hprogram =>
      intro s hs hsound
      exact (program arguments).growsFrom_run ih hs hsound (h hprogram hs hsound hp ha)
    · exact grows_applyWith (fun _ _ => Nat.one_pos) ih hp ha

/-- Primitives that only observe and request collections return no frame. -/
theorem careful_observers : observers.Careful q := by
  intro procedure program hprogram used s arguments _ _ _ _
  cases procedure with
  | primitive p =>
    cases p with
    | host p =>
      obtain rfl := Option.some.inj hprogram
      unfold HostPrimitive.program
      split
      · exact .error (by simp)
      · cases p with
        | tryCollect | collectIfNeeded | frameCount | allocatedCount | isEvaluating =>
          exact .ok trivial
    | _ => cases hprogram
  | _ => cases hprogram

end Hosts

section Collectable

/-- In a new session only the root is in use. -/
theorem Session.sustains_new (threshold : Nat) (files : Files) (hq : ∀ p ∈ Primitive.builtin, q p) :
    (new threshold files).environments.Sustains (· = Environments.new.root) q := by
  exact environments_new_induction (motive := fun s => s.Sustains (· = Environments.new.root) q)
    threshold files Environments.sustains_new fun _ hs p hp => hs.defineGlobal p.name (hq p hp)

theorem Session.sustains_install {s : Session} (hs : s.environments.Sustains used q)
    {p : Primitive} (hp : q p) : (s.install p).environments.Sustains used q := by
  rw [install]
  exact hs.defineGlobal p.name hp

/-- A session with so many evaluations running in which programs can request collections. -/
def collectable (depth : Nat) : Session :=
  { (Session.new 1 fun _ => .error .notFound).install (.host .tryCollect) with depth }

/-- The procedure `(lambda (x) (try-collect) x)` in a frame. -/
def collecting (env : Handle) : Datum :=
  .closure 0 (.mk none ⟨["x"], none⟩
    (.sequence [.application (.variable "try-collect") [], .variable "x"])) env

theorem sustains_collectable (depth : Nat) :
    (collectable depth).environments.Sustains (· = Environments.new.root) fun _ => True := by
  simp only [collectable]
  exact Session.sustains_install (Session.sustains_new 1 _ fun _ _ => trivial) trivial

/-- All that a call of the procedure is given is live. -/
theorem contains_of_reachable_collecting (depth : Nat) (h : Handle)
    (hr : (collectable depth).environments.Reachable (Datum.traceAll
      [collecting (collectable depth).root, .number (.ofInt 1)]).toList h) :
    (collectable depth).environments.frames.contains h = true := by
  have hs := sustains_collectable depth
  refine hs.contains (hs.used_of_reachable (fun k hk => ?_) hr)
  obtain ⟨d, hd, hm⟩ := Datum.mem_traceAll_iff.1 (Array.mem_toList_iff.1 hk)
  simp only [List.mem_cons, List.not_mem_nil, or_false] at hd
  rcases hd with rfl | rfl
  · have hheld : (collecting (collectable depth).root).Within (· = (collectable depth).root)
        fun _ => True := by
      simp [collecting]
    exact (hheld.mentions hm).trans hs.root
  · cases hm

end Collectable

namespace Hosts

/-- While an evaluation is running, a call of a procedure reclaims no frame at all, so that it never
comes across a reclaimed one, and what it returns leads to live frames only. -/
theorem Careful.apply_keeps {hosts : Hosts} (hhosts : hosts.Careful fun _ => True) (depth : Nat)
    {s : Session} (harena : s.environments.frames.Sound) (heval : s.isEvaluating = true)
    {procedure : Datum} {arguments : List Datum}
    (hlive : ∀ h, s.environments.Reachable (Datum.traceAll (procedure :: arguments)).toList h →
      s.environments.frames.contains h = true) :
    ∃ result t, hosts.apply depth s procedure arguments = (result, t) ∧
      (∀ h f, s.environments.frames.get? h = some f →
        ∃ g, t.environments.frames.get? h = some g ∧ f.Keeps g) ∧
      Ends (· ≠ .failed .reclaimed) (fun value => ∀ h,
        t.environments.Reachable (value.trace #[]).toList h →
        t.environments.frames.contains h = true) result := by
  have hsound := Environments.sustains_reachable harena hlive
  have hheld : Datum.AllHeld (fun _ => True) (s.environments.Reachable
      (Datum.traceAll (procedure :: arguments)).toList) (procedure :: arguments) := by
    intro d hd
    refine (Datum.within_true d).of_mentions fun h hm => .live ?_
    exact Array.mem_toList_iff.2 (Datum.mem_traceAll_iff.2 ⟨d, hd, hm⟩)
  obtain ⟨hprocedure, harguments⟩ := List.forall_mem_cons.1 hheld
  obtain ⟨used, hst, hend⟩ := hhosts.grows_call depth hprocedure harguments s
    (of_decide_eq_true heval) hsound
  rcases hrun : (hosts.call .session depth procedure arguments).runFrom s with ⟨result, t⟩
  rw [hrun] at hst hend
  refine ⟨result, t, hrun, hst.environments.kept, ?_⟩
  cases hend with
  | error he => exact .error he
  | ok hvalue =>
    refine .ok fun h hr => hst.sustains.contains (hst.sustains.used_of_reachable ?_ hr)
    intro k hk
    exact hvalue.mentions (((Datum.mem_trace_iff _ #[]).1 (Array.mem_toList_iff.1 hk)).resolve_left
      (Array.not_mem_empty k))

/-- Inside an evaluation the procedure that requests a collection returns its argument. -/
theorem Careful.apply_keeps_collecting :
    ∃ t, observers.apply 2 (collectable 1) (collecting (collectable 1).root)
        [.number (.ofInt 1)] = (.ok (.number (.ofInt 1)), t) ∧
      ∀ h f, (collectable 1).environments.frames.get? h = some f →
        ∃ g, t.environments.frames.get? h = some g ∧ f.Keeps g := by
  obtain ⟨result, t, ht, hkept, -⟩ := careful_observers.apply_keeps 2 (sustains_collectable 1).arena
    rfl (contains_of_reachable_collecting 1)
  have hresult : result = .ok (.number (.ofInt 1)) := by
    refine (congrArg Prod.fst ht).symm.trans ?_
    rw [apply_observers]
    cbv
  exact ⟨t, hresult ▸ ht, hkept⟩

/-- Outside an evaluation the same procedure comes across its own frame reclaimed, though all that
the call was given is live. -/
theorem apply_collecting_reclaimed :
    observers.Careful (fun _ => True) ∧ (collectable 0).environments.frames.Sound ∧
    (∀ h, (collectable 0).environments.Reachable
      (Datum.traceAll [collecting (collectable 0).root, .number (.ofInt 1)]).toList h →
      (collectable 0).environments.frames.contains h = true) ∧
    (observers.apply 2 (collectable 0) (collecting (collectable 0).root)
      [.number (.ofInt 1)]).1 = .error (.failed .reclaimed) := by
  refine ⟨careful_observers, (sustains_collectable 0).arena,
    contains_of_reachable_collecting 0, ?_⟩
  rw [apply_observers]
  cbv

end Hosts

end FrameLisp
