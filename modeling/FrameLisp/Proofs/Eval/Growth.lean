import FrameLisp.Proofs.Eval.Confinement
import FrameLisp.Session.Host

/-!
# Evaluations only add

Whatever is evaluated holds handles in use only. Frames are made and bindings change, but every
frame stays, as long as requests to collect are refused: either nothing within reach makes one, or
an evaluation is running meanwhile. No evaluation then comes across a handle whose frame is gone.
-/
namespace FrameLisp

open Store Source

/-- How a session changes while handles are in use; what is in use afterwards is sound again. -/
structure Session.Grows (q : Primitive → Prop) (used used' : Handle → Prop) (s t : Session) :
    Prop where
  environments : s.environments.Grows used used' t.environments
  sustains : t.environments.Sustains used' q
  depth : t.depth = s.depth

variable {q : Primitive → Prop} {n : Nat} {used used' used'' : Handle → Prop}

theorem Session.Grows.refl {s : Session} (h : s.environments.Sustains used q) :
    s.Grows q used used s :=
  ⟨.refl used s.environments, h, rfl⟩

theorem Session.Grows.trans {s t u : Session} (h : s.Grows q used used' t)
    (h' : t.Grows q used' used'' u) : s.Grows q used used'' u :=
  ⟨h.environments.trans h'.environments, h'.sustains, h'.depth.trans h.depth⟩

namespace Action

variable {α β : Type} {r : (Handle → Prop) → α → Prop} {r' : (Handle → Prop) → β → Prop}

/-- Run in the session, the action only adds, and ends with a value that has the property or with
an error other than that a handle outlived its frame. -/
def GrowsFrom (q : Primitive → Prop) (used : Handle → Prop) (s : Session)
    (r : (Handle → Prop) → α → Prop) (a : Action α) : Prop :=
  ∃ used', s.Grows q used used' (a.runFrom s).2 ∧
    Ends (· ≠ Halt.failed .reclaimed) (r used') (a.runFrom s).1

/-- What follows is done in the session that is left, with more handles in use. -/
theorem GrowsFrom.bind {s : Session} {a : Action α} {f : α → Action β}
    (ha : a.GrowsFrom q used s r)
    (hf : ∀ used' t x, s.Grows q used used' t → r used' x → (f x).GrowsFrom q used' t r') :
    (a >>= f).GrowsFrom q used s r' := by
  obtain ⟨used', hst, hend⟩ := ha
  rw [GrowsFrom, runFrom_bind]
  generalize a.runFrom s = x at hst hend
  obtain ⟨x, t⟩ := x
  cases hend with
  | error he => exact ⟨used', hst, .error he⟩
  | ok hx =>
    obtain ⟨used'', htu, hend⟩ := hf used' t _ hst hx
    exact ⟨used'', hst.trans htu, hend⟩

/-- The action only adds whenever at least `n` evaluations are running. -/
def Grows (q : Primitive → Prop) (n : Nat) (used : Handle → Prop) (r : (Handle → Prop) → α → Prop)
    (a : Action α) : Prop :=
  ∀ s, n ≤ s.depth → s.environments.Sustains used q → a.GrowsFrom q used s r

/-- An action that makes no frame. -/
theorem Grows.of_runFrom {a : Action α} (h : ∀ s, n ≤ s.depth → s.environments.Sustains used q →
    s.Grows q used used (a.runFrom s).2 ∧
      Ends (· ≠ Halt.failed .reclaimed) (r used) (a.runFrom s).1) :
    a.Grows q n used r :=
  fun s hn hs => ⟨used, h s hn hs⟩

theorem Grows.pure {x : α} (hx : r used x) : Grows q n used r (Pure.pure x) :=
  .of_runFrom fun _ _ hs => ⟨.refl hs, .ok hx⟩

theorem Grows.exhausted : Grows q n used r (throw .exhausted) :=
  .of_runFrom fun _ _ hs => ⟨.refl hs, .error (by simp)⟩

theorem Grows.bind {a : Action α} {f : α → Action β} (ha : a.Grows q n used r)
    (hf : ∀ used', (∀ h, used h → used' h) → ∀ x, r used' x → (f x).Grows q n used' r') :
    (a >>= f).Grows q n used r' := by
  intro s hn hs
  refine (ha s hn hs).bind fun used' t x hst hx => ?_
  have hdepth : t.depth = s.depth := hst.depth
  exact hf used' hst.environments.stays x hx t (hdepth ▸ hn) hst.sustains

theorem Grows.get :
    Grows q n used (fun used s => s.environments.Sustains used q) MonadState.get :=
  .of_runFrom fun _ _ hs => ⟨.refl hs, .ok hs⟩

/-- Inside, one more evaluation is running. -/
theorem Grows.evaluating {a : Action α} (ha : a.Grows q n used r) :
    (evaluating a).Grows q n used r := by
  intro s hn hs
  obtain ⟨used', hst, hend⟩ := ha { s with depth := s.depth + 1 } (Nat.le_succ_of_le hn) hs
  exact ⟨used', ⟨hst.environments, hst.sustains, congrArg (· - 1) hst.depth⟩, hend⟩

/-- An error that is taken as a value. -/
theorem Grows.caught {a : Action α} (ha : a.Grows q n used r) :
    a.caught.Grows q n used fun used x => Ends (· ≠ EvalError.reclaimed) (r used) x := by
  intro s hn hs
  obtain ⟨used', hst, hend⟩ := ha s hn hs
  rw [GrowsFrom, runFrom_caught]
  generalize a.runFrom s = x at hst hend
  obtain ⟨x, t⟩ := x
  refine ⟨used', ?_⟩
  cases hend with
  | ok hx => exact ⟨hst, .ok (.ok hx)⟩
  | @error e he =>
    cases e with
    | failed e => exact ⟨hst, .ok (.error (he ∘ congrArg Halt.failed))⟩
    | exhausted => exact ⟨hst, .error he⟩

end Action

/-- Calls of procedures in use only add. -/
def Caller.Grows (q : Primitive → Prop) (n : Nat) (call : Caller) : Prop :=
  ∀ {used procedure arguments}, Datum.Held q used procedure → Datum.AllHeld q used arguments →
    (call procedure arguments).Grows q n used (Datum.Held q)

/-- Evaluations of data in use in frames in use only add. -/
def Evaluator.Grows (q : Primitive → Prop) (n : Nat) (evaluate : Evaluator) : Prop :=
  ∀ {used env d}, used env → Datum.Held q used d →
    (evaluate env d).Grows q n used (Datum.Held q)

section Disciplines

/-- All that is in use is live, and environments may change in any way besides. -/
def Discipline.keeping (q : Primitive → Prop) (n : Nat) : Discipline where
  primitives := q
  running := n
  live := True
  Changes _ _ _ := True
  refl _ := trivial
  trans _ _ := trivial
  define _ _ _ _ := trivial
  assign _ _ _ _ := trivial
  extend _ _ _ _ _ _ := trivial

variable {α : Type} {r : (Handle → Prop) → α → Prop}

theorem Session.heeds_keeping_iff {k : Nat} {s t : Session} :
    s.Heeds (.keeping q n) k used used' t ↔ s.Grows q used used' t :=
  ⟨fun h => ⟨h.environments, Environments.sustains_iff.2 h.sound, h.depth⟩,
    fun h => ⟨h.environments, Environments.sustains_iff.1 h.sustains, trivial, h.depth⟩⟩

/-- To only add is to heed this discipline, however many frames are counted. -/
theorem Tallied.heeds_keeping_iff {a : Tallied α} :
    a.Heeds (.keeping q n) used r ↔ a.action.Grows q n used r := by
  constructor
  · intro h s hn hs
    obtain ⟨used', hst, hend⟩ := h s hn (Environments.sustains_iff.1 hs)
    refine ⟨used', Session.heeds_keeping_iff.1 hst, hend.imp (fun halt hhalt => ?_) fun _ hx => hx⟩
    rintro rfl
    exact hhalt _ rfl trivial rfl
  · intro h s hn hs
    obtain ⟨used', hst, hend⟩ := h s hn (Environments.sustains_iff.2 hs)
    refine ⟨used', Session.heeds_keeping_iff.2 hst, hend.imp (fun halt hhalt => ?_) fun _ hx => hx⟩
    rintro e rfl _ rfl
    exact hhalt rfl

end Disciplines

variable {call : Caller} {evaluate : Evaluator}

/-- Calls of which none counts. -/
def Caller.uncounted (call : Caller) : Tallied.Caller := fun procedure arguments =>
  .quiet (call procedure arguments)

theorem Caller.Grows.heeds (h : call.Grows q n) : call.uncounted.Heeds (.keeping q n) :=
  fun hp ha => Tallied.heeds_keeping_iff.2 (h hp ha)

theorem Code.grows_run (hcall : call.Grows q n) (c : Code) {env : Handle} (henv : used env)
    (hc : c.Within used q) : (run call env c).Grows q n used (Datum.Held q) := by
  have h := Tallied.heeds_keeping_iff.1 (Tallied.heeds_run hcall.heeds c henv hc)
  rwa [Tallied.action_run] at h

theorem Datum.grows_evalIn (hcall : call.Grows q n) : (Datum.evalIn call).Grows q n := by
  intro used env d henv hd
  have h : ((Tallied.evalIn call.uncounted).action env d).Grows q n used (Datum.Held q) :=
    Tallied.heeds_keeping_iff.1 (Tallied.heeds_evalIn hcall.heeds henv hd)
  rwa [Tallied.action_evalIn] at h

theorem grows_loadFile (he : evaluate.Grows q n) {env : Handle} (henv : used env) (path : String) :
    (loadFile evaluate env path).Grows q n used fun _ _ => True := by
  have hquiet : Tallied.Evaluator.Heeds (.keeping q n) fun env d => .quiet (evaluate env d) :=
    fun henv hd => Tallied.heeds_keeping_iff.2 (he henv hd)
  have h := Tallied.heeds_keeping_iff.1 (Tallied.heeds_loadFile hquiet henv path)
  rwa [Tallied.action_loadFile] at h

theorem grows_applyWith (hq : Primitive.Harmless q n) (hcall : call.Grows q n) :
    (applyWith call).Grows q n := by
  intro used procedure arguments hp ha
  have h : ((Tallied.applyWith call.uncounted).action procedure arguments).Grows q n used
      (Datum.Held q) :=
    Tallied.heeds_keeping_iff.1 (Tallied.heeds_applyWith hq hcall.heeds hp ha)
  rwa [Tallied.action_applyWith] at h

end FrameLisp
