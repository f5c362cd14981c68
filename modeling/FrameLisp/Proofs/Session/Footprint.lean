import FrameLisp.Proofs.Eval.Confinement
import FrameLisp.Proofs.Store.Evolution

/-!
# What an execution can touch

With only the built-in primitives nothing is collected while a unit is executed, and the execution
works with what it is given: the frames that the root, its own frame and the constants of the unit
lead to, and those that it makes. It leaves all other frames as they are, and neither its frame nor
its result leads to any of them afterwards. Handles may have outlived their frames throughout.
-/
namespace FrameLisp

open Store

/-- Nothing is said of which handles are live, and environments evolve by as many new frames as are
counted. -/
def Discipline.builtin : Discipline where
  primitives := Primitive.IsBuiltin
  running := 0
  live := False
  Changes k s t := s.Evolves k t
  refl _ := .refl
  trans h h' := h.trans h'
  define _ env name value := .define env name value .refl
  assign _ env name value := .assign env name value .refl
  extend _ parent p arguments mark hfault := .extend parent p arguments mark .refl hfault

theorem Primitive.harmless_builtin (n : Nat) : Harmless IsBuiltin n := by
  intro p hp
  simp [IsBuiltin, builtin] at hp

/-- No primitives occur in the datum but the built-in ones. -/
abbrev Datum.Builtin (d : Datum) : Prop := d.Within (fun _ => True) Primitive.IsBuiltin

/-- No primitives occur in the constants of the code but the built-in ones. -/
abbrev Code.Builtin (c : Code) : Prop := c.Within (fun _ => True) Primitive.IsBuiltin

/-- A session whose frames hold no primitives but the built-in ones. -/
structure Session.Builtin (s : Session) : Prop where
  reached : s.environments.Reached
  holds : s.environments.Holds Primitive.IsBuiltin

variable {used used' : Handle → Prop} {s t : Session} {unit : Code} {env : Handle} {depth : Nat}

section Builtin

theorem Session.Builtin.sound (h : s.Builtin) :
    Discipline.builtin.Sound (fun _ => True) s.environments :=
  h.holds.confines h.reached.scoped.arena

theorem Session.Heeds.builtin {k : Nat} (h : s.Heeds .builtin k used used' t)
    (hall : ∀ k, used k) (hs : s.Builtin) : t.Builtin where
  reached := h.changes.reached hs.reached
  holds := h.sound.holds fun k => h.environments.stays k (hall k)

theorem Session.builtin_new (threshold : Nat) (files : Files) : (new threshold files).Builtin := by
  have hsound : (new threshold files).environments.Confines False (fun _ => True)
      Primitive.IsBuiltin :=
    environments_new_induction
      (motive := fun s => s.Confines False (fun _ => True) Primitive.IsBuiltin) threshold files
      (Environments.confines_new trivial False.elim) fun _ hs p hp => hs.defineGlobal p.name hp
  refine ⟨?_, hsound.holds fun _ => trivial⟩
  exact environments_new_induction threshold files .new fun _ hs p _ => hs.defineGlobal p.name _

end Builtin

section Executions

/-- A unit counting its frames, as a part of a running evaluation and as one of its own. -/
def Code.executions (unit : Code) (depth : Nat) (env : Handle) : List (Tallied Datum) :=
  [Tallied.run (Tallied.call depth) env unit,
    Tallied.evaluating (Tallied.run (Tallied.call depth) env unit)]

/-- Without the counts these are the two ways to execute the unit. -/
theorem Code.action_executions (unit : Code) (depth : Nat) (env : Handle) :
    (unit.executions depth env).map Tallied.action =
      [unit.run (call depth) env, Action.evaluating (unit.run (call depth) env)] := by
  simp only [executions, List.map_cons, List.map_nil, Tallied.evaluating, Tallied.action_run_call]

theorem Tallied.heeds_builtin_call (depth : Nat) : Caller.Heeds .builtin (call depth) :=
  heeds_call (Primitive.harmless_builtin 0) depth

theorem Tallied.heeds_builtin_evalIn (depth : Nat) :
    Evaluator.Heeds .builtin (evalIn (call depth)) :=
  heeds_evalIn (heeds_builtin_call depth)

theorem Code.heeds_run_call (henv : used env) (hunit : unit.Within used Primitive.IsBuiltin) :
    (Tallied.run (Tallied.call depth) env unit).Heeds .builtin used (Discipline.Held .builtin) :=
  Tallied.heeds_run (Tallied.heeds_builtin_call depth) unit henv hunit

theorem Code.heeds_executions (henv : used env) (hunit : unit.Within used Primitive.IsBuiltin)
    {a : Tallied Datum} (ha : a ∈ unit.executions depth env) :
    a.Heeds .builtin used (Discipline.Held .builtin) := by
  simp only [executions, List.mem_cons, List.not_mem_nil, or_false] at ha
  rcases ha with rfl | rfl
  · exact heeds_run_call henv hunit
  · exact .evaluating (heeds_run_call henv hunit)

end Executions

/-- The handles in the value that an execution ends with, if it ends with one. -/
def Action.handles : Except Halt Datum → List Handle
  | .ok value => (value.trace #[]).toList
  | .error _ => []

/-- The session stays one with the built-in primitives only. -/
theorem Session.Builtin.execute (hs : s.Builtin)
    (hunit : unit.Builtin) (depth : Nat) (env : Handle) :
    ((unit.run (call depth) env).runFrom s).2.Builtin := by
  obtain ⟨used', hst, -⟩ := Code.heeds_run_call trivial hunit s
    s.depth.zero_le hs.sound
  rw [Tallied.action_run_call] at hst
  exact hst.builtin (fun _ => trivial) hs

/-- A new session in which `((lambda (x) x) #t)` was executed, which left a frame behind. -/
def littered : Session :=
  ((Code.run (call 1) Environments.new.root (.application
    (.lambda (.mk none ⟨["x"], none⟩ (.variable "x"))) [.constant (.boolean true)])).runFrom
      (Session.new 0 fun _ => .error .notFound)).2

/-- The unit `((lambda (x) (lambda () x)) ())`, which returns a procedure made in a new frame. -/
def capturing : Code :=
  .application (.lambda (.mk none ⟨["x"], none⟩ (.lambda (.mk none ⟨[], none⟩ (.variable "x")))))
    [.constant .nil]

theorem builtin_littered : littered.Builtin :=
  (Session.builtin_new 0 fun _ => .error .notFound).execute (by simp) 1 Environments.new.root

theorem builtin_capturing : capturing.Builtin := by simp [capturing]

end FrameLisp
