import FrameLisp.Session.Files
import FrameLisp.Store.Collection

/-!
# Sessions

What a session keeps from one evaluation to the next: its frames, the marks given out so far, the
files it can load, and how it collects frames. Frames are collected only while nothing is being
evaluated, since a running evaluation may hold handles that no frame refers to.
-/
namespace FrameLisp

open Store

structure Session where
  environments : Environments
  /-- How many frames may be made before the next collection; zero turns collections off. -/
  threshold : Nat
  /-- The number of evaluations that are running inside each other. -/
  depth : Nat
  /-- The next unused mark. -/
  marks : Nat
  files : Files

namespace Session

def defaultThreshold : Nat := 4096

/-- A session with the built-in primitives in its root frame. -/
def new (threshold : Nat) (files : Files) : Session :=
  { environments := Primitive.builtin.foldl
      (fun s p => s.defineGlobal p.name (.primitive p)) Environments.new
    threshold, depth := 0, marks := 0, files }

theorem environments_new (threshold : Nat) (files : Files) :
    (new threshold files).environments =
      Primitive.builtin.foldl (fun s p => s.defineGlobal p.name (.primitive p))
        Environments.new := by
  rw [new]

/-- What holds at first, and whatever built-in primitives were bound. -/
theorem environments_new_induction {motive : Environments → Prop} (threshold : Nat)
    (files : Files) (hnew : motive .new)
    (hbound : ∀ s, motive s → ∀ p ∈ Primitive.builtin,
      motive (s.defineGlobal p.name (.primitive p))) :
    motive (new threshold files).environments := by
  rw [environments_new]
  exact List.foldlRecOn Primitive.builtin _ hnew hbound

def root (s : Session) : Handle := s.environments.root

def isEvaluating (s : Session) : Bool := 0 < s.depth

/-- Frees the frames that neither the root nor the live data reach, unless an evaluation is
running. -/
def collectGarbage (s : Session) (live : List Datum) : Option Nat × Session :=
  if s.isEvaluating then (none, s)
  else
    let (freed, environments) := s.environments.collect (Datum.traceAll live).toList
    (some freed, { s with environments })

/-- Collects once as many frames were made as the threshold says. -/
def collectIfNeeded (s : Session) (live : List Datum) : Option Nat × Session :=
  if s.threshold = 0 ∨ s.environments.allocated < s.threshold then (none, s)
  else s.collectGarbage live

theorem collectGarbage_of_depth {s : Session} (h : 0 < s.depth) (live : List Datum) :
    s.collectGarbage live = (none, s) := by
  rw [collectGarbage, if_pos]
  exact decide_eq_true h

theorem collectIfNeeded_of_depth {s : Session} (h : 0 < s.depth) (live : List Datum) :
    s.collectIfNeeded live = (none, s) := by
  rw [collectIfNeeded, collectGarbage_of_depth h]
  split <;> rfl

/-- Binds a primitive to its name in the root frame. -/
def install (s : Session) (p : Primitive) : Session :=
  { s with environments := s.environments.defineGlobal p.name (.primitive p) }

end Session

end FrameLisp
