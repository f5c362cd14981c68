import FrameLisp.Datum.Chain
import FrameLisp.Eval.Error
import FrameLisp.Store.Frame

/-!
# Environments

All frames of a session. The root frame has no parent; every other frame is extended from one that
was live. A name is looked up along the parents, and the nearest frame that binds it decides.

Every operation hands back the environments also when it fails, and then they are unchanged.
-/
namespace FrameLisp.Store

structure Environments where
  frames : Arena Frame
  root : Handle
  /-- Frames made since the last collection. -/
  allocated : Nat

namespace Environments

def new : Environments :=
  let (root, frames) := Arena.empty.alloc (Frame.empty none)
  ⟨frames, root, 0⟩

/-- The number of live frames. -/
def size (s : Environments) : Nat := s.frames.size

def isEmpty (s : Environments) : Bool := s.frames.isEmpty

def frame (s : Environments) (env : Handle) : Except EvalError Frame :=
  match s.frames.get? env with
  | some f => .ok f
  | none => .error .reclaimed

/-- Binds parameters to arguments by position; the surplus becomes a list of new pairs. -/
def bind (p : Parameters) (arguments : List Datum) (mark : Nat) : Bindings × Nat :=
  let required := Bindings.insertAll [] p.required arguments
  match p.rest with
  | none => (required, mark)
  | some rest =>
    let (surplus, mark) := Datum.markedList mark (arguments.drop p.required.length)
    (required.insert rest surplus, mark)

/-- Why a frame cannot be extended, if it cannot: it has to be live and the number of arguments
has to fit. -/
def extendFault? (s : Environments) (parent : Handle) (p : Parameters) (count : Nat) :
    Option EvalError :=
  if s.frames.contains parent then (p.arity.mismatch? count).map .arity
  else some .reclaimed

/-- Makes a child of a frame. -/
def extend (s : Environments) (parent : Handle) (bindings : Bindings) : Handle × Environments :=
  let ⟨frames, root, allocated⟩ := s
  let (h, frames) := frames.alloc ⟨bindings, some parent⟩
  (h, ⟨frames, root, allocated + 1⟩)

/-- Gives a live frame a binding. -/
def bindIn (s : Environments) (env : Handle) (f : Frame) (name : String) (value : Datum) :
    Environments :=
  { s with frames := s.frames.set env { f with bindings := f.bindings.insert name value } }

/-- Binds a name in a frame itself. -/
def define (s : Environments) (env : Handle) (name : String) (value : Datum) :
    Except EvalError Unit × Environments :=
  match s.frames.get? env with
  | some f => (.ok (), s.bindIn env f name value)
  | none => (.error .reclaimed, s)

def defineGlobal (s : Environments) (name : String) (value : Datum) : Environments :=
  (s.define s.root name value).2

/-- The nearest frame from `env` on that binds a name, and its value there. Parents do not repeat,
so `steps` beyond the number of slots is never needed. -/
def nearestFrom (s : Environments) (name : String) :
    Nat → Handle → Except EvalError (Handle × Frame × Datum)
  | 0, _ => .error (.unbound name)
  | steps + 1, env =>
    match s.frames.get? env with
    | none => .error .reclaimed
    | some f =>
      match f.bindings.find? name with
      | some value => .ok (env, f, value)
      | none =>
        match f.parent with
        | some parent => nearestFrom s name steps parent
        | none => .error (.unbound name)

def nearest (s : Environments) (env : Handle) (name : String) :
    Except EvalError (Handle × Frame × Datum) :=
  s.nearestFrom name (s.frames.slots.size + 1) env

def lookup (s : Environments) (env : Handle) (name : String) : Except EvalError Datum :=
  match s.nearest env name with
  | .ok (_, _, value) => .ok value
  | .error e => .error e

/-- Replaces the binding in the nearest frame that has one. -/
def assign (s : Environments) (env : Handle) (name : String) (value : Datum) :
    Except EvalError Unit × Environments :=
  match s.nearest env name with
  | .ok (owner, f, _) => (.ok (), s.bindIn owner f name value)
  | .error e => (.error e, s)

end Environments

end FrameLisp.Store
