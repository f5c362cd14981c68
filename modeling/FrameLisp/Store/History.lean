import FrameLisp.Store.Collection

/-!
# Histories of stores

What an arena and the environments can have become. The history of an arena comes with a ledger
of all handles that were ever given out, in which the present value of each can be looked up.
-/
namespace FrameLisp.Store

/-- The handles given out so far, the latest first, with the elements that are still stored under
them. -/
abbrev Ledger (α : Type) := List (Handle × Option α)

namespace Ledger

variable {α : Type}

def handles (l : Ledger α) : List Handle := l.map Prod.fst

def get? (l : Ledger α) (h : Handle) : Option α := (l.lookup h).join

/-- Changes what is stored under a handle. -/
def update (l : Ledger α) (f : Handle → Option α → Option α) : Ledger α :=
  l.map fun (h, value) => (h, f h value)

/-- The handles whose elements are still stored. -/
def live (l : Ledger α) : List Handle := (l.filter fun entry => entry.2.isSome).map Prod.fst

/-- How often a slot was filled. -/
def uses (l : Ledger α) (index : Nat) : Nat := (l.handles.filter fun h => h.index = index).length

@[simp] theorem handles_update (l : Ledger α) (f : Handle → Option α → Option α) :
    (l.update f).handles = l.handles := by
  simp [handles, update, Function.comp_def]

end Ledger

/-- An arena that began empty, with the ledger of what happened to it. -/
inductive Arena.History {α : Type} : Arena α → Ledger α → Prop
  | empty : Arena.History .empty []
  | alloc {a l} (value : α) : Arena.History a l →
      Arena.History (a.alloc value).2 (((a.alloc value).1, some value) :: l)
  | set {a l} (h : Handle) (value : α) : Arena.History a l →
      Arena.History (a.set h value)
        (l.update fun k old => if k = h then old.map fun _ => value else old)
  | remove {a l} (h : Handle) : Arena.History a l →
      Arena.History (a.remove h).2 (l.update fun k old => if k = h then none else old)
  | retain {a l} (keep : Handle → α → Bool) : Arena.History a l →
      Arena.History (a.retain keep).2 (l.update fun k old => old.filter (keep k))

/-- Environments that the operations lead to, with any handles and any live ones. -/
inductive Environments.Reached : Environments → Prop
  | new : Environments.Reached .new
  | extend {s} (parent : Handle) (p : Parameters) (arguments : List Datum) (mark : Nat) :
      Environments.Reached s → s.extendFault? parent p arguments.length = none →
      Environments.Reached (s.extend parent (Environments.bind p arguments mark).1).2
  | define {s} (env : Handle) (name : String) (value : Datum) :
      Environments.Reached s → Environments.Reached (s.define env name value).2
  | defineGlobal {s} (name : String) (value : Datum) :
      Environments.Reached s → Environments.Reached (s.defineGlobal name value)
  | assign {s} (env : Handle) (name : String) (value : Datum) :
      Environments.Reached s → Environments.Reached (s.assign env name value).2
  | collect {s} (live : List Handle) :
      Environments.Reached s → Environments.Reached (s.collect live).2

end FrameLisp.Store
