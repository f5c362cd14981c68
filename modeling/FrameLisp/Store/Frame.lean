import FrameLisp.Datum.Basic
import FrameLisp.Store.Arena

/-!
# Frames

A frame binds names to data, each name at most once, and is extended from a parent.
-/
namespace FrameLisp.Store

/-- Names with their values. -/
abbrev Bindings := List (String × Datum)

namespace Bindings

def find? : Bindings → String → Option Datum
  | [], _ => none
  | (n, v) :: rest, name => if n = name then some v else find? rest name

/-- Binds a name, in place of its old value if it has one. -/
def insert (b : Bindings) (name : String) (value : Datum) : Bindings :=
  match b with
  | [] => [(name, value)]
  | (n, v) :: rest =>
    if n = name then (name, value) :: rest else (n, v) :: insert rest name value

/-- Binds names to values one after the other, up to the end of the shorter list. -/
def insertAll (b : Bindings) : List String → List Datum → Bindings
  | name :: names, value :: values => insertAll (b.insert name value) names values
  | _, _ => b

theorem find?_insert (b : Bindings) (name other : String) (value : Datum) :
    (b.insert name value).find? other = if name = other then some value else b.find? other := by
  induction b with
  | nil => rfl
  | cons p rest ih =>
    obtain ⟨n, v⟩ := p
    simp only [insert]
    split
    · subst_vars
      simp only [find?]
      split <;> rfl
    · simp only [find?, ih]
      split <;> split <;> simp_all

end Bindings

structure Frame where
  bindings : Bindings
  parent : Option Handle

def Frame.empty (parent : Option Handle) : Frame := ⟨[], parent⟩

end FrameLisp.Store
