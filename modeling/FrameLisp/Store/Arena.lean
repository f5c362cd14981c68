import FrameLisp.Store.Handle

/-!
# Generational arena

Elements live in numbered slots. A freed slot is used again, the one freed last first, but every
removal raises the slot's generation, so that the handles of removed elements are told apart from
those of the elements that took their slots.
-/
namespace FrameLisp.Store

structure Slot (α : Type) where
  generation : UInt32
  value : Option α

structure Arena (α : Type) where
  slots : Array (Slot α)
  /-- The empty slots, the one freed last in front. -/
  free : List Nat
  /-- The number of filled slots. -/
  size : Nat

namespace Arena

variable {α : Type}

def empty : Arena α := ⟨#[], [], 0⟩

def isEmpty (a : Arena α) : Bool := a.size = 0

/-- The generation that a slot has reached; a slot that does not exist yet is at the first one. -/
def generation (a : Arena α) (index : Nat) : UInt32 :=
  match a.slots[index]? with
  | some slot => slot.generation
  | none => 0

def get? (a : Arena α) (h : Handle) : Option α :=
  match a.slots[h.index]? with
  | some slot => if slot.generation = h.generation then slot.value else none
  | none => none

def contains (a : Arena α) (h : Handle) : Bool := (a.get? h).isSome

/-- Stores a new element. -/
def alloc (a : Arena α) (value : α) : Handle × Arena α :=
  match a.free with
  | index :: free =>
    let generation := a.generation index
    (⟨index, generation⟩,
      { slots := a.slots.setIfInBounds index ⟨generation, some value⟩, free, size := a.size + 1 })
  | [] =>
    (⟨a.slots.size, 0⟩,
      { slots := a.slots.push ⟨0, some value⟩, free := [], size := a.size + 1 })

/-- Replaces the element of a handle; a stale handle changes nothing. -/
def set (a : Arena α) (h : Handle) (value : α) : Arena α :=
  if a.contains h then
    { a with slots := a.slots.setIfInBounds h.index ⟨h.generation, some value⟩ }
  else a

/-- Takes out the element of a handle; a stale handle changes nothing. -/
def remove (a : Arena α) (h : Handle) : Option α × Arena α :=
  match a.get? h with
  | some value =>
    (some value,
      { slots := a.slots.setIfInBounds h.index ⟨h.generation + 1, none⟩
        free := h.index :: a.free
        size := a.size - 1 })
  | none => (none, a)

/-- The elements and their handles in the order of the slots. -/
def entries (a : Arena α) : List (Handle × α) :=
  (a.slots.toList.zipIdx).filterMap fun (slot, index) =>
    slot.value.map fun value => (⟨index, slot.generation⟩, value)

/-- The handles of the elements that `keep` rejects, in the order of the slots. -/
def rejected (a : Arena α) (keep : Handle → α → Bool) : List Handle :=
  (a.entries.filter fun (h, value) => !keep h value).map Prod.fst

/-- Removes all elements that `keep` rejects, and returns how many. -/
def retain (a : Arena α) (keep : Handle → α → Bool) : Nat × Arena α :=
  let doomed := a.rejected keep
  (doomed.length, doomed.foldl (fun a h => (a.remove h).2) a)

@[simp] theorem get?_empty (h : Handle) : (empty : Arena α).get? h = none := by
  simp [get?, empty]

theorem get?_of_stale {a : Arena α} {h : Handle} (hg : a.generation h.index ≠ h.generation) :
    a.get? h = none := by
  simp only [generation] at hg
  simp only [get?]
  split <;> simp_all

end Arena

end FrameLisp.Store
