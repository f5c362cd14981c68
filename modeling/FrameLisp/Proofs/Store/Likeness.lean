import FrameLisp.Proofs.Code.Renaming
import FrameLisp.Proofs.Datum.Likeness
import FrameLisp.Proofs.Store.Slots
import FrameLisp.Store.Collection

/-!
# Environments with related values

Two environments that have the same frames, with the same parents and the same names, and differ in
the values only, which are related. Every operation does the same to both.
-/
namespace FrameLisp

open Store

variable {r : Datum → Datum → Prop}

namespace Store

section Relations

/-- The same names in the same order, with related values. -/
def Bindings.Like (r : Datum → Datum → Prop) : Bindings → Bindings → Prop :=
  List.Forall₂ fun entry entry' => entry.1 = entry'.1 ∧ r entry.2 entry'.2

structure Frame.Like (r : Datum → Datum → Prop) (f f' : Frame) : Prop where
  bindings : f.bindings.Like r f'.bindings
  parent : f.parent = f'.parent

structure Slot.Like (r : Datum → Datum → Prop) (slot slot' : Slot Frame) : Prop where
  generation : slot.generation = slot'.generation
  value : Option.Rel (Frame.Like r) slot.value slot'.value

/-- The same slots are filled, with frames that are alike. -/
structure Arena.Like (r : Datum → Datum → Prop) (a a' : Arena Frame) : Prop where
  slots : ∀ i : Nat, Option.Rel (Slot.Like r) a.slots[i]? a'.slots[i]?
  free : a.free = a'.free
  size : a.size = a'.size

structure Environments.Like (r : Datum → Datum → Prop) (s s' : Environments) : Prop where
  frames : s.frames.Like r s'.frames
  root : s.root = s'.root
  allocated : s.allocated = s'.allocated

end Relations

namespace Bindings.Like

variable {b b' : Bindings} {value value' : Datum}

theorem find? (h : b.Like r b') (name : String) :
    Option.Rel r (b.find? name) (b'.find? name) := by
  induction h with
  | nil => exact .none
  | cons hentry _ ih =>
    obtain ⟨hname, hvalue⟩ := hentry
    rw [Bindings.find?, Bindings.find?, hname]
    split
    · exact .some hvalue
    · exact ih

theorem insert (h : b.Like r b') (name : String) (hv : r value value') :
    (b.insert name value).Like r (b'.insert name value') := by
  induction h with
  | nil => exact .cons ⟨rfl, hv⟩ .nil
  | cons hentry hrest ih =>
    rw [Bindings.insert, Bindings.insert, hentry.1]
    split
    · exact .cons ⟨rfl, hv⟩ hrest
    · exact .cons ⟨rfl, hentry.2⟩ ih

theorem insertAll (h : b.Like r b') (names : List String) {values values' : List Datum}
    (hv : List.Forall₂ r values values') :
    (b.insertAll names values).Like r (b'.insertAll names values') := by
  induction names generalizing b b' values values' with
  | nil => exact h
  | cons name names ih =>
    cases hv with
    | nil => exact h
    | cons hvalue hrest => exact ih (h.insert name hvalue) hrest

end Bindings.Like

namespace Arena.Like

variable {a a' : Arena Frame} {f f' : Frame}

theorem slots_size (h : a.Like r a') : a.slots.size = a'.slots.size := by
  apply le_antisymm
  · refine le_of_not_gt fun hlt => ?_
    have hslot := h.slots a'.slots.size
    rw [Array.getElem?_size, Array.getElem?_eq_getElem hlt] at hslot
    cases hslot
  · refine le_of_not_gt fun hlt => ?_
    have hslot := h.slots a.slots.size
    rw [Array.getElem?_size, Array.getElem?_eq_getElem hlt] at hslot
    cases hslot

theorem get? (h : a.Like r a') (env : Handle) :
    Option.Rel (Frame.Like r) (a.get? env) (a'.get? env) := by
  have hslot := h.slots env.index
  rw [Arena.get?, Arena.get?]
  generalize a.slots[env.index]? = slot at hslot ⊢
  generalize a'.slots[env.index]? = slot' at hslot ⊢
  cases hslot with
  | none => exact .none
  | some hslot =>
    dsimp only
    rw [hslot.generation]
    split
    · exact hslot.value
    · exact .none

theorem contains (h : a.Like r a') (env : Handle) : a.contains env = a'.contains env := by
  have hframe := h.get? env
  rw [Arena.contains, Arena.contains]
  generalize a.get? env = frame at hframe ⊢
  generalize a'.get? env = frame' at hframe ⊢
  cases hframe <;> rfl

theorem generation (h : a.Like r a') (index : Nat) : a.generation index = a'.generation index := by
  have hslot := h.slots index
  rw [Arena.generation, Arena.generation]
  generalize a.slots[index]? = slot at hslot ⊢
  generalize a'.slots[index]? = slot' at hslot ⊢
  cases hslot with
  | none => rfl
  | some hslot => exact hslot.generation

/-- A slot is filled on both sides. -/
theorem setIfInBounds (h : a.Like r a') (index : Nat) {slot slot' : Slot Frame}
    (hs : slot.Like r slot') (i : Nat) :
    Option.Rel (Slot.Like r) (a.slots.setIfInBounds index slot)[i]?
      (a'.slots.setIfInBounds index slot')[i]? := by
  rw [Array.getElem?_setIfInBounds, Array.getElem?_setIfInBounds, h.slots_size]
  split
  · split
    · exact .some hs
    · exact .none
  · exact h.slots i

theorem set (h : a.Like r a') (env : Handle) (hf : f.Like r f') :
    (a.set env f).Like r (a'.set env f') := by
  rw [Arena.set, Arena.set, h.contains]
  split
  · exact ⟨h.setIfInBounds env.index ⟨rfl, .some hf⟩, h.free, h.size⟩
  · exact h

theorem alloc (h : a.Like r a') (hf : f.Like r f') :
    (a.alloc f).1 = (a'.alloc f').1 ∧ (a.alloc f).2.Like r (a'.alloc f').2 := by
  rw [Arena.alloc, Arena.alloc, ← h.free]
  cases a.free with
  | nil =>
    refine ⟨congrArg (Handle.mk · 0) h.slots_size, fun i => ?_, rfl, congrArg (· + 1) h.size⟩
    rw [Array.getElem?_push, Array.getElem?_push, h.slots_size]
    split
    · exact .some ⟨rfl, .some hf⟩
    · exact h.slots i
  | cons index free =>
    dsimp only
    rw [h.generation]
    exact ⟨rfl, h.setIfInBounds index ⟨rfl, .some hf⟩, rfl, congrArg (· + 1) h.size⟩

theorem remove (h : a.Like r a') (env : Handle) : (a.remove env).2.Like r (a'.remove env).2 := by
  have hframe := h.get? env
  rw [Arena.remove, Arena.remove]
  generalize a.get? env = frame at hframe ⊢
  generalize a'.get? env = frame' at hframe ⊢
  cases hframe with
  | none => exact h
  | some _ =>
    exact ⟨h.setIfInBounds env.index ⟨rfl, .none⟩, congrArg (env.index :: ·) h.free,
      congrArg (· - 1) h.size⟩

theorem removeAll (h : a.Like r a') (doomed : List Handle) :
    (doomed.foldl (fun a h => (a.remove h).2) a).Like r
      (doomed.foldl (fun a h => (a.remove h).2) a') := by
  induction doomed generalizing a a' with
  | nil => exact h
  | cons env doomed ih => exact ih (h.remove env)

end Arena.Like

namespace Environments.Like

variable {s s' : Environments} {env : Handle} {value value' : Datum}

/-- The frame of a handle, its owner and a value in it. -/
def FoundAlike (r : Datum → Datum → Prop) (x x' : Handle × Frame × Datum) : Prop :=
  x.1 = x'.1 ∧ x.2.1.Like r x'.2.1 ∧ r x.2.2 x'.2.2

theorem nearestFrom (h : s.Like r s') (name : String) (steps : Nat) (env : Handle) :
    Parallel (EvalError.Shaped r) (FoundAlike r) (s.nearestFrom name steps env)
      (s'.nearestFrom name steps env) := by
  induction steps generalizing env with
  | zero => exact .error (.unbound name)
  | succ steps ih =>
    have hframe := h.frames.get? env
    rw [Environments.nearestFrom, Environments.nearestFrom]
    generalize s.frames.get? env = frame at hframe ⊢
    generalize s'.frames.get? env = frame' at hframe ⊢
    cases hframe with
    | none => exact .error .reclaimed
    | @some f f' hf =>
      have hvalue := hf.bindings.find? name
      dsimp only
      generalize f.bindings.find? name = value at hvalue ⊢
      generalize f'.bindings.find? name = value' at hvalue ⊢
      cases hvalue with
      | some hvalue => exact .ok ⟨rfl, hf, hvalue⟩
      | none =>
        dsimp only
        rw [hf.parent]
        cases f'.parent with
        | none => exact .error (.unbound name)
        | some parent => exact ih parent

theorem nearest (h : s.Like r s') (env : Handle) (name : String) :
    Parallel (EvalError.Shaped r) (FoundAlike r) (s.nearest env name) (s'.nearest env name) := by
  rw [Environments.nearest, Environments.nearest, h.frames.slots_size]
  exact h.nearestFrom name _ env

theorem lookup (h : s.Like r s') (env : Handle) (name : String) :
    Parallel (EvalError.Shaped r) r (s.lookup env name) (s'.lookup env name) := by
  rw [Environments.lookup, Environments.lookup]
  rcases (h.nearest env name).exists_or with ⟨x, x', hx, hx', -, -, hvalue⟩ | ⟨e, e', he, he', herror⟩
  · rw [hx, hx']
    exact .ok hvalue
  · rw [he, he']
    exact .error herror

theorem bindIn (h : s.Like r s') (env : Handle) {f f' : Frame} (hf : f.Like r f') (name : String)
    (hv : r value value') : (s.bindIn env f name value).Like r (s'.bindIn env f' name value') :=
  ⟨h.frames.set env ⟨hf.bindings.insert name hv, hf.parent⟩, h.root, h.allocated⟩

theorem define (h : s.Like r s') (env : Handle) (name : String) (hv : r value value') :
    Parallel (EvalError.Shaped r) Eq (s.define env name value).1 (s'.define env name value').1 ∧
      (s.define env name value).2.Like r (s'.define env name value').2 := by
  have hframe := h.frames.get? env
  rw [Environments.define, Environments.define]
  generalize s.frames.get? env = frame at hframe ⊢
  generalize s'.frames.get? env = frame' at hframe ⊢
  cases hframe with
  | none => exact ⟨.error .reclaimed, h⟩
  | some hf => exact ⟨.ok rfl, h.bindIn env hf name hv⟩

theorem assign (h : s.Like r s') (env : Handle) (name : String) (hv : r value value') :
    Parallel (EvalError.Shaped r) Eq (s.assign env name value).1 (s'.assign env name value').1 ∧
      (s.assign env name value).2.Like r (s'.assign env name value').2 := by
  rw [Environments.assign, Environments.assign]
  rcases (h.nearest env name).exists_or with
    ⟨⟨owner, f, v⟩, ⟨owner', f', v'⟩, hx, hx', howner, hf, -⟩ | ⟨e, e', he, he', herror⟩
  · obtain rfl : owner = owner' := howner
    rw [hx, hx']
    exact ⟨.ok rfl, h.bindIn owner hf name hv⟩
  · rw [he, he']
    exact ⟨.error herror, h⟩

theorem extendFault? (h : s.Like r s') (parent : Handle) (p : Parameters) (count : Nat) :
    Option.Rel (EvalError.Shaped r) (s.extendFault? parent p count)
      (s'.extendFault? parent p count) := by
  rw [Environments.extendFault?, Environments.extendFault?, h.frames.contains]
  split
  · cases p.arity.mismatch? count with
    | none => exact .none
    | some e => exact .some (.arity e)
  · exact .some .reclaimed

theorem extend (h : s.Like r s') (parent : Handle) {b b' : Bindings} (hb : b.Like r b') :
    (s.extend parent b).1 = (s'.extend parent b').1 ∧
      (s.extend parent b).2.Like r (s'.extend parent b').2 := by
  have hf : Frame.Like r ⟨b, some parent⟩ ⟨b', some parent⟩ := ⟨hb, rfl⟩
  obtain ⟨hhandle, hframes⟩ := h.frames.alloc hf
  exact ⟨hhandle, hframes, h.root, congrArg (· + 1) h.allocated⟩

/-- Which frames are freed depends on the values, so the same ones are on both sides. -/
theorem collect (h : s.Like r s) (live : List Handle) :
    (s.collect live).2.Like r (s.collect live).2 := by
  have hframes := h.frames.removeAll
    (s.frames.rejected fun h _ => (s.reachable live)[h.index]?.getD false)
  exact ⟨hframes, h.root, rfl⟩

theorem defineGlobal (h : s.Like r s') (name : String) (hv : r value value') :
    (s.defineGlobal name value).Like r (s'.defineGlobal name value') := by
  rw [Environments.defineGlobal, Environments.defineGlobal, h.root]
  exact (h.define s'.root name hv).2

theorem defineAll {α : Type} (items : List α) (name : α → String) (value : α → Datum)
    (hv : ∀ x, r (value x) (value x)) (h : s.Like r s') :
    (items.foldl (fun s x => s.defineGlobal (name x) (value x)) s).Like r
      (items.foldl (fun s x => s.defineGlobal (name x) (value x)) s') := by
  induction items generalizing s s' with
  | nil => exact h
  | cons x items ih => exact ih (h.defineGlobal (name x) (hv x))

theorem new : Environments.new.Like r Environments.new := by
  have hempty : Arena.empty.Like r Arena.empty := ⟨fun _ => .none, rfl, rfl⟩
  have hframe : (Frame.empty none).Like r (Frame.empty none) := ⟨.nil, rfl⟩
  obtain ⟨hroot, hframes⟩ := hempty.alloc hframe
  exact ⟨hframes, hroot, rfl⟩

end Environments.Like

end Store

end FrameLisp
