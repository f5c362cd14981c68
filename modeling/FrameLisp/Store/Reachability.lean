import FrameLisp.Datum.Mentions
import FrameLisp.Store.Collection

/-!
# Reachable frames

Which frames a collection has to keep, said without marking: those that the root or a live handle
leads to, through parents and through the closures in bound values.
-/
namespace FrameLisp.Store

inductive Frame.Refers (f : Frame) : Handle → Prop
  | parent {h} : f.parent = some h → Frame.Refers f h
  | value {name value h} : (name, value) ∈ f.bindings → value.Mentions h → Frame.Refers f h

theorem Frame.mem_references_iff {f : Frame} {h : Handle} : h ∈ f.references ↔ f.Refers h := by
  have key : ∀ (bindings : Bindings) (out : Array Handle),
      h ∈ bindings.foldl (fun out b => b.2.trace out) out ↔
        h ∈ out ∨ ∃ b ∈ bindings, b.2.Mentions h := by
    intro bindings
    induction bindings with
    | nil => simp
    | cons b bindings ih =>
      intro out
      rw [List.foldl_cons, ih, Datum.mem_trace_iff, or_assoc]
      simp
  rw [Frame.references, key, Option.mem_toArray]
  constructor
  · rintro (hp | ⟨b, hb, hm⟩)
    · exact .parent hp
    · exact .value hb hm
  · intro hr
    cases hr with
    | parent hp => exact .inl hp
    | value hb hm => exact .inr ⟨_, hb, hm⟩

/-- What the root and the live handles lead to. A handle that is no longer live leads nowhere. -/
inductive Environments.Reachable (s : Environments) (live : List Handle) : Handle → Prop
  | root : Environments.Reachable s live s.root
  | live {h} : h ∈ live → Environments.Reachable s live h
  | step {h f h'} : Environments.Reachable s live h → s.frames.get? h = some f → f.Refers h' →
      Environments.Reachable s live h'

/-- A set of handles that holds the root and the live handles and is closed under references holds
all that is reachable. -/
theorem Environments.Reachable.mem_of_closed {s : Environments} {live : List Handle}
    {p : Handle → Prop} (hroot : p s.root) (hlive : ∀ h ∈ live, p h)
    (hstep : ∀ h f h', p h → s.frames.get? h = some f → f.Refers h' → p h') {h : Handle}
    (hr : s.Reachable live h) : p h := by
  induction hr with
  | root => exact hroot
  | live hl => exact hlive _ hl
  | step _ hf hr ih => exact hstep _ _ _ ih hf hr

end FrameLisp.Store
