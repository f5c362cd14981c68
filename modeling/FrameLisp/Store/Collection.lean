import FrameLisp.Datum.Trace
import FrameLisp.Store.Environments

/-!
# Collection of frames

A frame survives when it can be reached from the root, or from a handle that is kept alive from
outside, through parents and through the closures in bound values. Marking keeps the handles that
are still to be followed; each live frame is followed once.
-/
namespace FrameLisp.Store

/-- The handles that a frame refers to. -/
def Frame.references (f : Frame) : Array Handle :=
  f.bindings.foldl (fun out b => b.2.trace out) f.parent.toArray

theorem count_false_setIfInBounds_lt {marked : Array Bool} {i : Nat}
    (h : marked[i]? = some false) :
    (marked.setIfInBounds i true).count false < marked.count false := by
  obtain ⟨hi, hv⟩ := Array.getElem?_eq_some_iff.1 h
  have hpos : 0 < marked.count false := Array.count_pos_iff.2 (hv ▸ Array.getElem_mem hi)
  have hne : ((true == false) = true) = False := by decide
  rw [Array.setIfInBounds_def, dif_pos hi, Array.count_set hi, hv]
  simp only [hne, if_false, beq_self_eq_true, if_true]
  omega

namespace Arena

/-- Marks the slots of the live frames that can be reached from the pending handles. -/
def mark (frames : Arena Frame) (marked : Array Bool) : List Handle → Array Bool
  | [] => marked
  | h :: pending =>
    match frames.get? h with
    | none => mark frames marked pending
    | some f =>
      match _hm : marked[h.index]? with
      | some false =>
        mark frames (marked.setIfInBounds h.index true) (f.references.toList ++ pending)
      | _ => mark frames marked pending
  termination_by pending => (marked.count false, pending.length)
  decreasing_by
    · exact Prod.Lex.right _ (by simp)
    · exact Prod.Lex.left _ _ (count_false_setIfInBounds_lt ‹_›)
    · exact Prod.Lex.right _ (by simp)

end Arena

namespace Environments

/-- The marks of the slots that survive a collection with these live handles. -/
def reachable (s : Environments) (live : List Handle) : Array Bool :=
  s.frames.mark (Array.replicate s.frames.slots.size false) (s.root :: live)

/-- Frees every frame that is not reachable, and returns how many. -/
def collect (s : Environments) (live : List Handle) : Nat × Environments :=
  let marked := s.reachable live
  let (freed, frames) := s.frames.retain fun h _ => marked[h.index]?.getD false
  (freed, { s with frames, allocated := 0 })

end Environments

end FrameLisp.Store
