import FrameLisp.Proofs.Store.Scopes

/-!
# Collections are exact

A collection frees the live frames that neither the root nor a live handle leads to, and no other;
it changes no survivor and counts what it freed. In which order the bindings of a frame are visited
makes no difference, down to the order in which freed slots are used again.
-/
namespace FrameLisp.Store

namespace Arena

variable {α β : Type} {r : α → β → Prop} {a : Arena α} {b : Arena β}

/-- The same slots, with related elements in them. -/
structure Matches (r : α → β → Prop) (a : Arena α) (b : Arena β) : Prop where
  free : b.free = a.free
  size : b.size = a.size
  slots : b.slots.size = a.slots.size
  generation : ∀ index, b.generation index = a.generation index
  elements : ∀ h, Option.Rel r (a.get? h) (b.get? h)

theorem Matches.remove (hm : Matches r a b) (h : Handle) :
    Matches r (a.remove h).2 (b.remove h).2 := by
  have he := hm.elements h
  generalize hv : a.get? h = v at he
  generalize hw : b.get? h = w at he
  cases he with
  | none =>
    rw [remove_of_get?_eq_none hv, remove_of_get?_eq_none hw]
    exact hm
  | some hr =>
    refine ⟨?_, ?_, ?_, fun index => ?_, fun k => ?_⟩
    · simp only [remove_of_get?_eq_some hv, remove_of_get?_eq_some hw, hm.free]
    · simp only [remove_of_get?_eq_some hv, remove_of_get?_eq_some hw, hm.size]
    · simp only [remove_of_get?_eq_some hv, remove_of_get?_eq_some hw, hm.slots,
        Array.size_setIfInBounds]
    · rw [generation_remove hv, generation_remove hw, hm.generation]
    · rw [get?_remove, get?_remove]
      split
      · exact .none
      · exact hm.elements k

theorem Matches.removeAll (hm : Matches r a b) (doomed : List Handle) :
    Matches r (a.removeAll doomed) (b.removeAll doomed) := by
  induction doomed generalizing a b with
  | nil => exact hm
  | cons h doomed ih => exact ih (hm.remove h)

end Arena

/-- The same frame with its bindings in another order. -/
def Frame.Reordered (f g : Frame) : Prop := f.bindings.Perm g.bindings ∧ f.parent = g.parent

theorem Frame.Reordered.refers_iff {f g : Frame} (hr : f.Reordered g) {h : Handle} :
    f.Refers h ↔ g.Refers h := by
  obtain ⟨hb, hp⟩ := hr
  constructor
  · intro hf
    cases hf with
    | parent he => exact .parent (hp ▸ he)
    | value hm hv => exact .value (hb.mem_iff.1 hm) hv
  · intro hg
    cases hg with
    | parent he => exact .parent (hp ▸ he)
    | value hm hv => exact .value (hb.mem_iff.2 hm) hv

namespace Environments

variable {s t : Environments} {live : List Handle}

/-- The same environments with the bindings of each frame in another order. -/
structure Reordered (s t : Environments) : Prop where
  root : t.root = s.root
  allocated : t.allocated = s.allocated
  frames : Arena.Matches Frame.Reordered s.frames t.frames

theorem Reordered.reachable_iff (hr : s.Reordered t) {h : Handle} :
    s.Reachable live h ↔ t.Reachable live h := by
  constructor
  · intro hs
    refine hs.mem_of_closed (hr.root ▸ .root) (fun k hk => .live hk) fun k f k' hk hf href => ?_
    have he := hr.frames.elements k
    rw [hf] at he
    generalize hg : t.frames.get? k = g at he
    cases he with
    | some hfg => exact hk.step hg (hfg.refers_iff.1 href)
  · intro ht
    refine ht.mem_of_closed (hr.root ▸ .root) (fun k hk => .live hk) fun k g k' hk hg href => ?_
    have he := hr.frames.elements k
    rw [hg] at he
    generalize hf : s.frames.get? k = f at he
    cases he with
    | some hfg => exact hk.step hf (hfg.refers_iff.2 href)

/-- The handles of the frames that a collection frees. -/
theorem mem_rejected_collect_iff {h : Handle} :
    h ∈ s.frames.rejected (fun h _ => (s.reachable live)[h.index]?.getD false) ↔
      s.frames.contains h = true ∧ ¬ s.Reachable live h := by
  rw [Arena.mem_rejected_iff, Arena.contains_eq_true_iff]
  constructor
  · rintro ⟨f, hf, hm⟩
    rw [← reachable_getElem?_iff hf]
    refine ⟨⟨f, hf⟩, fun he => ?_⟩
    simp [he] at hm
  · rintro ⟨⟨f, hf⟩, hn⟩
    rw [← reachable_getElem?_iff hf] at hn
    refine ⟨f, hf, ?_⟩
    cases hm : (s.reachable live)[h.index]? with
    | none => rfl
    | some b => cases b <;> simp_all

theorem Reordered.collect (hr : s.Reordered t) (live : List Handle) :
    (t.collect live).1 = (s.collect live).1 ∧ (s.collect live).2.Reordered (t.collect live).2 := by
  have hdoomed : s.frames.rejected (fun h _ => (s.reachable live)[h.index]?.getD false) =
      t.frames.rejected (fun h _ => (t.reachable live)[h.index]?.getD false) := by
    refine Arena.rejected_congr fun h => ?_
    rw [mem_rejected_collect_iff, mem_rejected_collect_iff, hr.reachable_iff]
    have he := hr.frames.elements h
    generalize hf : s.frames.get? h = f at he
    generalize hg : t.frames.get? h = g at he
    cases he <;> simp [hf, hg]
  refine ⟨?_, hr.root, rfl, ?_⟩
  · simp only [Environments.collect, Arena.retain_eq, hdoomed]
  · simp only [Environments.collect, Arena.retain_eq, hdoomed]
    exact hr.frames.removeAll _

end Environments

end FrameLisp.Store
