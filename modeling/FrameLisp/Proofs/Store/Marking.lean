import FrameLisp.Proofs.Store.Slots
import FrameLisp.Store.Reachability

/-!
# Marking is reachability

Marking from a list of handles marks the slots of exactly those live frames that the handles lead
to. A collection therefore keeps exactly the frames that are reachable, whatever the environments
were, and keeps them as they are.
-/
namespace FrameLisp.Store

namespace Arena

variable {frames : Arena Frame}

/-- Every slot that is newly marked holds a frame with a property that the pending handles have
and that is handed on along references. -/
theorem mark_sound {p : Handle → Prop}
    (hstep : ∀ h f k, p h → frames.get? h = some f → f.Refers k → p k) {marked : Array Bool}
    {pending : List Handle} (hp : ∀ h ∈ pending, p h) {i : Nat}
    (hi : (frames.mark marked pending)[i]? = some true) :
    marked[i]? = some true ∨ ∃ h f, p h ∧ frames.get? h = some f ∧ h.index = i := by
  fun_induction mark frames marked pending with
  | case1 marked => exact .inl hi
  | case2 marked h pending hn ih => exact ih (fun k hk => hp k (List.mem_cons_of_mem _ hk)) hi
  | case3 marked h pending f hf hm ih =>
    have hh : p h := hp h List.mem_cons_self
    have hnew : ∀ k ∈ f.references.toList ++ pending, p k := by
      intro k hk
      rcases List.mem_append.1 hk with hk | hk
      · exact hstep h f k hh hf (Frame.mem_references_iff.1 (Array.mem_toList_iff.1 hk))
      · exact hp k (List.mem_cons_of_mem _ hk)
    rcases ih hnew hi with hmarked | hfound
    · by_cases he : h.index = i
      · exact .inr ⟨h, f, hh, hf, he⟩
      · rw [Array.getElem?_setIfInBounds_ne he] at hmarked
        exact .inl hmarked
    · exact .inr hfound
  | case4 marked h pending f hf hm ih => exact ih (fun k hk => hp k (List.mem_cons_of_mem _ hk)) hi

/-- The frame of the handle is marked, if there is one. -/
def Done (frames : Arena Frame) (marked : Array Bool) (h : Handle) : Prop :=
  ∀ f, frames.get? h = some f → marked[h.index]? = some true

theorem Done.mark {marked : Array Bool} {h k : Handle} (hk : frames.Done marked k) :
    frames.Done (marked.setIfInBounds h.index true) k := by
  intro f hf
  have hm := hk f hf
  rw [Array.getElem?_setIfInBounds]
  split
  · next he =>
    rw [he, if_pos (Array.getElem?_eq_some_iff.1 hm).1]
  · exact hm

/-- What is marked need not be pending. -/
theorem Done.drop {marked : Array Bool} {h k : Handle} {pending : List Handle}
    (hd : frames.Done marked h) (hk : k ∈ h :: pending ∨ frames.Done marked k) :
    k ∈ pending ∨ frames.Done marked k := by
  rcases hk with hk | hk
  · rcases List.mem_cons.1 hk with rfl | hk
    · exact .inr hd
    · exact .inl hk
  · exact .inr hk

/-- Once a frame is marked, its references are pending in its place. -/
theorem Done.follow {marked : Array Bool} {h k : Handle} {pending : List Handle}
    (hd : frames.Done (marked.setIfInBounds h.index true) h) (references : List Handle)
    (hk : k ∈ h :: pending ∨ frames.Done marked k) :
    k ∈ references ++ pending ∨ frames.Done (marked.setIfInBounds h.index true) k := by
  have hnext : k ∈ pending ∨ frames.Done (marked.setIfInBounds h.index true) k :=
    hd.drop (hk.imp_right Done.mark)
  exact hnext.imp_left (List.mem_append_right references)

/-- What a marked frame refers to is marked or still pending. -/
def Closed (frames : Arena Frame) (marked : Array Bool) (pending : List Handle) : Prop :=
  ∀ h f k, frames.get? h = some f → marked[h.index]? = some true → f.Refers k →
    k ∈ pending ∨ frames.Done marked k

theorem Closed.drop {marked : Array Bool} {h : Handle} {pending : List Handle}
    (hc : frames.Closed marked (h :: pending)) (hd : frames.Done marked h) :
    frames.Closed marked pending := by
  intro h' f k hf hm hr
  exact hd.drop (hc h' f k hf hm hr)

theorem Closed.follow {marked : Array Bool} {h : Handle} {pending : List Handle} {f : Frame}
    (hc : frames.Closed marked (h :: pending)) (hf : frames.get? h = some f)
    (hd : frames.Done (marked.setIfInBounds h.index true) h) :
    frames.Closed (marked.setIfInBounds h.index true) (f.references.toList ++ pending) := by
  intro h' f' k hf' hm hr
  by_cases he : h'.index = h.index
  · obtain rfl := eq_of_index_eq hf' hf he
    obtain rfl := Option.some.inj (hf'.symm.trans hf)
    exact .inl (List.mem_append_left _ (Array.mem_toList_iff.2 (Frame.mem_references_iff.2 hr)))
  · rw [Array.getElem?_setIfInBounds_ne (Ne.symm he)] at hm
    exact hd.follow _ (hc h' f' k hf' hm hr)

/-- Marking comes to an end with nothing pending, and marks all that was. -/
theorem mark_complete {marked : Array Bool} {pending : List Handle}
    (hsize : marked.size = frames.slots.size) (hc : frames.Closed marked pending) :
    frames.Closed (frames.mark marked pending) [] ∧
      ∀ k, k ∈ pending ∨ frames.Done marked k → frames.Done (frames.mark marked pending) k := by
  fun_induction mark frames marked pending with
  | case1 marked => exact ⟨hc, fun k hk => hk.resolve_left List.not_mem_nil⟩
  | case2 marked h pending hn ih =>
    have hd : frames.Done marked h := fun f hf => absurd (hn.symm.trans hf) (by simp)
    obtain ⟨hclosed, hdone⟩ := ih hsize (hc.drop hd)
    exact ⟨hclosed, fun k hk => hdone k (hd.drop hk)⟩
  | case3 marked h pending f hf hm ih =>
    have hlt : h.index < marked.size := (Array.getElem?_eq_some_iff.1 hm).1
    have hd : frames.Done (marked.setIfInBounds h.index true) h := fun _ _ =>
      Array.getElem?_setIfInBounds_self_of_lt hlt
    obtain ⟨hclosed, hdone⟩ := ih (by simpa using hsize) (hc.follow hf hd)
    exact ⟨hclosed, fun k hk => hdone k (hd.follow _ hk)⟩
  | case4 marked h pending f hf hm ih =>
    have hlt : h.index < marked.size := hsize ▸ lt_size_of_get?_eq_some hf
    have hd : frames.Done marked h := by
      intro _ _
      rw [Array.getElem?_eq_getElem hlt, Option.some.injEq] at hm ⊢
      exact Bool.eq_true_of_not_eq_false hm
    obtain ⟨hclosed, hdone⟩ := ih hsize (hc.drop hd)
    exact ⟨hclosed, fun k hk => hdone k (hd.drop hk)⟩

end Arena

namespace Environments

variable {s : Environments} {live : List Handle}

/-- A live frame is marked when it is reachable, and only then. -/
theorem reachable_getElem?_iff {h : Handle} {f : Frame} (hf : s.frames.get? h = some f) :
    (s.reachable live)[h.index]? = some true ↔ s.Reachable live h := by
  have hblank : ∀ i : Nat, (Array.replicate s.frames.slots.size false)[i]? ≠ some true := by
    intro i
    simp [Array.getElem?_replicate]
  constructor
  · intro hm
    have hpending : ∀ k ∈ s.root :: live, s.Reachable live k := by
      intro k hk
      rcases List.mem_cons.1 hk with rfl | hk
      · exact .root
      · exact .live hk
    rcases Arena.mark_sound (fun _ _ _ => .step) hpending hm with hm | ⟨k, g, hk, hg, hi⟩
    · exact absurd hm (hblank _)
    · exact Arena.eq_of_index_eq hg hf hi ▸ hk
  · intro hr
    have hclosed : s.frames.Closed (Array.replicate s.frames.slots.size false) (s.root :: live) :=
      fun _ _ _ _ hm => absurd hm (hblank _)
    obtain ⟨hnext, hdone⟩ := Arena.mark_complete (by simp) hclosed
    have hall : s.frames.Done (s.reachable live) h := by
      refine hr.mem_of_closed (hdone _ (.inl List.mem_cons_self))
        (fun k hk => hdone k (.inl (List.mem_cons_of_mem _ hk))) fun k g k' hk hg hr' => ?_
      exact (hnext k g k' hg (hk g hg) hr').resolve_left List.not_mem_nil
    exact hall f hf

/-- A collection keeps the reachable frames, and keeps them as they are. -/
theorem get?_collect_eq_some_iff {h : Handle} {f : Frame} :
    (s.collect live).2.frames.get? h = some f ↔
      s.frames.get? h = some f ∧ s.Reachable live h := by
  have hframes : (s.collect live).2.frames.get? h =
      (s.frames.get? h).filter fun _ => (s.reachable live)[h.index]?.getD false :=
    Arena.get?_retain _ _ _
  rw [hframes, Option.filter_eq_some_iff]
  refine and_congr_right fun hf => ?_
  rw [← reachable_getElem?_iff hf]
  cases (s.reachable live)[h.index]? <;> simp

theorem contains_collect_iff {h : Handle} :
    (s.collect live).2.frames.contains h = true ↔
      s.frames.contains h = true ∧ s.Reachable live h := by
  simp only [Arena.contains_eq_true_iff, get?_collect_eq_some_iff, exists_and_right]

end Environments

end FrameLisp.Store
