import Mathlib
import FrameLisp.Store.Arena

/-!
# The slots of an arena

What each operation does to the elements that handles find, and the invariant of the slots: the
free list holds every empty slot once and nothing else, and the size counts the filled slots. The
invariant says nothing of generations, so it also survives their wrapping around.
-/
namespace FrameLisp.Store.Arena

variable {α : Type}

theorem get?_eq_some_iff {a : Arena α} {h : Handle} {v : α} :
    a.get? h = some v ↔ a.slots[h.index]? = some ⟨h.generation, some v⟩ := by
  simp only [get?]
  cases hs : a.slots[h.index]? with
  | none => simp
  | some slot =>
    obtain ⟨generation, value⟩ := slot
    simp only [Option.some.injEq, Slot.mk.injEq, ite_eq_iff, reduceCtorEq, and_false, or_false]

theorem generation_eq_of_get?_eq_some {a : Arena α} {h : Handle} {v : α}
    (hv : a.get? h = some v) : a.generation h.index = h.generation := by
  simp only [generation, get?_eq_some_iff.1 hv]

theorem lt_size_of_get?_eq_some {a : Arena α} {h : Handle} {v : α} (hv : a.get? h = some v) :
    h.index < a.slots.size :=
  (Array.getElem?_eq_some_iff.1 (get?_eq_some_iff.1 hv)).1

/-- No two handles of elements share a slot. -/
theorem eq_of_index_eq {a : Arena α} {h k : Handle} {v w : α} (hv : a.get? h = some v)
    (hw : a.get? k = some w) (hi : h.index = k.index) : h = k := by
  have hg := generation_eq_of_get?_eq_some hv
  rw [hi, generation_eq_of_get?_eq_some hw] at hg
  cases h
  cases k
  simp_all

theorem get?_eq_none_of_index_eq {a : Arena α} {h k : Handle} {v : α} (hv : a.get? k = some v)
    (hi : h.index = k.index) (hne : h ≠ k) : a.get? h = none := by
  cases hw : a.get? h with
  | none => rfl
  | some w => exact absurd (eq_of_index_eq hw hv hi) hne

/-- What is found after a slot was written. -/
theorem get?_write (a : Arena α) {i : Nat} (hi : i < a.slots.size) (slot : Slot α)
    (free : List Nat) (size : Nat) (h : Handle) :
    (⟨a.slots.setIfInBounds i slot, free, size⟩ : Arena α).get? h =
      if h.index = i then (if slot.generation = h.generation then slot.value else none)
      else a.get? h := by
  by_cases hh : h.index = i
  · simp [get?, hh, hi]
  · simp [get?, hh, Ne.symm hh]

@[simp] theorem contains_eq_true_iff {a : Arena α} {h : Handle} :
    a.contains h = true ↔ ∃ v, a.get? h = some v := by
  simp [contains, Option.isSome_iff_exists]

/-- The elements in the order of the slots, with their handles read off the slots. -/
theorem mem_entries_iff {a : Arena α} {h : Handle} {v : α} :
    (h, v) ∈ a.entries ↔ a.get? h = some v := by
  rw [get?_eq_some_iff, entries, List.mem_filterMap]
  constructor
  · rintro ⟨⟨slot, index⟩, hm, he⟩
    obtain ⟨generation, value⟩ := slot
    rw [List.mem_zipIdx_iff_getElem?, Array.getElem?_toList] at hm
    cases value with
    | none => simp at he
    | some w =>
      simp only [Option.map_some, Option.some.injEq, Prod.mk.injEq] at he
      obtain ⟨rfl, rfl⟩ := he
      exact hm
  · intro hs
    refine ⟨(⟨h.generation, some v⟩, h.index), ?_, rfl⟩
    rw [List.mem_zipIdx_iff_getElem?, Array.getElem?_toList]
    exact hs

theorem pairwise_index_entries (a : Arena α) :
    a.entries.Pairwise fun x y => x.1.index < y.1.index := by
  have hindices : a.slots.toList.zipIdx.Pairwise fun x y => x.2 < y.2 := by
    rw [← List.pairwise_map (R := (· < ·)), List.zipIdx_map_snd]
    exact List.pairwise_lt_range'
  refine List.Pairwise.filterMap _ ?_ hindices
  rintro ⟨x, i⟩ ⟨y, j⟩ hij c hc d hd
  obtain ⟨v, -, rfl⟩ := Option.map_eq_some_iff.1 hc
  obtain ⟨w, -, rfl⟩ := Option.map_eq_some_iff.1 hd
  exact hij

theorem nodup_map_fst_entries (a : Arena α) : (a.entries.map Prod.fst).Nodup := by
  rw [List.nodup_iff_pairwise_ne, List.pairwise_map]
  refine (pairwise_index_entries a).imp fun hlt he => ?_
  rw [he] at hlt
  exact lt_irrefl _ hlt

theorem length_entries (a : Arena α) :
    a.entries.length = a.slots.countP fun slot => slot.value.isSome := by
  have key : ∀ slots : List (Slot α × Nat),
      (slots.filterMap fun x => x.1.value.map fun value =>
        ((⟨x.2, x.1.generation⟩ : Handle), value)).length =
      (slots.map Prod.fst).countP fun slot => slot.value.isSome := by
    intro slots
    induction slots with
    | nil => rfl
    | cons x slots ih =>
      obtain ⟨⟨generation, value⟩, index⟩ := x
      cases value with
      | none => simpa using ih
      | some v => simpa using ih
  refine (key _).trans ?_
  rw [List.zipIdx_map_fst, Array.countP_toList]

/-- A slot that exists and is empty. -/
def Vacant (a : Arena α) (index : Nat) : Prop :=
  ∃ generation, a.slots[index]? = some ⟨generation, none⟩

theorem get?_of_vacant {a : Arena α} {h : Handle} (hv : a.Vacant h.index) : a.get? h = none := by
  obtain ⟨generation, hs⟩ := hv
  simp [get?, hs]

structure Sound (a : Arena α) : Prop where
  free_nodup : a.free.Nodup
  mem_free_iff : ∀ index, index ∈ a.free ↔ a.Vacant index
  size_eq : a.size = a.slots.countP fun slot => slot.value.isSome

theorem sound_empty : (empty : Arena α).Sound where
  free_nodup := List.nodup_nil
  mem_free_iff index := by simp [empty, Vacant]
  size_eq := rfl

theorem Sound.size_eq_length {a : Arena α} (hs : a.Sound) : a.size = a.entries.length := by
  rw [hs.size_eq, length_entries]

theorem alloc_of_free_cons {a : Arena α} {index : Nat} {free : List Nat}
    (hf : a.free = index :: free) (v : α) :
    a.alloc v = (⟨index, a.generation index⟩,
      ⟨a.slots.setIfInBounds index ⟨a.generation index, some v⟩, free, a.size + 1⟩) := by
  simp only [alloc, hf]

theorem alloc_of_free_nil {a : Arena α} (hf : a.free = []) (v : α) :
    a.alloc v = (⟨a.slots.size, 0⟩, ⟨a.slots.push ⟨0, some v⟩, [], a.size + 1⟩) := by
  simp only [alloc, hf]

/-- A new element takes a slot in which nothing is found. -/
theorem Sound.get?_alloc_slot {a : Arena α} (hs : a.Sound) (v : α) {h : Handle}
    (hi : h.index = (a.alloc v).1.index) : a.get? h = none := by
  cases hf : a.free with
  | nil =>
    rw [alloc_of_free_nil hf] at hi
    rw [get?, hi, Array.getElem?_eq_none le_rfl]
  | cons index free =>
    rw [alloc_of_free_cons hf] at hi
    refine get?_of_vacant ((hs.mem_free_iff _).1 ?_)
    rw [hf, hi]
    exact List.mem_cons_self

theorem Sound.get?_alloc {a : Arena α} (hs : a.Sound) (v : α) (h : Handle) :
    (a.alloc v).2.get? h = if h = (a.alloc v).1 then some v else a.get? h := by
  have hslot : h.index = (a.alloc v).1.index → a.get? h = none := hs.get?_alloc_slot v
  obtain ⟨i, generation⟩ := h
  cases hf : a.free with
  | nil =>
    rw [alloc_of_free_nil hf] at hslot ⊢
    by_cases hi : i = a.slots.size
    · rw [hslot hi, hi]
      simp [get?, eq_comm]
    · simp [get?, Array.getElem?_push, hi]
  | cons index free =>
    rw [alloc_of_free_cons hf] at hslot ⊢
    obtain ⟨g, hg⟩ := (hs.mem_free_iff index).1 (hf ▸ List.mem_cons_self)
    rw [get?_write a (Array.getElem?_eq_some_iff.1 hg).1]
    by_cases hi : i = index
    · rw [hslot hi, hi]
      simp [eq_comm]
    · simp [hi]

theorem Sound.alloc {a : Arena α} (hs : a.Sound) (v : α) : (a.alloc v).2.Sound := by
  cases hf : a.free with
  | nil =>
    rw [alloc_of_free_nil hf]
    refine ⟨List.nodup_nil, fun i => ?_, ?_⟩
    · have hvacant : ¬ a.Vacant i := by
        rw [← hs.mem_free_iff, hf]
        exact List.not_mem_nil
      simp only [Vacant, not_exists] at hvacant
      simp only [List.not_mem_nil, Vacant, Array.getElem?_push, false_iff, not_exists]
      intro g
      split
      · simp
      · exact hvacant g
    · simp [hs.size_eq]
  | cons index free =>
    rw [alloc_of_free_cons hf]
    obtain ⟨hnot, hnodup⟩ := List.nodup_cons.1 (hf ▸ hs.free_nodup)
    obtain ⟨g, hg⟩ := (hs.mem_free_iff index).1 (hf ▸ List.mem_cons_self)
    obtain ⟨hlt, hslot⟩ := Array.getElem?_eq_some_iff.1 hg
    refine ⟨hnodup, fun i => ?_, ?_⟩
    · by_cases hi : i = index
      · subst hi
        simp [hnot, Vacant, hlt]
      · have hmem : i ∈ free ↔ i ∈ a.free := by simp [hf, hi]
        rw [hmem, hs.mem_free_iff]
        simp only [Vacant, Array.getElem?_setIfInBounds, if_neg (Ne.symm hi)]
    · rw [Array.setIfInBounds_def, dif_pos hlt, Array.countP_set hlt, hslot, hs.size_eq]
      simp

theorem set_of_get?_eq_none {a : Arena α} {h : Handle} (hn : a.get? h = none) (v : α) :
    a.set h v = a := by
  simp [set, contains, hn]

theorem set_of_get?_eq_some {a : Arena α} {h : Handle} {w : α} (hw : a.get? h = some w) (v : α) :
    a.set h v = ⟨a.slots.setIfInBounds h.index ⟨h.generation, some v⟩, a.free, a.size⟩ := by
  simp [set, contains, hw]

theorem get?_set (a : Arena α) (k : Handle) (v : α) (h : Handle) :
    (a.set k v).get? h = if h = k then (a.get? k).map fun _ => v else a.get? h := by
  cases hk : a.get? k with
  | none =>
    rw [set_of_get?_eq_none hk]
    split
    · next he => rw [he, hk, Option.map_none]
    · rfl
  | some w =>
    rw [set_of_get?_eq_some hk, get?_write a (lt_size_of_get?_eq_some hk)]
    by_cases he : h = k
    · simp [he]
    · rw [if_neg he]
      split
      · next hi =>
        have hg : k.generation ≠ h.generation := by
          intro hg
          exact he (by cases h; cases k; simp_all)
        rw [if_neg hg, get?_eq_none_of_index_eq hk hi he]
      · rfl

/-- The filled slots other than that of a given element. -/
theorem countP_set_of_get? {a : Arena α} {h : Handle} {w : α} (hw : a.get? h = some w)
    (slot : Slot α) :
    ((a.slots.setIfInBounds h.index slot).countP fun slot => slot.value.isSome) + 1 =
      (a.slots.countP fun slot => slot.value.isSome) + if slot.value.isSome then 1 else 0 := by
  obtain ⟨hlt, hslot⟩ := Array.getElem?_eq_some_iff.1 (get?_eq_some_iff.1 hw)
  have hpos : 0 < a.slots.countP fun slot => slot.value.isSome :=
    Array.countP_pos_iff.2 ⟨_, Array.getElem_mem hlt, by rw [hslot]; rfl⟩
  rw [Array.setIfInBounds_def, dif_pos hlt, Array.countP_set hlt, hslot]
  simp only [Option.isSome_some, if_true]
  omega

theorem Sound.set {a : Arena α} (hs : a.Sound) (k : Handle) (v : α) : (a.set k v).Sound := by
  cases hk : a.get? k with
  | none =>
    rw [set_of_get?_eq_none hk]
    exact hs
  | some w =>
    rw [set_of_get?_eq_some hk]
    refine ⟨hs.free_nodup, fun i => ?_, ?_⟩
    · rw [hs.mem_free_iff]
      simp only [Vacant, Array.getElem?_setIfInBounds]
      split
      · next hi =>
        rw [← hi, get?_eq_some_iff.1 hk]
        simp [lt_size_of_get?_eq_some hk]
      · rfl
    · have hcount := countP_set_of_get? hk ⟨k.generation, some v⟩
      rw [hs.size_eq]
      simp only [Option.isSome_some, if_true] at hcount
      exact (Nat.add_right_cancel hcount).symm

theorem remove_of_get?_eq_none {a : Arena α} {h : Handle} (hn : a.get? h = none) :
    a.remove h = (none, a) := by
  simp only [remove, hn]

theorem remove_of_get?_eq_some {a : Arena α} {h : Handle} {v : α} (hv : a.get? h = some v) :
    a.remove h = (some v,
      ⟨a.slots.setIfInBounds h.index ⟨h.generation + 1, none⟩, h.index :: a.free, a.size - 1⟩) := by
  simp only [remove, hv]

theorem remove_fst (a : Arena α) (h : Handle) : (a.remove h).1 = a.get? h := by
  cases hv : a.get? h with
  | none => rw [remove_of_get?_eq_none hv]
  | some v => rw [remove_of_get?_eq_some hv]

theorem get?_remove (a : Arena α) (k h : Handle) :
    (a.remove k).2.get? h = if h = k then none else a.get? h := by
  cases hk : a.get? k with
  | none =>
    rw [remove_of_get?_eq_none hk]
    split
    · next he => rw [he, hk]
    · rfl
  | some w =>
    rw [remove_of_get?_eq_some hk, get?_write a (lt_size_of_get?_eq_some hk)]
    by_cases he : h = k
    · simp [he]
    · rw [if_neg he]
      split
      · next hi => rw [ite_self, get?_eq_none_of_index_eq hk hi he]
      · rfl

theorem Sound.remove {a : Arena α} (hs : a.Sound) (h : Handle) : (a.remove h).2.Sound := by
  cases hv : a.get? h with
  | none =>
    rw [remove_of_get?_eq_none hv]
    exact hs
  | some v =>
    have hg := get?_eq_some_iff.1 hv
    have hnot : h.index ∉ a.free := by
      rw [hs.mem_free_iff]
      rintro ⟨g, hvacant⟩
      simp [hg] at hvacant
    rw [remove_of_get?_eq_some hv]
    refine ⟨List.nodup_cons.2 ⟨hnot, hs.free_nodup⟩, fun i => ?_, ?_⟩
    · simp only [Vacant, Array.getElem?_setIfInBounds, List.mem_cons, hs.mem_free_iff]
      by_cases hi : h.index = i
      · simp [← hi, lt_size_of_get?_eq_some hv]
      · simp [hi, Ne.symm hi]
    · have hcount := countP_set_of_get? hv ⟨h.generation + 1, none⟩
      simp only [Option.isSome_none, Bool.false_eq_true, if_false, ← hs.size_eq] at hcount ⊢
      omega

/-- The handle of a new element has the generation that its slot had. -/
theorem Sound.generation_alloc {a : Arena α} (hs : a.Sound) (v : α) :
    (a.alloc v).1.generation = a.generation (a.alloc v).1.index ∧
      ∀ index, (a.alloc v).2.generation index = a.generation index := by
  cases hf : a.free with
  | nil =>
    rw [alloc_of_free_nil hf]
    refine ⟨by simp [generation], fun i => ?_⟩
    by_cases hi : i = a.slots.size
    · simp [generation, hi]
    · simp [generation, Array.getElem?_push, hi]
  | cons index free =>
    rw [alloc_of_free_cons hf]
    refine ⟨rfl, fun i => ?_⟩
    obtain ⟨g, hg⟩ := (hs.mem_free_iff index).1 (hf ▸ List.mem_cons_self)
    have hlt : index < a.slots.size := (Array.getElem?_eq_some_iff.1 hg).1
    by_cases hi : index = i
    · subst hi
      simp [generation, hlt]
    · simp [generation, hi]

theorem generation_set (a : Arena α) (k : Handle) (v : α) (index : Nat) :
    (a.set k v).generation index = a.generation index := by
  cases hk : a.get? k with
  | none => rw [set_of_get?_eq_none hk]
  | some w =>
    rw [set_of_get?_eq_some hk]
    by_cases hi : k.index = index
    · subst hi
      rw [generation_eq_of_get?_eq_some hk]
      simp [generation, lt_size_of_get?_eq_some hk]
    · simp [generation, hi]

theorem generation_remove {a : Arena α} {k : Handle} {w : α} (hk : a.get? k = some w)
    (index : Nat) : (a.remove k).2.generation index =
      a.generation index + if k.index = index then 1 else 0 := by
  rw [remove_of_get?_eq_some hk]
  by_cases hi : k.index = index
  · subst hi
    rw [generation_eq_of_get?_eq_some hk]
    simp [generation, lt_size_of_get?_eq_some hk]
  · simp [generation, hi]

theorem mem_rejected_iff {a : Arena α} {keep : Handle → α → Bool} {h : Handle} :
    h ∈ a.rejected keep ↔ ∃ v, a.get? h = some v ∧ keep h v = false := by
  simp only [rejected, List.mem_map, List.mem_filter, Bool.not_eq_true', Prod.exists,
    exists_and_right, exists_eq_right, mem_entries_iff]

theorem nodup_rejected (a : Arena α) (keep : Handle → α → Bool) : (a.rejected keep).Nodup :=
  (nodup_map_fst_entries a).sublist (List.filter_sublist.map _)

/-- The elements are rejected in the order of the slots, so their set decides their list. -/
theorem rejected_congr {β : Type} {a : Arena α} {b : Arena β} {keep : Handle → α → Bool}
    {keep' : Handle → β → Bool} (hm : ∀ h, h ∈ a.rejected keep ↔ h ∈ b.rejected keep') :
    a.rejected keep = b.rejected keep' := by
  have hsorted : ∀ {γ : Type} (c : Arena γ) (keep : Handle → γ → Bool),
      (c.rejected keep).Pairwise fun h k => h.index < k.index := fun c _ =>
    List.pairwise_map.2 ((pairwise_index_entries c).sublist List.filter_sublist)
  refine List.Perm.eq_of_pairwise (fun h k _ _ hlt hgt => ?_) (hsorted a keep) (hsorted b keep') ?_
  · exact absurd hlt (Nat.lt_asymm hgt)
  · exact (List.perm_ext_iff_of_nodup (nodup_rejected a keep) (nodup_rejected b keep')).2 hm

/-- Takes out elements one after the other. -/
def removeAll (a : Arena α) (doomed : List Handle) : Arena α :=
  doomed.foldl (fun a h => (a.remove h).2) a

theorem retain_eq (a : Arena α) (keep : Handle → α → Bool) :
    a.retain keep = ((a.rejected keep).length, a.removeAll (a.rejected keep)) := rfl

theorem get?_removeAll (a : Arena α) (doomed : List Handle) (h : Handle) :
    (a.removeAll doomed).get? h = if h ∈ doomed then none else a.get? h := by
  induction doomed generalizing a with
  | nil => simp [removeAll]
  | cons k doomed ih =>
    have hstep : a.removeAll (k :: doomed) = (a.remove k).2.removeAll doomed := rfl
    rw [hstep, ih, get?_remove]
    simp only [List.mem_cons]
    by_cases he : h = k <;> simp [he]

theorem Sound.removeAll {a : Arena α} (hs : a.Sound) (doomed : List Handle) :
    (a.removeAll doomed).Sound := by
  induction doomed generalizing a with
  | nil => exact hs
  | cons k doomed ih => exact ih (hs.remove k)

theorem Sound.retain {a : Arena α} (hs : a.Sound) (keep : Handle → α → Bool) :
    (a.retain keep).2.Sound :=
  hs.removeAll _

theorem get?_retain (a : Arena α) (keep : Handle → α → Bool) (h : Handle) :
    (a.retain keep).2.get? h = (a.get? h).filter (keep h) := by
  rw [retain_eq, get?_removeAll]
  simp only [mem_rejected_iff]
  cases hv : a.get? h with
  | none => simp
  | some v => cases hk : keep h v <;> simp [Option.filter, hk]

end FrameLisp.Store.Arena
