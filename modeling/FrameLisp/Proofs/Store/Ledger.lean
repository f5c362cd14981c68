import FrameLisp.Proofs.Store.Slots
import FrameLisp.Store.History

/-!
# An arena as a map whose keys are never used again

The ledger of an arena says what is stored under each handle that was ever given out. The arena
answers as the ledger does, as long as no slot was emptied so often that its generation came
around: a removed element is never found again, whatever its slot is used for.
-/
namespace FrameLisp.Store

variable {α : Type}

namespace Ledger

/-- How often a slot was emptied. -/
def removals (l : Ledger α) (index : Nat) : Nat :=
  l.countP fun entry => entry.1.index = index && entry.2.isNone

/-- No slot was emptied so often that its generation came around. -/
def Bounded (l : Ledger α) : Prop := ∀ index, l.removals index < 2 ^ 32

theorem mem_update_iff {l : Ledger α} {f : Handle → Option α → Option α} {h : Handle}
    {new : Option α} : (h, new) ∈ l.update f ↔ ∃ old, (h, old) ∈ l ∧ f h old = new := by
  simp only [update, List.mem_map, Prod.mk.injEq, Prod.exists]
  constructor
  · rintro ⟨k, old, hm, rfl, he⟩
    exact ⟨old, hm, he⟩
  · rintro ⟨old, hm, he⟩
    exact ⟨h, old, hm, rfl, he⟩

theorem mem_handles_iff {l : Ledger α} {h : Handle} : h ∈ l.handles ↔ ∃ value, (h, value) ∈ l := by
  simp [handles]

theorem mem_handles_of_mem {l : Ledger α} {h : Handle} {value : Option α} (hm : (h, value) ∈ l) :
    h ∈ l.handles :=
  mem_handles_iff.2 ⟨value, hm⟩

theorem update_congr {l : Ledger α} {f g : Handle → Option α → Option α}
    (hfg : ∀ h old, (h, old) ∈ l → f h old = g h old) : l.update f = l.update g := by
  refine List.map_congr_left fun entry hm => ?_
  obtain ⟨h, old⟩ := entry
  simp only [hfg h old hm]

theorem update_update (l : Ledger α) (f g : Handle → Option α → Option α) :
    (l.update f).update g = l.update fun h old => g h (f h old) := by
  simp [update, Function.comp_def]

/-- What is gone from the ledger stays gone. -/
theorem removals_le_update {f : Handle → Option α → Option α} (hf : ∀ h, f h none = none)
    (l : Ledger α) (index : Nat) : l.removals index ≤ (l.update f).removals index := by
  rw [removals, removals, update, List.countP_map]
  refine List.countP_mono_left fun entry _ he => ?_
  obtain ⟨h, value⟩ := entry
  simp only [Bool.and_eq_true, Option.isNone_iff_eq_none] at he
  simp [he.1, he.2, hf]

theorem removals_update_of_isNone_eq {f : Handle → Option α → Option α}
    (hf : ∀ h old, (f h old).isNone = old.isNone) (l : Ledger α) (index : Nat) :
    (l.update f).removals index = l.removals index := by
  rw [removals, removals, update, List.countP_map]
  refine List.countP_congr fun entry _ => ?_
  simp [hf]

theorem update_cons (entry : Handle × Option α) (l : Ledger α)
    (f : Handle → Option α → Option α) :
    update (entry :: l) f = (entry.1, f entry.1 entry.2) :: update l f := rfl

/-- Striking out one element counts as one removal from its slot. -/
theorem removals_strike {l : Ledger α} (hn : l.handles.Nodup) {k : Handle} {v : α}
    (hk : (k, some v) ∈ l) (index : Nat) :
    (l.update fun h old => if h = k then none else old).removals index =
      l.removals index + if k.index = index then 1 else 0 := by
  induction l with
  | nil => simp at hk
  | cons entry l ih =>
    obtain ⟨h, old⟩ := entry
    obtain ⟨hnot, hn⟩ := List.nodup_cons.1 hn
    rw [update_cons]
    simp only [removals, List.countP_cons] at ih ⊢
    rcases List.mem_cons.1 hk with he | hk
    · obtain ⟨rfl, rfl⟩ := Prod.mk.inj he
      have hrest : update l (fun h old => if h = k then none else old) = l := by
        refine (List.map_congr_left fun entry hm => ?_).trans l.map_id
        have hne : entry.1 ≠ k := fun he => hnot (he ▸ mem_handles_of_mem hm)
        simp [hne]
      rw [hrest]
      simp
    · have hne : h ≠ k := fun he => hnot (he ▸ mem_handles_of_mem hk)
      rw [ih hn hk, if_neg hne]
      omega

theorem get?_cons (l : Ledger α) (h k : Handle) (value : Option α) :
    Ledger.get? ((k, value) :: l) h = if h = k then value else l.get? h := by
  simp only [get?, List.lookup_cons]
  by_cases he : h = k
  · simp [he]
  · simp [he, beq_false_of_ne he]

theorem get?_eq_of_mem {l : Ledger α} (hn : l.handles.Nodup) {h : Handle} {value : Option α}
    (hm : (h, value) ∈ l) : l.get? h = value := by
  induction l with
  | nil => simp at hm
  | cons entry l ih =>
    obtain ⟨k, old⟩ := entry
    obtain ⟨hnot, hn⟩ := List.nodup_cons.1 hn
    rw [get?_cons]
    rcases List.mem_cons.1 hm with he | hm
    · obtain ⟨rfl, rfl⟩ := Prod.mk.inj he
      rw [if_pos rfl]
    · have hne : h ≠ k := fun he => hnot (he ▸ mem_handles_of_mem hm)
      rw [if_neg hne]
      exact ih hn hm

theorem get?_eq_none_of_not_mem {l : Ledger α} {h : Handle} (hh : h ∉ l.handles) :
    l.get? h = none := by
  induction l with
  | nil => rfl
  | cons entry l ih =>
    obtain ⟨k, value⟩ := entry
    have hne : h ≠ k := fun he => hh (he ▸ List.mem_cons_self)
    rw [get?_cons, if_neg hne]
    exact ih fun hm => hh (List.mem_cons_of_mem _ hm)

theorem mem_live_iff {l : Ledger α} {h : Handle} : h ∈ l.live ↔ ∃ v, (h, some v) ∈ l := by
  simp [live, Option.isSome_iff_exists]

theorem nodup_live {l : Ledger α} (hn : l.handles.Nodup) : l.live.Nodup :=
  hn.sublist (List.filter_sublist.map _)

end Ledger

namespace Arena

/-- What ties an arena to its ledger: each entry tells what its handle finds, every element has an
entry, a slot's generation counts the removals from it, and a handle whose element is gone is of an
earlier generation than its slot. -/
structure Tracked (a : Arena α) (l : Ledger α) : Prop where
  sound : a.Sound
  nodup : l.handles.Nodup
  get?_eq : ∀ {h value}, (h, value) ∈ l → a.get? h = value
  entered : ∀ {h v}, a.get? h = some v → h ∈ l.handles
  generation : ∀ index, (a.generation index).toNat = l.removals index
  spent : ∀ {h}, (h, none) ∈ l → h.generation < a.generation h.index

theorem tracked_empty : Tracked (empty : Arena α) [] where
  sound := sound_empty
  nodup := List.nodup_nil
  get?_eq h := by simp at h
  entered h := by simp at h
  generation _ := rfl
  spent h := by simp at h

namespace Tracked

variable {a : Arena α} {l : Ledger α}

theorem mem_of_get? (ht : Tracked a l) {h : Handle} {v : α} (hv : a.get? h = some v) :
    (h, some v) ∈ l := by
  obtain ⟨value, hm⟩ := Ledger.mem_handles_iff.1 (ht.entered hv)
  rwa [← ht.get?_eq hm, hv] at hm

theorem get?_eq_ledger (ht : Tracked a l) (h : Handle) : a.get? h = l.get? h := by
  by_cases hm : h ∈ l.handles
  · obtain ⟨value, hm⟩ := Ledger.mem_handles_iff.1 hm
    rw [ht.get?_eq hm, Ledger.get?_eq_of_mem ht.nodup hm]
  · rw [Ledger.get?_eq_none_of_not_mem hm, Option.eq_none_iff_forall_ne_some]
    exact fun v hv => hm (ht.entered hv)

/-- The slot of a new element is empty, so a handle to it that was given out before is spent and
of an earlier generation. -/
theorem alloc_fst_not_mem (ht : Tracked a l) (v : α) : (a.alloc v).1 ∉ l.handles := by
  intro hm
  obtain ⟨value, hm⟩ := Ledger.mem_handles_iff.1 hm
  have hnone : value = none := by
    rw [← ht.get?_eq hm]
    exact ht.sound.get?_alloc_slot v rfl
  subst hnone
  have hlt := ht.spent hm
  rw [(ht.sound.generation_alloc v).1] at hlt
  exact absurd hlt (UInt32.lt_irrefl _)

theorem alloc (ht : Tracked a l) (v : α) :
    Tracked (a.alloc v).2 (((a.alloc v).1, some v) :: l) := by
  have hnot := ht.alloc_fst_not_mem v
  obtain ⟨-, hgen⟩ := ht.sound.generation_alloc v
  refine ⟨ht.sound.alloc v, List.nodup_cons.2 ⟨hnot, ht.nodup⟩, ?_, ?_, fun index => ?_, ?_⟩
  · intro h value hm
    rw [ht.sound.get?_alloc]
    rcases List.mem_cons.1 hm with he | hm
    · obtain ⟨rfl, rfl⟩ := Prod.mk.inj he
      rw [if_pos rfl]
    · have hne : h ≠ (a.alloc v).1 := fun he => hnot (he ▸ Ledger.mem_handles_of_mem hm)
      rw [if_neg hne, ht.get?_eq hm]
  · intro h w hw
    rw [ht.sound.get?_alloc] at hw
    by_cases he : h = (a.alloc v).1
    · exact he ▸ List.mem_cons_self
    · rw [if_neg he] at hw
      exact List.mem_cons_of_mem _ (ht.entered hw)
  · rw [hgen, ht.generation]
    simp [Ledger.removals]
  · intro h hm
    rcases List.mem_cons.1 hm with he | hm
    · simp at he
    · rw [hgen]
      exact ht.spent hm

theorem set (ht : Tracked a l) (k : Handle) (v : α) :
    Tracked (a.set k v) (l.update fun h old => if h = k then old.map fun _ => v else old) := by
  refine ⟨ht.sound.set k v, ?_, ?_, ?_, fun index => ?_, ?_⟩
  · rw [Ledger.handles_update]
    exact ht.nodup
  · intro h value hm
    obtain ⟨old, hold, rfl⟩ := Ledger.mem_update_iff.1 hm
    rw [get?_set]
    split
    · next he => rw [← he, ht.get?_eq hold]
    · exact ht.get?_eq hold
  · intro h w hw
    rw [Ledger.handles_update]
    rw [get?_set] at hw
    split at hw
    · next he =>
      obtain ⟨u, hu, -⟩ := Option.map_eq_some_iff.1 hw
      exact he ▸ ht.entered hu
    · exact ht.entered hw
  · rw [generation_set, ht.generation, Ledger.removals_update_of_isNone_eq]
    intro h old
    split <;> simp
  · intro h hm
    obtain ⟨old, hm, he⟩ := Ledger.mem_update_iff.1 hm
    rw [generation_set]
    have hold : old = none := by
      split at he
      · simpa using he
      · exact he
    exact ht.spent (hold ▸ hm)

theorem remove (ht : Tracked a l) (k : Handle)
    (hb : (l.update fun h old => if h = k then none else old).Bounded) :
    Tracked (a.remove k).2 (l.update fun h old => if h = k then none else old) := by
  cases hk : a.get? k with
  | none =>
    have hsame : l.update (fun h old => if h = k then none else old) = l := by
      refine (List.map_congr_left fun entry hm => ?_).trans l.map_id
      obtain ⟨h, old⟩ := entry
      by_cases he : h = k
      · subst he
        simp [← ht.get?_eq hm, hk]
      · simp [he]
    rw [hsame, remove_of_get?_eq_none hk]
    exact ht
  | some w =>
    have hgen : ∀ index, ((a.remove k).2.generation index).toNat =
        (a.generation index).toNat + if k.index = index then 1 else 0 := by
      intro index
      have hlt := hb index
      rw [Ledger.removals_strike ht.nodup (ht.mem_of_get? hk), ← ht.generation] at hlt
      rw [generation_remove hk, UInt32.toNat_add]
      split at hlt <;> simp_all
    refine ⟨ht.sound.remove k, ?_, ?_, ?_, fun index => ?_, ?_⟩
    · rw [Ledger.handles_update]
      exact ht.nodup
    · intro h value hm
      obtain ⟨old, hold, rfl⟩ := Ledger.mem_update_iff.1 hm
      rw [get?_remove, ht.get?_eq hold]
    · intro h v hv
      rw [Ledger.handles_update]
      rw [get?_remove] at hv
      split at hv
      · simp at hv
      · exact ht.entered hv
    · rw [hgen, ht.generation, Ledger.removals_strike ht.nodup (ht.mem_of_get? hk)]
    · intro h hm
      obtain ⟨old, hm, he⟩ := Ledger.mem_update_iff.1 hm
      rw [UInt32.lt_iff_toNat_lt, hgen]
      by_cases hh : h = k
      · subst hh
        rw [generation_eq_of_get?_eq_some hk, if_pos rfl]
        exact Nat.lt_succ_self _
      · rw [if_neg hh] at he
        have hlt := UInt32.lt_iff_toNat_lt.1 (ht.spent (he ▸ hm))
        omega

/-- Taking out several elements strikes them out of the ledger. -/
theorem removeAll (ht : Tracked a l) (doomed : List Handle)
    (hb : (l.update fun h old => if h ∈ doomed then none else old).Bounded) :
    Tracked (a.removeAll doomed) (l.update fun h old => if h ∈ doomed then none else old) := by
  induction doomed generalizing a l with
  | nil =>
    have hsame : l.update (fun h old => if h ∈ ([] : List Handle) then none else old) = l :=
      (List.map_congr_left fun entry _ => by simp).trans l.map_id
    rw [hsame]
    exact ht
  | cons k doomed ih =>
    have hstep : l.update (fun h old => if h ∈ k :: doomed then none else old) =
        (l.update fun h old => if h = k then none else old).update
          fun h old => if h ∈ doomed then none else old := by
      rw [Ledger.update_update]
      refine Ledger.update_congr fun h old _ => ?_
      by_cases he : h = k <;> simp [he]
    rw [hstep] at hb ⊢
    have hfirst : (l.update fun h old => if h = k then none else old).Bounded := fun index =>
      (Ledger.removals_le_update (by simp) _ index).trans_lt (hb index)
    exact ih (ht.remove k hfirst) hb

theorem retain (ht : Tracked a l) (keep : Handle → α → Bool)
    (hb : (l.update fun h old => old.filter (keep h)).Bounded) :
    Tracked (a.retain keep).2 (l.update fun h old => old.filter (keep h)) := by
  have hsame : l.update (fun h old => old.filter (keep h)) =
      l.update fun h old => if h ∈ a.rejected keep then none else old := by
    refine Ledger.update_congr fun h old hm => ?_
    simp only [mem_rejected_iff, ht.get?_eq hm]
    cases old with
    | none => simp
    | some v => cases hk : keep h v <;> simp [Option.filter, hk]
  rw [hsame] at hb ⊢
  exact ht.removeAll _ hb

end Tracked

/-- One operation on an arena and its ledger. -/
inductive Step : Arena α × Ledger α → Arena α × Ledger α → Prop
  | alloc {a l} (value : α) : Step (a, l) ((a.alloc value).2, ((a.alloc value).1, some value) :: l)
  | set {a l} (h : Handle) (value : α) : Step (a, l)
      (a.set h value, l.update fun k old => if k = h then old.map fun _ => value else old)
  | remove {a l} (h : Handle) : Step (a, l)
      ((a.remove h).2, l.update fun k old => if k = h then none else old)
  | retain {a l} (keep : Handle → α → Bool) : Step (a, l)
      ((a.retain keep).2, l.update fun k old => old.filter (keep k))

/-- An operation adds an entry to the ledger or changes what is still stored. -/
theorem Step.ledger {x y : Arena α × Ledger α} (h : Step x y) :
    (∃ k v, y.2 = (k, some v) :: x.2) ∨
      ∃ f, (∀ k, f k none = none) ∧ y.2 = x.2.update f := by
  cases h with
  | alloc value => exact .inl ⟨_, _, rfl⟩
  | set h value =>
    exact .inr ⟨fun k old => if k = h then old.map fun _ => value else old,
      fun k => ite_self none, rfl⟩
  | remove h => exact .inr ⟨fun k old => if k = h then none else old, fun k => ite_self none, rfl⟩
  | retain keep => exact .inr ⟨fun k old => old.filter (keep k), fun k => rfl, rfl⟩

/-- No operation takes back a removal. -/
theorem Step.removals_le {x y : Arena α × Ledger α} (h : Step x y) (index : Nat) :
    x.2.removals index ≤ y.2.removals index := by
  obtain ⟨k, v, he⟩ | ⟨f, hf, he⟩ := h.ledger
  · rw [he]
    exact (List.sublist_cons_self _ _).countP_le
  · rw [he]
    exact Ledger.removals_le_update hf _ index

/-- An element that is gone stays gone, and its handle stays in the ledger. -/
theorem Step.gone {x y : Arena α × Ledger α} (h : Step x y) {k : Handle}
    (hk : (k, none) ∈ x.2) : (k, none) ∈ y.2 := by
  obtain ⟨_, v, he⟩ | ⟨f, hf, he⟩ := h.ledger
  · rw [he]
    exact List.mem_cons_of_mem _ hk
  · rw [he]
    exact Ledger.mem_update_iff.2 ⟨none, hk, hf k⟩

theorem Step.tracked {x y : Arena α × Ledger α} (h : Step x y) (ht : Tracked x.1 x.2)
    (hb : y.2.Bounded) : Tracked y.1 y.2 := by
  cases h with
  | alloc value => exact ht.alloc value
  | set h value => exact ht.set h value
  | remove h => exact ht.remove h hb
  | retain keep => exact ht.retain keep hb

/-- What any number of operations lead to. -/
abbrev Leads : Arena α × Ledger α → Arena α × Ledger α → Prop := Relation.ReflTransGen Step

theorem Leads.tracked {x y : Arena α × Ledger α} (h : Leads x y) (ht : Tracked x.1 x.2)
    (hb : y.2.Bounded) : Tracked y.1 y.2 := by
  induction h with
  | refl => exact ht
  | tail _ hstep ih =>
    exact hstep.tracked (ih fun index => (hstep.removals_le index).trans_lt (hb index)) hb

theorem Leads.gone {x y : Arena α × Ledger α} (h : Leads x y) {k : Handle}
    (hk : (k, none) ∈ x.2) : (k, none) ∈ y.2 := by
  induction h with
  | refl => exact hk
  | tail _ hstep ih => exact hstep.gone ih

/-- A history is what operations on the empty arena lead to. -/
theorem History.leads {a : Arena α} {l : Ledger α} (h : a.History l) :
    Leads (Arena.empty, []) (a, l) := by
  induction h with
  | empty => exact .refl
  | alloc value _ ih => exact ih.tail (.alloc value)
  | set h value _ ih => exact ih.tail (.set h value)
  | remove h _ ih => exact ih.tail (.remove h)
  | retain keep _ ih => exact ih.tail (.retain keep)

/-- An arena answers as its ledger does. -/
structure Refines (a : Arena α) (l : Ledger α) : Prop where
  /-- No handle was given out twice, and the next one differs from all before. -/
  handles_nodup : l.handles.Nodup
  alloc_fresh : ∀ v, (a.alloc v).1 ∉ l.handles
  get?_eq : ∀ h, a.get? h = l.get? h
  contains_iff : ∀ h, a.contains h = true ↔ h ∈ l.live
  /-- What is gone is not found at any later time, whatever its slot is used for. -/
  gone : ∀ h ∈ l.handles, a.get? h = none → ∀ b m, Leads (a, l) (b, m) → m.Bounded →
    b.get? h = none
  remove_fst : ∀ h, (a.remove h).1 = l.get? h
  remove_stale : ∀ h, l.get? h = none → (a.remove h).2 = a
  get?_retain : ∀ keep h, (a.retain keep).2.get? h = (l.get? h).filter (keep h)
  retain_fst : ∀ keep, (a.retain keep).1 =
    (l.live.filter fun h => (l.get? h).any fun v => !keep h v).length
  size_eq : a.size = l.live.length
  free_nodup : a.free.Nodup
  mem_free_iff : ∀ index, index ∈ a.free ↔ a.Vacant index

namespace Tracked

variable {a : Arena α} {l : Ledger α}

theorem mem_live_iff (ht : Tracked a l) {h : Handle} : h ∈ l.live ↔ ∃ v, a.get? h = some v := by
  rw [Ledger.mem_live_iff]
  exact exists_congr fun v => ⟨ht.get?_eq, ht.mem_of_get?⟩

theorem length_live (ht : Tracked a l) : a.size = l.live.length := by
  have hperm : (a.entries.map Prod.fst).Perm l.live := by
    rw [List.perm_ext_iff_of_nodup (nodup_map_fst_entries a) (Ledger.nodup_live ht.nodup)]
    intro h
    rw [ht.mem_live_iff]
    simp [mem_entries_iff]
  rw [ht.sound.size_eq_length, ← hperm.length_eq, List.length_map]

theorem length_rejected (ht : Tracked a l) (keep : Handle → α → Bool) :
    (a.rejected keep).length =
      (l.live.filter fun h => (l.get? h).any fun v => !keep h v).length := by
  refine List.Perm.length_eq ?_
  rw [List.perm_ext_iff_of_nodup (nodup_rejected a keep) ((Ledger.nodup_live ht.nodup).filter _)]
  intro h
  rw [mem_rejected_iff, List.mem_filter, ht.mem_live_iff, ← ht.get?_eq_ledger]
  cases a.get? h <;> simp

theorem refines (ht : Tracked a l) : Refines a l where
  handles_nodup := ht.nodup
  alloc_fresh := ht.alloc_fst_not_mem
  get?_eq := ht.get?_eq_ledger
  contains_iff h := by rw [ht.mem_live_iff, contains_eq_true_iff]
  gone h hm hn b m hl hb := by
    obtain ⟨value, hm⟩ := Ledger.mem_handles_iff.1 hm
    have hnone : value = none := by rw [← ht.get?_eq hm, hn]
    exact (hl.tracked ht hb).get?_eq (hl.gone (hnone ▸ hm))
  remove_fst h := by rw [Arena.remove_fst, ht.get?_eq_ledger]
  remove_stale h hn := by
    rw [remove_of_get?_eq_none]
    rw [ht.get?_eq_ledger, hn]
  get?_retain keep h := by rw [Arena.get?_retain, ht.get?_eq_ledger]
  retain_fst := ht.length_rejected
  size_eq := ht.length_live
  free_nodup := ht.sound.free_nodup
  mem_free_iff := ht.sound.mem_free_iff

end Tracked

/-- Whatever happened to an arena that began empty, it is the map that its ledger describes. -/
theorem refines_of_history {a : Arena α} {l : Ledger α} (h : a.History l) (hb : l.Bounded) :
    Refines a l :=
  (h.leads.tracked tracked_empty hb).refines

/-- A slot that was emptied and filled again. -/
def reused : Arena Nat := (((empty.alloc 1).2.remove ⟨0, 0⟩).2.alloc 2).2

theorem refines_reused :
    Arena.History reused [(⟨0, 1⟩, some 2), (⟨0, 0⟩, none)] ∧
      Ledger.Bounded [((⟨0, 1⟩ : Handle), some 2), (⟨0, 0⟩, none)] ∧
      Refines reused [(⟨0, 1⟩, some 2), (⟨0, 0⟩, none)] := by
  have hist : Arena.History reused [(⟨0, 1⟩, some 2), (⟨0, 0⟩, none)] :=
    .alloc 2 (.remove ⟨0, 0⟩ (.alloc 1 .empty))
  have hb : Ledger.Bounded [((⟨0, 1⟩ : Handle), some 2), (⟨0, 0⟩, none)] := by
    intro index
    exact (List.countP_le_length).trans_lt (by decide)
  exact ⟨hist, hb, refines_of_history hist hb⟩

end Arena

end FrameLisp.Store
