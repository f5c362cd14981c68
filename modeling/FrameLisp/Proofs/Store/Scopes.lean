import FrameLisp.Proofs.Store.Marking
import FrameLisp.Store.History

/-!
# Scopes

What holds of environments whatever was done to them: the root is live, every live frame was
extended from a live one, and parents are older than their children, though slots are used again.
A name is therefore looked up along finitely many frames, and the bound on the steps of a look-up
is never reached.
-/
namespace FrameLisp.Store.Environments

/-- The root and all parents are live, and some measure of age decreases along parents. -/
structure Scoped (s : Environments) : Prop where
  arena : s.frames.Sound
  root : s.frames.contains s.root = true
  parent : ∀ {h f p}, s.frames.get? h = some f → f.parent = some p →
    s.frames.contains p = true
  age : ∃ age : Handle → Nat, ∀ h f p, s.frames.get? h = some f → f.parent = some p →
    age p < age h

section Operations

variable {s : Environments}

@[simp] theorem extend_snd_root (s : Environments) (parent : Handle) (bindings : Bindings) :
    (s.extend parent bindings).2.root = s.root := rfl

/-- A new frame is found under its handle, and all others as before. -/
theorem get?_extend (hs : s.frames.Sound) (parent : Handle) (bindings : Bindings) (h : Handle) :
    (s.extend parent bindings).2.frames.get? h =
      if h = (s.extend parent bindings).1 then some ⟨bindings, some parent⟩
      else s.frames.get? h :=
  hs.get?_alloc _ h

/-- The handle of a new frame was not live. -/
theorem get?_extend_fst (hs : s.frames.Sound) (parent : Handle) (bindings : Bindings) :
    s.frames.get? (s.extend parent bindings).1 = none :=
  hs.get?_alloc_slot _ rfl

theorem get?_bindIn {env : Handle} {f : Frame} (hf : s.frames.get? env = some f) (name : String)
    (value : Datum) (h : Handle) :
    (s.bindIn env f name value).frames.get? h =
      if h = env then some ⟨f.bindings.insert name value, f.parent⟩ else s.frames.get? h := by
  simp only [bindIn, Arena.get?_set, hf, Option.map_some]

theorem contains_extend {h : Handle} (hs : s.frames.Sound) (parent : Handle) (bindings : Bindings)
    (hh : s.frames.contains h = true) :
    (s.extend parent bindings).2.frames.contains h = true := by
  obtain ⟨f, hf⟩ := Arena.contains_eq_true_iff.1 hh
  rw [Arena.contains_eq_true_iff, get?_extend hs]
  split
  · exact ⟨_, rfl⟩
  · exact ⟨f, hf⟩

theorem contains_bindIn {env h : Handle} {f : Frame} (hf : s.frames.get? env = some f)
    (name : String) (value : Datum) :
    (s.bindIn env f name value).frames.contains h = true ↔ s.frames.contains h = true := by
  simp only [Arena.contains_eq_true_iff, get?_bindIn hf]
  split
  · next he => simp [he, hf]
  · rfl

/-- At the beginning there is only the root, which binds nothing. -/
theorem eq_empty_of_get?_new {h : Handle} {f : Frame} (hf : new.frames.get? h = some f) :
    f = Frame.empty none := by
  rw [show new.frames = (Arena.empty.alloc (Frame.empty none)).2 from rfl,
    Arena.sound_empty.get?_alloc] at hf
  split at hf
  · exact (Option.some.inj hf).symm
  · simp at hf

theorem parent_of_get?_new {h : Handle} {f : Frame} (hf : new.frames.get? h = some f) :
    f.parent = none := by
  rw [eq_empty_of_get?_new hf]
  rfl

theorem scoped_new : new.Scoped where
  arena := Arena.sound_empty.alloc _
  root := by rfl
  parent := by
    intro h f p hf hp
    simp [parent_of_get?_new hf] at hp
  age := by
    refine ⟨fun _ => 0, fun h f p hf hp => ?_⟩
    simp [parent_of_get?_new hf] at hp

/-- The new frame is the youngest; no frame refers to it yet. -/
theorem Scoped.extend (hs : s.Scoped) {parent : Handle}
    (hparent : s.frames.contains parent = true) (bindings : Bindings) :
    (s.extend parent bindings).2.Scoped := by
  have hkeep : ∀ {h}, s.frames.contains h = true →
      (s.extend parent bindings).2.frames.contains h = true :=
    contains_extend hs.arena parent bindings
  obtain ⟨age, hage⟩ := hs.age
  refine ⟨hs.arena.alloc _, hkeep hs.root, ?_, ?_⟩
  · intro h f p hf hp
    rw [get?_extend hs.arena] at hf
    split at hf
    · cases hf
      cases hp
      exact hkeep hparent
    · exact hkeep (hs.parent hf hp)
  · have hnew : ∀ {h}, s.frames.contains h = true → h ≠ (s.extend parent bindings).1 := by
      intro h hh he
      obtain ⟨f, hf⟩ := Arena.contains_eq_true_iff.1 hh
      rw [he, get?_extend_fst hs.arena] at hf
      simp at hf
    refine ⟨Function.update age (s.extend parent bindings).1 (age parent + 1), ?_⟩
    intro h f p hf hp
    rw [get?_extend hs.arena] at hf
    split at hf
    · next he =>
      cases hf
      cases hp
      rw [he, Function.update_self, Function.update_of_ne (hnew hparent)]
      exact Nat.lt_succ_self _
    · next he =>
      rw [Function.update_of_ne he, Function.update_of_ne (hnew (hs.parent hf hp))]
      exact hage h f p hf hp

theorem Scoped.bindIn (hs : s.Scoped) {env : Handle} {f : Frame}
    (hf : s.frames.get? env = some f) (name : String) (value : Datum) :
    (s.bindIn env f name value).Scoped := by
  have hold : ∀ {h g p}, (s.bindIn env f name value).frames.get? h = some g →
      g.parent = some p → ∃ g', s.frames.get? h = some g' ∧ g'.parent = some p := by
    intro h g p hg hp
    rw [get?_bindIn hf] at hg
    split at hg
    · next he =>
      cases hg
      exact ⟨f, he ▸ hf, hp⟩
    · exact ⟨g, hg, hp⟩
  obtain ⟨age, hage⟩ := hs.age
  refine ⟨hs.arena.set _ _, (contains_bindIn hf name value).2 hs.root, ?_, age, ?_⟩
  · intro h g p hg hp
    obtain ⟨g', hg', hp'⟩ := hold hg hp
    exact (contains_bindIn hf name value).2 (hs.parent hg' hp')
  · intro h g p hg hp
    obtain ⟨g', hg', hp'⟩ := hold hg hp
    exact hage h g' p hg' hp'

theorem Scoped.define (hs : s.Scoped) (env : Handle) (name : String) (value : Datum) :
    (s.define env name value).2.Scoped := by
  simp only [Environments.define]
  split
  · next f hf => exact hs.bindIn hf name value
  · exact hs

/-- A survivor's parent survives, since it is reachable from the survivor. -/
theorem Scoped.collect (hs : s.Scoped) (live : List Handle) : (s.collect live).2.Scoped := by
  obtain ⟨age, hage⟩ := hs.age
  refine ⟨hs.arena.retain _, contains_collect_iff.2 ⟨hs.root, .root⟩, ?_, age, ?_⟩
  · intro h f p hf hp
    obtain ⟨hf, hr⟩ := get?_collect_eq_some_iff.1 hf
    exact contains_collect_iff.2 ⟨hs.parent hf hp, hr.step hf (.parent hp)⟩
  · intro h f p hf hp
    exact hage h f p (get?_collect_eq_some_iff.1 hf).1 hp

end Operations

/-- What a look-up along the parents comes to, without a bound on its steps. -/
inductive Finds (s : Environments) (name : String) :
    Handle → Except EvalError (Handle × Frame × Datum) → Prop
  | reclaimed {env} : s.frames.get? env = none → Finds s name env (.error .reclaimed)
  | here {env f value} : s.frames.get? env = some f → f.bindings.find? name = some value →
      Finds s name env (.ok (env, f, value))
  | unbound {env f} : s.frames.get? env = some f → f.bindings.find? name = none →
      f.parent = none → Finds s name env (.error (.unbound name))
  | parent {env f p result} : s.frames.get? env = some f → f.bindings.find? name = none →
      f.parent = some p → Finds s name p result → Finds s name env result

variable {s : Environments} {name : String}

theorem Finds.unique {env : Handle} {x y : Except EvalError (Handle × Frame × Datum)}
    (hx : s.Finds name env x) (hy : s.Finds name env y) : x = y := by
  induction hx with
  | reclaimed hn => cases hy <;> simp_all
  | here hf hv => cases hy <;> simp_all
  | unbound hf hn hp => cases hy <;> simp_all
  | parent hf hn hp _ ih =>
    cases hy with
    | reclaimed hn' => simp_all
    | here hf' hv' => simp_all
    | unbound hf' hn' hp' => simp_all
    | parent hf' hn' hp' hrest =>
      obtain rfl := Option.some.inj (hf.symm.trans hf')
      obtain rfl := Option.some.inj (hp.symm.trans hp')
      exact ih hrest

theorem get?_of_nearestFrom {steps : Nat} {env owner : Handle} {f : Frame} {value : Datum}
    (hn : s.nearestFrom name steps env = .ok (owner, f, value)) :
    s.frames.get? owner = some f ∧ f.bindings.find? name = some value := by
  fun_induction nearestFrom s name steps env with
  | case1 => simp at hn
  | case2 => simp at hn
  | case3 steps env g hg v hv =>
    cases hn
    exact ⟨hg, hv⟩
  | case4 steps env g hg hv p hp ih => exact ih hn
  | case5 => simp at hn

/-- Different live handles have different slots, so there are no more of them than slots. -/
theorem length_le_of_nodup {frames : Arena Frame} {handles : List Handle} (hn : handles.Nodup)
    (hlive : ∀ h ∈ handles, frames.contains h = true) : handles.length ≤ frames.slots.size := by
  have hindices : (handles.map Handle.index).Nodup := by
    refine hn.map_on fun h hh k hk he => ?_
    obtain ⟨f, hf⟩ := Arena.contains_eq_true_iff.1 (hlive h hh)
    obtain ⟨g, hg⟩ := Arena.contains_eq_true_iff.1 (hlive k hk)
    exact Arena.eq_of_index_eq hf hg he
  have hsub : handles.map Handle.index ⊆ List.range frames.slots.size := by
    intro i hi
    obtain ⟨h, hh, rfl⟩ := List.mem_map.1 hi
    obtain ⟨f, hf⟩ := Arena.contains_eq_true_iff.1 (hlive h hh)
    exact List.mem_range.2 (Arena.lt_size_of_get?_eq_some hf)
  simpa using (hindices.subperm hsub).length_le

/-- The frames passed so far are younger than those to come, so none is passed twice, and the
steps that are left suffice for those that were not passed. -/
theorem Scoped.finds_nearestFrom {age : Handle → Nat}
    (hage : ∀ h f p, s.frames.get? h = some f → f.parent = some p → age p < age h) (steps : Nat)
    (env : Handle) (passed : List Handle) (hn : passed.Nodup)
    (hpassed : ∀ h ∈ passed, s.frames.contains h = true ∧ age env < age h)
    (hsteps : s.frames.slots.size < passed.length + steps) :
    s.Finds name env (s.nearestFrom name steps env) := by
  fun_induction nearestFrom s name steps env generalizing passed with
  | case1 env =>
    have hle := length_le_of_nodup hn fun h hh => (hpassed h hh).1
    omega
  | case2 steps env hnone => exact .reclaimed hnone
  | case3 steps env f hf value hv => exact .here hf hv
  | case4 steps env f hf hv p hp ih =>
    refine .parent hf hv hp (ih (env :: passed) ?_ ?_ ?_)
    · refine List.nodup_cons.2 ⟨fun hm => ?_, hn⟩
      exact absurd (hpassed env hm).2 (Nat.lt_irrefl _)
    · have hlt := hage env f p hf hp
      intro h hh
      rcases List.mem_cons.1 hh with rfl | hh
      · exact ⟨Arena.contains_eq_true_iff.2 ⟨f, hf⟩, hlt⟩
      · exact ⟨(hpassed h hh).1, hlt.trans (hpassed h hh).2⟩
    · rw [List.length_cons]
      omega
  | case5 steps env f hf hv hp => exact .unbound hf hv hp

theorem Scoped.finds_nearest (hs : s.Scoped) (env : Handle) (name : String) :
    s.Finds name env (s.nearest env name) := by
  obtain ⟨age, hage⟩ := hs.age
  exact finds_nearestFrom hage _ env [] List.nodup_nil (by simp) (by simp)

theorem Scoped.nearest_eq (hs : s.Scoped) {env : Handle}
    {result : Except EvalError (Handle × Frame × Datum)} (h : s.Finds name env result) :
    s.nearest env name = result :=
  (hs.finds_nearest env name).unique h

theorem Scoped.assign (hs : s.Scoped) (env : Handle) (name : String) (value : Datum) :
    (s.assign env name value).2.Scoped := by
  simp only [Environments.assign]
  split
  · next owner f old hn => exact hs.bindIn (get?_of_nearestFrom hn).1 name value
  · exact hs

theorem contains_of_extendFault? {parent : Handle} {p : Parameters} {count : Nat}
    (h : s.extendFault? parent p count = none) : s.frames.contains parent = true := by
  rw [extendFault?] at h
  split at h
  · assumption
  · simp at h

theorem Reached.scoped (h : s.Reached) : s.Scoped := by
  induction h with
  | new => exact scoped_new
  | extend parent p arguments mark _ hfault ih =>
    exact ih.extend (contains_of_extendFault? hfault) _
  | define env name value _ ih => exact ih.define env name value
  | defineGlobal name value _ ih => exact ih.define _ name value
  | assign env name value _ ih => exact ih.assign env name value
  | collect live _ ih => exact ih.collect live

end FrameLisp.Store.Environments
