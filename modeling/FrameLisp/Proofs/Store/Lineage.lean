import FrameLisp.Proofs.Store.Scopes

/-!
# Lineages

The live frames form a tree. From each of them the parents lead to the root, past frames that are
all live and different, and a look-up goes along this lineage up to the first frame that binds the
name. So look-ups and assignments from a live frame come to an end, and no handle that they meet
outlived its frame.
-/
namespace FrameLisp.Store.Environments

variable {s : Environments}

/-- Only the root has no parent. -/
def Rooted (s : Environments) : Prop :=
  ∀ h f, s.frames.get? h = some f → (f.parent = none ↔ h = s.root)

section Operations

theorem rooted_new : new.Rooted := by
  intro h f hf
  have hroot : h = new.root := by
    have hnew := hf
    rw [show new.frames = (Arena.empty.alloc (Frame.empty none)).2 from rfl,
      Arena.sound_empty.get?_alloc] at hnew
    split at hnew
    · assumption
    · simp at hnew
  simp [parent_of_get?_new hf, hroot]

/-- The root stays live, so a new frame has another handle. -/
theorem Rooted.extend (hr : s.Rooted) (hs : s.Scoped) (parent : Handle) (bindings : Bindings) :
    (s.extend parent bindings).2.Rooted := by
  intro h f hf
  rw [get?_extend hs.arena] at hf
  rw [extend_snd_root]
  split at hf
  · next he =>
    have hne : h ≠ s.root := by
      rintro rfl
      obtain ⟨g, hg⟩ := Arena.contains_eq_true_iff.1 hs.root
      rw [he, get?_extend_fst hs.arena] at hg
      cases hg
    cases hf
    simp [hne]
  · exact hr h f hf

theorem Rooted.bindIn (hr : s.Rooted) {env : Handle} {f : Frame}
    (hf : s.frames.get? env = some f) (name : String) (value : Datum) :
    (s.bindIn env f name value).Rooted := by
  intro h g hg
  rw [get?_bindIn hf] at hg
  split at hg
  · next he =>
    cases hg
    exact hr h f (he ▸ hf)
  · exact hr h g hg

theorem Rooted.define (hr : s.Rooted) (env : Handle) (name : String) (value : Datum) :
    (s.define env name value).2.Rooted := by
  simp only [Environments.define]
  split
  · next f hf => exact hr.bindIn hf name value
  · exact hr

theorem Rooted.assign (hr : s.Rooted) (env : Handle) (name : String) (value : Datum) :
    (s.assign env name value).2.Rooted := by
  simp only [Environments.assign]
  split
  · next owner f old hn => exact hr.bindIn (get?_of_nearestFrom hn).1 name value
  · exact hr

theorem Rooted.collect (hr : s.Rooted) (live : List Handle) : (s.collect live).2.Rooted :=
  fun h f hf => hr h f (get?_collect_eq_some_iff.1 hf).1

theorem Reached.rooted (h : s.Reached) : s.Rooted := by
  induction h with
  | new => exact rooted_new
  | extend parent p arguments mark hs _ ih => exact ih.extend hs.scoped parent _
  | define env name value _ ih => exact ih.define env name value
  | defineGlobal name value _ ih => exact ih.define _ name value
  | assign env name value _ ih => exact ih.assign env name value
  | collect live _ ih => exact ih.collect live

end Operations

/-- The frames from one frame on, each followed by its parent, up to the root. -/
inductive Lineage (s : Environments) : Handle → List Handle → Prop
  | root {f} : s.frames.get? s.root = some f → f.parent = none → Lineage s s.root [s.root]
  | child {env f p chain} : s.frames.get? env = some f → f.parent = some p → Lineage s p chain →
      Lineage s env (env :: chain)

/-- What the first frame that binds a name has for it, if all frames before it are live. -/
def firstOf (s : Environments) (name : String) :
    List Handle → Except EvalError (Handle × Frame × Datum)
  | [] => .error (.unbound name)
  | env :: chain =>
    match s.frames.get? env with
    | none => .error .reclaimed
    | some f =>
      match f.bindings.find? name with
      | some value => .ok (env, f, value)
      | none => firstOf s name chain

section Lineages

variable {env : Handle} {chain : List Handle}

theorem Lineage.contains (hl : s.Lineage env chain) :
    ∀ h ∈ chain, s.frames.contains h = true := by
  induction hl with
  | root hf _ => simpa using ⟨_, hf⟩
  | child hf _ _ ih =>
    exact List.forall_mem_cons.2 ⟨Arena.contains_eq_true_iff.2 ⟨_, hf⟩, ih⟩

/-- Every frame is younger than those behind it in its lineage. -/
theorem Lineage.age_lt {age : Handle → Nat}
    (hage : ∀ h f p, s.frames.get? h = some f → f.parent = some p → age p < age h)
    (hl : s.Lineage env chain) : chain.Pairwise (fun h k => age k < age h) ∧
      ∀ h ∈ chain, age h ≤ age env := by
  induction hl with
  | root => simp
  | @child env f p chain hf hp _ ih =>
    obtain ⟨hpairs, hle⟩ := ih
    have hlt : ∀ h ∈ chain, age h < age env := fun h hh =>
      (hle h hh).trans_lt (hage env f p hf hp)
    exact ⟨List.pairwise_cons.2 ⟨hlt, hpairs⟩,
      List.forall_mem_cons.2 ⟨le_rfl, fun h hh => (hlt h hh).le⟩⟩

theorem Lineage.nodup (hs : s.Scoped) (hl : s.Lineage env chain) : chain.Nodup := by
  obtain ⟨age, hage⟩ := hs.age
  refine (hl.age_lt hage).1.imp fun hlt he => ?_
  rw [he] at hlt
  exact lt_irrefl _ hlt

/-- A look-up passes the frames of the lineage in turn and no others. -/
theorem Lineage.finds (hl : s.Lineage env chain) (name : String) :
    s.Finds name env (s.firstOf name chain) := by
  induction hl with
  | root hf hp =>
    simp only [firstOf, hf]
    split
    · next value hv => exact .here hf hv
    · next hv => exact .unbound hf hv hp
  | child hf hp _ ih =>
    simp only [firstOf, hf]
    split
    · next value hv => exact .here hf hv
    · next hv => exact .parent hf hv hp ih

theorem Scoped.exists_lineage (hs : s.Scoped) (hr : s.Rooted)
    (henv : s.frames.contains env = true) : ∃ chain, s.Lineage env chain := by
  obtain ⟨age, hage⟩ := hs.age
  induction hn : age env using Nat.strong_induction_on generalizing env with
  | _ n ih =>
    obtain ⟨f, hf⟩ := Arena.contains_eq_true_iff.1 henv
    cases hp : f.parent with
    | none =>
      obtain rfl := (hr env f hf).1 hp
      exact ⟨_, .root hf hp⟩
    | some p =>
      obtain ⟨chain, hl⟩ := ih (age p) (hn ▸ hage env f p hf hp) (hs.parent hf hp) rfl
      exact ⟨_, .child hf hp hl⟩

/-- Where all frames are live, only the name can be missing. -/
theorem firstOf_error {name : String} {e : EvalError}
    (hlive : ∀ h ∈ chain, s.frames.contains h = true) (he : s.firstOf name chain = .error e) :
    e = .unbound name := by
  fun_induction firstOf s name chain with
  | case1 => exact (Except.error.inj he).symm
  | case2 env chain hnone =>
    obtain ⟨f, hf⟩ := Arena.contains_eq_true_iff.1 (hlive env List.mem_cons_self)
    simp [hnone] at hf
  | case3 => cases he
  | case4 env chain f hf hv ih => exact ih (fun h hh => hlive h (List.mem_cons_of_mem _ hh)) he

end Lineages

/-- The live frames are a tree below the root. -/
structure Tree (s : Environments) : Prop where
  root : s.frames.contains s.root = true
  parent : ∀ env f p, s.frames.get? env = some f → f.parent = some p →
    s.frames.contains p = true
  /-- From every live frame finitely many parents lead to the root, all of them different, and
  exactly these frames are looked at, in turn, for a name. -/
  lineage : ∀ env, s.frames.contains env = true → ∃ chain, s.Lineage env chain ∧ chain.Nodup ∧
    ∀ name, s.nearest env name = s.firstOf name chain
  lookup_error : ∀ env name e, s.frames.contains env = true → s.lookup env name = .error e →
    e = .unbound name
  assign_error : ∀ env name value e, s.frames.contains env = true →
    (s.assign env name value).1 = .error e → e = .unbound name

theorem Reached.exists_lineage (h : s.Reached) {env : Handle}
    (henv : s.frames.contains env = true) : ∃ chain, s.Lineage env chain ∧ chain.Nodup ∧
      ∀ name, s.nearest env name = s.firstOf name chain := by
  obtain ⟨chain, hl⟩ := h.scoped.exists_lineage h.rooted henv
  exact ⟨chain, hl, hl.nodup h.scoped, fun name => h.scoped.nearest_eq (hl.finds name)⟩

theorem Reached.nearest_error (h : s.Reached) {env : Handle} {name : String} {e : EvalError}
    (henv : s.frames.contains env = true) (he : s.nearest env name = .error e) :
    e = .unbound name := by
  obtain ⟨chain, hl, -, hnearest⟩ := h.exists_lineage henv
  exact firstOf_error hl.contains ((hnearest name).symm.trans he)

/-- Whatever was done to the environments, their live frames are a tree. -/
theorem Reached.tree (h : s.Reached) : s.Tree where
  root := h.scoped.root
  parent _ _ _ hf hp := h.scoped.parent hf hp
  lineage _ henv := h.exists_lineage henv
  lookup_error env name e henv he := by
    simp only [Environments.lookup] at he
    split at he
    · cases he
    · next hnearest => exact Except.error.inj he ▸ h.nearest_error henv hnearest
  assign_error env name value e henv he := by
    simp only [Environments.assign] at he
    split at he
    · cases he
    · next hnearest => exact Except.error.inj he ▸ h.nearest_error henv hnearest

/-- A frame in the slot of one that was freed. -/
def regrown : Environments :=
  let s := (new.extend new.root (bind ⟨["x"], none⟩ [.nil] 0).1).2
  let s := (s.collect []).2
  (s.extend s.root (bind ⟨["y"], none⟩ [.nil] 0).1).2

theorem tree_regrown : regrown.Reached ∧ regrown.Tree := by
  have hfirst := Reached.extend new.root ⟨["x"], none⟩ [.nil] 0 .new rfl
  have hcollected := hfirst.collect []
  have hroot := hcollected.scoped.root
  have hr : regrown.Reached := by
    refine .extend _ ⟨["y"], none⟩ [.nil] 0 hcollected ?_
    rw [extendFault?, if_pos hroot]
    rfl
  exact ⟨hr, hr.tree⟩

end FrameLisp.Store.Environments
