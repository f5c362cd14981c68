import FrameLisp.Proofs.Eval.Renaming
import FrameLisp.Proofs.Store.Scopes

/-!
# Environments up to handles

Two environments with the same frames under different handles. A relocation tells the handles that
are in use and where their frames are in the other environments; what is used refers only to what
is used, and is live. Look-ups, bindings and new frames keep two environments together, and so does
a collection in one of them alone, since it frees only what the root does not lead to.
-/
namespace FrameLisp

open Store

/-- The handles in use, and the handles of the same frames elsewhere. -/
structure Relocation where
  map : Handle → Handle
  used : Handle → Prop

namespace Relocation

/-- Of two relocations, the greater one may use more handles. -/
instance : Preorder Relocation where
  le w w' := ∀ h, w.used h → w'.used h ∧ w'.map h = w.map h
  le_refl _ _ hu := ⟨hu, rfl⟩
  le_trans _ _ _ h h' k hu :=
    have ⟨hk, he⟩ := h k hu
    have ⟨hk', he'⟩ := h' k hk
    ⟨hk', he'.trans he⟩

/-- No other frame is used. -/
def add (w : Relocation) (h k : Handle) : Relocation :=
  ⟨Function.update w.map h k, fun x => x = h ∨ w.used x⟩

theorem map_add (w : Relocation) (h k : Handle) : (w.add h k).map h = k :=
  Function.update_self _ _ _

theorem le_add {w : Relocation} {h k : Handle} (hn : ¬ w.used h) : w ≤ w.add h k := by
  intro x hx
  refine ⟨.inr hx, Function.update_of_ne ?_ _ _⟩
  rintro rfl
  exact hn hx

end Relocation

/-- One of the primitives of every session. -/
def Primitive.IsBuiltin (p : Primitive) : Prop := p ∈ builtin

/-- The same datum elsewhere. -/
def Datum.Relocated (w : Relocation) (d d' : Datum) : Prop :=
  d.Within w.used Primitive.IsBuiltin ∧ d' = d.rename w.map

/-- The same data elsewhere, one by one. -/
def Datum.AllRelocated (w : Relocation) (ds ds' : List Datum) : Prop :=
  (∀ d ∈ ds, d.Within w.used Primitive.IsBuiltin) ∧ ds' = ds.map (rename w.map)

variable {w w' : Relocation}

theorem Datum.Within.rename_of_le {d : Datum} {q : Primitive → Prop} (hw : w ≤ w')
    (hd : d.Within w.used q) : d.rename w'.map = d.rename w.map :=
  hd.rename_congr fun h hu => (hw h hu).2

theorem Datum.Relocated.mono {d d' : Datum} (hw : w ≤ w') (h : d.Relocated w d') :
    d.Relocated w' d' :=
  ⟨h.1.mono fun k hk => (hw k hk).1, h.2.trans (h.1.rename_of_le hw).symm⟩

theorem Datum.AllRelocated.mono {ds ds' : List Datum} (hw : w ≤ w') (h : AllRelocated w ds ds') :
    AllRelocated w' ds ds' := by
  refine ⟨fun d hd => (h.1 d hd).mono fun k hk => (hw k hk).1, h.2.trans ?_⟩
  exact List.map_congr_left fun d hd => ((h.1 d hd).rename_of_le hw).symm

theorem Datum.Plain.relocated {d : Datum} (hd : d.Plain) : d.Relocated w d :=
  ⟨hd.within, hd.rename_eq.symm⟩

theorem Datum.relocated_primitive {p : Primitive} (hp : p.IsBuiltin) :
    (Datum.primitive p).Relocated w (.primitive p) := ⟨hp, rfl⟩

namespace Store

namespace Bindings

variable {σ : Handle → Handle} {p : Handle → Prop} {q : Primitive → Prop}

def rename (σ : Handle → Handle) (b : Bindings) : Bindings := b.map fun (n, v) => (n, v.rename σ)

def Within (p : Handle → Prop) (q : Primitive → Prop) (b : Bindings) : Prop :=
  ∀ entry ∈ b, entry.2.Within p q

@[simp] theorem find?_rename (b : Bindings) (name : String) :
    (b.rename σ).find? name = (b.find? name).map (Datum.rename σ) := by
  induction b with
  | nil => rfl
  | cons entry b ih =>
    simp only [rename, List.map_cons, find?] at ih ⊢
    split
    · rfl
    · exact ih

@[simp] theorem insert_rename (b : Bindings) (name : String) (value : Datum) :
    (b.rename σ).insert name (value.rename σ) = (b.insert name value).rename σ := by
  induction b with
  | nil => rfl
  | cons entry b ih =>
    simp only [rename, List.map_cons, insert] at ih ⊢
    split
    · rfl
    · rw [ih]
      rfl

@[simp] theorem insertAll_rename (b : Bindings) (names : List String) (values : List Datum) :
    (b.rename σ).insertAll names (values.map (Datum.rename σ)) =
      (b.insertAll names values).rename σ := by
  induction names generalizing b values with
  | nil => rfl
  | cons name names ih =>
    cases values with
    | nil => rfl
    | cons value values => rw [List.map_cons, insertAll, insertAll, insert_rename, ih]

theorem Within.find? {b : Bindings} (hb : b.Within p q) {name : String} {value : Datum}
    (hf : b.find? name = some value) : value.Within p q := by
  induction b with
  | nil => simp [Bindings.find?] at hf
  | cons entry b ih =>
    obtain ⟨hentry, hrest⟩ := List.forall_mem_cons.1 hb
    rw [Bindings.find?] at hf
    split at hf
    · exact Option.some.inj hf ▸ hentry
    · exact ih hrest hf

theorem Within.insert {b : Bindings} (hb : b.Within p q) (name : String) {value : Datum}
    (hv : value.Within p q) : (b.insert name value).Within p q := by
  induction b with
  | nil => simpa [Bindings.insert, Within] using hv
  | cons entry b ih =>
    obtain ⟨hentry, hrest⟩ := List.forall_mem_cons.1 hb
    rw [Bindings.insert]
    split
    · exact List.forall_mem_cons.2 ⟨hv, hrest⟩
    · exact List.forall_mem_cons.2 ⟨hentry, ih hrest⟩

theorem Within.insertAll {b : Bindings} (hb : b.Within p q) (names : List String)
    {values : List Datum} (hv : ∀ value ∈ values, value.Within p q) :
    (b.insertAll names values).Within p q := by
  induction names generalizing b values with
  | nil => exact hb
  | cons name names ih =>
    cases values with
    | nil => exact hb
    | cons value values =>
      obtain ⟨hvalue, hrest⟩ := List.forall_mem_cons.1 hv
      exact ih (hb.insert name hvalue) hrest

theorem Within.mono {p' : Handle → Prop} {b : Bindings} (hb : b.Within p q)
    (hp : ∀ h, p h → p' h) : b.Within p' q :=
  fun entry he => (hb entry he).mono hp

theorem Within.rename_congr {τ : Handle → Handle} {b : Bindings} (hb : b.Within p q)
    (hσ : ∀ h, p h → σ h = τ h) : b.rename σ = b.rename τ := by
  refine List.map_congr_left fun entry he => ?_
  exact congrArg (Prod.mk entry.1) ((hb entry he).rename_congr hσ)

end Bindings

/-- The same frame elsewhere. -/
structure Frame.Relocated (w : Relocation) (f g : Frame) : Prop where
  within : f.bindings.Within w.used Primitive.IsBuiltin
  parent : ∀ p, f.parent = some p → w.used p
  eq_rename : g = ⟨f.bindings.rename w.map, f.parent.map w.map⟩

theorem Frame.Relocated.mono {f g : Frame} (hw : w ≤ w') (h : f.Relocated w g) :
    f.Relocated w' g where
  within := h.within.mono fun k hk => (hw k hk).1
  parent p hp := (hw p (h.parent p hp)).1
  eq_rename := by
    rw [h.eq_rename, h.within.rename_congr fun k hk => (hw k hk).2.symm]
    refine congrArg (Frame.mk _) ?_
    cases hp : f.parent with
    | none => rfl
    | some p => exact congrArg some (hw p (h.parent p hp)).2.symm

theorem Frame.Relocated.used_of_refers {f g : Frame} (h : f.Relocated w g) {k : Handle}
    (hr : f.Refers k) : w.used k := by
  cases hr with
  | parent hp => exact h.parent _ hp
  | value hb hm => exact (h.within _ hb).mentions hm

/-- Of what is used, only what the frame refers to matters. -/
theorem Frame.Relocated.restrict {f g : Frame} (h : f.Relocated w g) {p : Handle → Prop}
    (hp : ∀ k, f.Refers k → p k) : f.Relocated ⟨w.map, p⟩ g where
  within entry he := (h.within entry he).of_mentions fun _ hm => hp _ (.value he hm)
  parent k hk := hp k (.parent hk)
  eq_rename := h.eq_rename

theorem Frame.Relocated.refers {f g : Frame} (h : f.Relocated w g) {k : Handle}
    (hr : f.Refers k) : g.Refers (w.map k) := by
  rw [h.eq_rename]
  cases hr with
  | parent hp => exact .parent (congrArg (Option.map w.map) hp)
  | value hb hm => exact .value (List.mem_map_of_mem hb) (hm.rename _)

namespace Environments

/-- What is used is live, and the same frames are found elsewhere. -/
structure Relocated (w : Relocation) (s t : Environments) : Prop where
  left : s.Scoped
  right : t.Scoped
  root : w.used s.root ∧ t.root = w.map s.root
  injective : ∀ h k, w.used h → w.used k → w.map h = w.map k → h = k
  frame : ∀ h, w.used h → ∃ f g, s.frames.get? h = some f ∧
    t.frames.get? (w.map h) = some g ∧ f.Relocated w g

variable {s t : Environments}

theorem Relocated.contains_left (h : s.Relocated w t) {k : Handle} (hk : w.used k) :
    s.frames.contains k = true := by
  obtain ⟨f, -, hf, -, -⟩ := h.frame k hk
  exact Arena.contains_eq_true_iff.2 ⟨f, hf⟩

theorem Relocated.contains_right (h : s.Relocated w t) {k : Handle} (hk : w.used k) :
    t.frames.contains (w.map k) = true := by
  obtain ⟨-, g, -, hg, -⟩ := h.frame k hk
  exact Arena.contains_eq_true_iff.2 ⟨g, hg⟩

theorem Relocated.used_of_reachable (h : s.Relocated w t) {k : Handle} (hr : s.Reachable [] k) :
    w.used k := by
  refine hr.mem_of_closed h.root.1 (by simp) fun k f k' hk hf href => ?_
  obtain ⟨f', g, hf', -, hfg⟩ := h.frame k hk
  obtain rfl := Option.some.inj (hf.symm.trans hf')
  exact hfg.used_of_refers href

theorem Relocated.reachable (h : s.Relocated w t) {k : Handle} (hr : s.Reachable [] k)
    (live : List Handle) : t.Reachable live (w.map k) := by
  suffices hk : w.used k ∧ t.Reachable live (w.map k) from hk.2
  refine hr.mem_of_closed (p := fun k => w.used k ∧ t.Reachable live (w.map k))
    ⟨h.root.1, h.root.2 ▸ .root⟩ (by simp) fun k f k' hk hf href => ?_
  obtain ⟨f', g, hf', hg, hfg⟩ := h.frame k hk.1
  obtain rfl := Option.some.inj (hf.symm.trans hf')
  exact ⟨hfg.used_of_refers href, hk.2.step hg (hfg.refers href)⟩

theorem Reachable.of_nil {live : List Handle} {k : Handle} (hr : s.Reachable [] k) :
    s.Reachable live k :=
  hr.mem_of_closed .root (by simp) fun _ _ _ hk hf href => hk.step hf href

section Collections

/-- Frames that the root does not lead to may be gone from either side. -/
theorem Relocated.of_reachable {s' t' : Environments} (h : s.Relocated w t) (hs : s'.Scoped)
    (ht : t'.Scoped) (hsroot : s'.root = s.root) (htroot : t'.root = t.root)
    (hsframe : ∀ k f, s.Reachable [] k → s.frames.get? k = some f → s'.frames.get? k = some f)
    (htframe : ∀ k g, s.Reachable [] k → t.frames.get? (w.map k) = some g →
      t'.frames.get? (w.map k) = some g) :
    s'.Relocated ⟨w.map, s.Reachable []⟩ t' where
  left := hs
  right := ht
  root := ⟨hsroot ▸ .root, by rw [htroot, hsroot, h.root.2]⟩
  injective k l hk hl := h.injective k l (h.used_of_reachable hk) (h.used_of_reachable hl)
  frame k hk := by
    obtain ⟨f, g, hf, hg, hfg⟩ := h.frame k (h.used_of_reachable hk)
    exact ⟨f, g, hsframe k f hk hf, htframe k g hk hg, hfg.restrict fun l hl => hk.step hf hl⟩

theorem Relocated.collect_left (h : s.Relocated w t) (live : List Handle) :
    (s.collect live).2.Relocated ⟨w.map, s.Reachable []⟩ t :=
  h.of_reachable (h.left.collect live) h.right rfl rfl
    (fun _ _ hk hf => get?_collect_eq_some_iff.2 ⟨hf, hk.of_nil⟩) fun _ _ _ hg => hg

theorem Relocated.collect_right (h : s.Relocated w t) (live : List Handle) :
    s.Relocated ⟨w.map, s.Reachable []⟩ (t.collect live).2 :=
  h.of_reachable h.left (h.right.collect live) rfl rfl (fun _ _ _ hf => hf)
    fun _ _ hk hg => get?_collect_eq_some_iff.2 ⟨hg, h.reachable hk live⟩

end Collections

theorem Relocated.extendFault? (h : s.Relocated w t) {parent : Handle} (hp : w.used parent)
    (p : Parameters) (count : Nat) :
    s.extendFault? parent p count = (p.arity.mismatch? count).map .arity ∧
      t.extendFault? (w.map parent) p count = (p.arity.mismatch? count).map .arity := by
  rw [Environments.extendFault?, Environments.extendFault?, if_pos (h.contains_left hp),
    if_pos (h.contains_right hp)]
  exact ⟨rfl, rfl⟩

theorem bind_rename (σ : Handle → Handle) (p : Parameters) (arguments : List Datum) (mark : Nat) :
    bind p (arguments.map (Datum.rename σ)) mark =
      ((bind p arguments mark).1.rename σ, (bind p arguments mark).2) := by
  have hrequired : Bindings.insertAll [] p.required (arguments.map (Datum.rename σ)) =
      (Bindings.insertAll [] p.required arguments).rename σ :=
    Bindings.insertAll_rename [] p.required arguments
  simp only [bind, hrequired, ← List.map_drop, Datum.markedList_rename]
  split
  · rfl
  · simp only [Bindings.insert_rename]

theorem within_bind {q : Primitive → Prop} {u : Handle → Prop} (p : Parameters)
    {arguments : List Datum} (ha : ∀ d ∈ arguments, d.Within u q) (mark : Nat) :
    (bind p arguments mark).1.Within u q := by
  have hrequired : (Bindings.insertAll [] p.required arguments).Within u q :=
    Bindings.Within.insertAll (fun _ he => absurd he List.not_mem_nil) _ ha
  simp only [bind]
  split
  · exact hrequired
  · have hsurplus : ∀ d ∈ arguments.drop p.required.length, d.Within u q :=
      fun d hd => ha d (List.mem_of_mem_drop hd)
    exact hrequired.insert _ (Datum.within_markedList mark hsurplus)

/-- Both new frames are unused handles, so that they can be related. -/
theorem Relocated.extend (h : s.Relocated w t) {parent : Handle} (hp : w.used parent)
    {b : Bindings} (hb : b.Within w.used Primitive.IsBuiltin) {k k' : Handle}
    (hk : (s.extend parent b).1 = k)
    (hk' : (t.extend (w.map parent) (b.rename w.map)).1 = k') :
    w ≤ w.add k k' ∧ (s.extend parent b).2.Relocated (w.add k k')
      (t.extend (w.map parent) (b.rename w.map)).2 := by
  have hkn : s.frames.get? k = none := hk ▸ get?_extend_fst h.left.arena parent b
  have hkn' : t.frames.get? k' = none :=
    hk' ▸ get?_extend_fst h.right.arena (w.map parent) (b.rename w.map)
  have hnew : ∀ x, w.used x → x ≠ k ∧ w.map x ≠ k' := by
    intro x hx
    obtain ⟨f, g, hf, hg, -⟩ := h.frame x hx
    refine ⟨?_, ?_⟩
    · rintro rfl
      simp [hkn] at hf
    · rintro rfl
      simp [hkn'] at hg
  have hle : w ≤ w.add k k' := Relocation.le_add fun hu => (hnew k hu).1 rfl
  refine ⟨hle, h.left.extend (h.contains_left hp) b, h.right.extend (h.contains_right hp) _,
    ⟨(hle _ h.root.1).1, ?_⟩, ?_, ?_⟩
  · rw [extend_snd_root, extend_snd_root, (hle _ h.root.1).2, h.root.2]
  · rintro x y (rfl | hx) (rfl | hy) he
    · rfl
    · rw [w.map_add, (hle y hy).2] at he
      exact absurd he.symm (hnew y hy).2
    · rw [w.map_add, (hle x hx).2] at he
      exact absurd he (hnew x hx).2
    · rw [(hle x hx).2, (hle y hy).2] at he
      exact h.injective x y hx hy he
  · rintro x (rfl | hx)
    · refine ⟨⟨b, some parent⟩, ⟨b.rename w.map, some (w.map parent)⟩, ?_, ?_, ?_⟩
      · rw [get?_extend h.left.arena, hk, if_pos rfl]
      · rw [get?_extend h.right.arena, hk', w.map_add, if_pos rfl]
      · refine Frame.Relocated.mono hle ⟨hb, ?_, rfl⟩
        rintro _ ⟨⟩
        exact hp
    · obtain ⟨f, g, hf, hg, hfg⟩ := h.frame x hx
      refine ⟨f, g, ?_, ?_, hfg.mono hle⟩
      · rw [get?_extend h.left.arena, hk, if_neg (hnew x hx).1, hf]
      · rw [get?_extend h.right.arena, hk', (hle x hx).2, if_neg (hnew x hx).2, hg]

theorem Relocated.bindIn (h : s.Relocated w t) {env : Handle} {f g : Frame} {v v' : Datum}
    (hu : w.used env) (hf : s.frames.get? env = some f)
    (hg : t.frames.get? (w.map env) = some g) (name : String) (hv : v.Relocated w v') :
    (s.bindIn env f name v).Relocated w (t.bindIn (w.map env) g name v') where
  left := h.left.bindIn hf name v
  right := h.right.bindIn hg name v'
  root := h.root
  injective := h.injective
  frame x hx := by
    obtain ⟨f', g', hf', hg', hfg⟩ := h.frame x hx
    rw [get?_bindIn hf, get?_bindIn hg]
    by_cases he : x = env
    · subst he
      obtain rfl := Option.some.inj (hf.symm.trans hf')
      obtain rfl := Option.some.inj (hg.symm.trans hg')
      obtain ⟨hwithin, rfl⟩ := hv
      refine ⟨_, _, if_pos rfl, if_pos rfl, hfg.within.insert name hwithin, hfg.parent, ?_⟩
      rw [hfg.eq_rename, Bindings.insert_rename]
    · rw [if_neg he, if_neg fun hm => he (h.injective x env hx hu hm)]
      exact ⟨f', g', hf', hg', hfg⟩

/-- Where a name is found, and what it is bound to there. -/
theorem Relocated.finds (h : s.Relocated w t) {name : String} {env : Handle} (hu : w.used env)
    {result : Except EvalError (Handle × Frame × Datum)} (hs : s.Finds name env result) :
    ∃ result', t.Finds name (w.map env) result' ∧ Parallel (EvalError.Renamed w.map)
      (fun x y => w.used x.1 ∧ y.1 = w.map x.1 ∧ s.frames.get? x.1 = some x.2.1 ∧
        t.frames.get? y.1 = some y.2.1 ∧ x.2.2.Relocated w y.2.2) result result' := by
  induction hs with
  | reclaimed hn =>
    obtain ⟨f, g, hf, -, -⟩ := h.frame _ hu
    simp [hn] at hf
  | @here env f value hf hv =>
    obtain ⟨f', g, hf', hg, hfg⟩ := h.frame env hu
    obtain rfl := Option.some.inj (hf.symm.trans hf')
    have hv' : g.bindings.find? name = some (value.rename w.map) := by
      rw [hfg.eq_rename, Bindings.find?_rename, hv, Option.map_some]
    exact ⟨_, .here hg hv', .ok ⟨hu, rfl, hf, hg, hfg.within.find? hv, rfl⟩⟩
  | @unbound env f hf hv hp =>
    obtain ⟨f', g, hf', hg, hfg⟩ := h.frame env hu
    obtain rfl := Option.some.inj (hf.symm.trans hf')
    refine ⟨_, .unbound hg ?_ ?_, .error ⟨by simp [EvalError.kind], rfl⟩⟩
    · rw [hfg.eq_rename, Bindings.find?_rename, hv, Option.map_none]
    · rw [hfg.eq_rename, hp, Option.map_none]
  | @parent env f p result hf hv hp _ ih =>
    obtain ⟨f', g, hf', hg, hfg⟩ := h.frame env hu
    obtain rfl := Option.some.inj (hf.symm.trans hf')
    obtain ⟨result', hfinds, hrel⟩ := ih (hfg.parent p hp)
    refine ⟨result', .parent hg ?_ ?_ hfinds, hrel⟩
    · rw [hfg.eq_rename, Bindings.find?_rename, hv, Option.map_none]
    · rw [hfg.eq_rename, hp, Option.map_some]

theorem Relocated.nearest (h : s.Relocated w t) {env : Handle} (hu : w.used env) (name : String) :
    Parallel (EvalError.Renamed w.map)
      (fun x y => w.used x.1 ∧ y.1 = w.map x.1 ∧ s.frames.get? x.1 = some x.2.1 ∧
        t.frames.get? y.1 = some y.2.1 ∧ x.2.2.Relocated w y.2.2)
      (s.nearest env name) (t.nearest (w.map env) name) := by
  obtain ⟨result', hfinds, hrel⟩ := h.finds hu (h.left.finds_nearest env name)
  rw [h.right.nearest_eq hfinds]
  exact hrel

theorem Relocated.lookup (h : s.Relocated w t) {env : Handle} (hu : w.used env) (name : String) :
    Parallel (EvalError.Renamed w.map) (Datum.Relocated w) (s.lookup env name)
      (t.lookup (w.map env) name) := by
  have hn := h.nearest hu name
  rw [Environments.lookup, Environments.lookup]
  rcases hn.exists_or with ⟨x, y, hx, hy, hxy⟩ | ⟨e, e', he, he', h⟩
  · rw [hx, hy]
    exact .ok hxy.2.2.2.2
  · rw [he, he']
    exact .error h

theorem Relocated.define (h : s.Relocated w t) {env : Handle} (hu : w.used env) (name : String)
    {v v' : Datum} (hv : v.Relocated w v') :
    Parallel (EvalError.Renamed w.map) Eq (s.define env name v).1 (t.define (w.map env) name v').1 ∧
      (s.define env name v).2.Relocated w (t.define (w.map env) name v').2 := by
  obtain ⟨f, g, hf, hg, -⟩ := h.frame env hu
  simp only [Environments.define, hf, hg]
  exact ⟨.ok rfl, h.bindIn hu hf hg name hv⟩

theorem Relocated.assign (h : s.Relocated w t) {env : Handle} (hu : w.used env) (name : String)
    {v v' : Datum} (hv : v.Relocated w v') :
    Parallel (EvalError.Renamed w.map) Eq (s.assign env name v).1 (t.assign (w.map env) name v').1 ∧
      (s.assign env name v).2.Relocated w (t.assign (w.map env) name v').2 := by
  have hn := h.nearest hu name
  rw [Environments.assign, Environments.assign]
  rcases hn.exists_or with ⟨x, y, hx, hy, hxy⟩ | ⟨e, e', he, he', herror⟩
  · obtain ⟨owner, f, old⟩ := x
    obtain ⟨_, g, old'⟩ := y
    obtain ⟨howner, rfl, hf, hg, -⟩ := hxy
    rw [hx, hy]
    exact ⟨.ok rfl, h.bindIn howner hf hg name hv⟩
  · rw [he, he']
    exact ⟨.error herror, h⟩

end Environments

end Store

end FrameLisp
