import FrameLisp.Proofs.Store.Lineage

/-!
# Lexical scope

The scope of a frame are the frames from it to the root, and a name means there what the first of
them that binds it says. An assignment changes the meaning of a name for exactly those frames whose
scopes have the same first frame that binds it. A definition changes it for exactly those that have
the defining frame in their scopes, with no nearer one that binds the name.
-/
namespace FrameLisp.Store.Environments

/-- What a frame itself binds a name to. -/
def valueIn (s : Environments) (name : String) (env : Handle) : Option Datum :=
  (s.frames.get? env).bind fun f => f.bindings.find? name

/-- Whether a frame itself binds a name. -/
def binds (s : Environments) (name : String) (env : Handle) : Bool := (s.valueIn name env).isSome

/-- The first frame of a scope that binds a name. -/
def binder? (s : Environments) (name : String) (scope : List Handle) : Option Handle :=
  scope.find? (s.binds name)

/-- The same frames with the same parents; they may bind names to something else. -/
structure SameTree (s t : Environments) : Prop where
  root : t.root = s.root
  parents : ∀ h, (t.frames.get? h).map Frame.parent = (s.frames.get? h).map Frame.parent
  size : t.size = s.size
  allocated : t.allocated = s.allocated

variable {s t : Environments} {env owner : Handle} {f : Frame} {name : String} {value : Datum}
  {scope : List Handle}

section Scopes

theorem binder?_cons (s : Environments) (name : String) (env : Handle) (scope : List Handle) :
    s.binder? name (env :: scope) =
      if s.binds name env then some env else s.binder? name scope := by
  rw [binder?, binder?, List.find?_cons]
  cases s.binds name env <;> rfl

theorem valueIn_of_get? (hf : s.frames.get? env = some f) :
    s.valueIn name env = f.bindings.find? name := by
  rw [valueIn, hf, Option.bind_some]

/-- In a scope of live frames the first one that binds a name is found, or none is. -/
theorem firstOf_cases (name : String) (hlive : ∀ h ∈ scope, s.frames.contains h = true) :
    (∃ owner f value, s.firstOf name scope = .ok (owner, f, value) ∧
      s.frames.get? owner = some f ∧ s.valueIn name owner = some value ∧
      s.binder? name scope = some owner ∧ scope.findSome? (s.valueIn name) = some value) ∨
    (s.firstOf name scope = .error (.unbound name) ∧ s.binder? name scope = none ∧
      scope.findSome? (s.valueIn name) = none) := by
  induction scope with
  | nil => exact .inr ⟨rfl, rfl, rfl⟩
  | cons env scope ih =>
    obtain ⟨henv, hrest⟩ := List.forall_mem_cons.1 hlive
    obtain ⟨f, hf⟩ := Arena.contains_eq_true_iff.1 henv
    have hvalue : s.valueIn name env = f.bindings.find? name := valueIn_of_get? hf
    simp only [firstOf, hf, binder?, binds, List.find?_cons, List.findSome?_cons, hvalue]
    cases hb : f.bindings.find? name with
    | some value => exact .inl ⟨env, f, value, rfl, hf, hvalue.trans hb, rfl, rfl⟩
    | none => exact ih hrest

/-- A look-up tells what the first frame of the scope that binds the name says. -/
theorem Scoped.lookup_eq (hs : s.Scoped) (hl : s.Lineage env scope) (name : String) :
    s.lookup env name = match scope.findSome? (s.valueIn name) with
      | some value => .ok value
      | none => .error (.unbound name) := by
  rw [lookup, hs.nearest_eq (hl.finds name)]
  rcases firstOf_cases name hl.contains with
    ⟨owner, f, value, hfirst, -, -, -, hsome⟩ | ⟨hfirst, -, hnone⟩
  · rw [hfirst, hsome]
  · rw [hfirst, hnone]

theorem SameTree.refl (s : Environments) : s.SameTree s := ⟨rfl, fun _ => rfl, rfl, rfl⟩

theorem SameTree.trans {u : Environments} (h : s.SameTree t) (h' : t.SameTree u) : s.SameTree u :=
  ⟨h'.root.trans h.root, fun k => (h'.parents k).trans (h.parents k), h'.size.trans h.size,
    h'.allocated.trans h.allocated⟩

theorem SameTree.exists_get? (h : s.SameTree t) (hf : s.frames.get? env = some f) :
    ∃ g, t.frames.get? env = some g ∧ g.parent = f.parent := by
  have hparent := h.parents env
  rwa [hf, Option.map_some, Option.map_eq_some_iff] at hparent

/-- Scopes are made of parents only. -/
theorem SameTree.lineage (h : s.SameTree t) (hl : s.Lineage env scope) : t.Lineage env scope := by
  induction hl with
  | root hf hp =>
    obtain ⟨g, hg, hparent⟩ := h.exists_get? hf
    rw [← h.root] at hg ⊢
    exact .root hg (hparent.trans hp)
  | child hf hp _ ih =>
    obtain ⟨g, hg, hparent⟩ := h.exists_get? hf
    exact .child hg (hparent.trans hp) ih

end Scopes

section Rebinding

theorem sameTree_bindIn (hf : s.frames.get? owner = some f) (name : String) (value : Datum) :
    s.SameTree (s.bindIn owner f name value) where
  root := rfl
  parents h := by
    rw [get?_bindIn hf]
    split
    · next he => rw [he, hf, Option.map_some, Option.map_some]
    · rfl
  size := by
    simp only [size, bindIn]
    rw [Arena.set_of_get?_eq_some hf]
  allocated := rfl

theorem sameTree_define (s : Environments) (env : Handle) (name : String) (value : Datum) :
    s.SameTree (s.define env name value).2 := by
  rw [Environments.define]
  cases hf : s.frames.get? env with
  | some f => exact sameTree_bindIn hf name value
  | none => exact .refl s

theorem sameTree_assign (s : Environments) (env : Handle) (name : String) (value : Datum) :
    s.SameTree (s.assign env name value).2 := by
  rw [Environments.assign]
  cases hn : s.nearest env name with
  | ok found => exact sameTree_bindIn (get?_of_nearestFrom hn).1 name value
  | error e => exact .refl s

theorem valueIn_bindIn (hf : s.frames.get? owner = some f) (name other : String) (value : Datum)
    (env : Handle) :
    (s.bindIn owner f name value).valueIn other env =
      if env = owner ∧ name = other then some value else s.valueIn other env := by
  rw [valueIn, get?_bindIn hf]
  by_cases he : env = owner
  · subst he
    rw [if_pos rfl, Option.bind_some, Bindings.find?_insert, valueIn_of_get? hf]
    simp only [true_and]
  · rw [if_neg he, if_neg fun h => he h.1, valueIn]

theorem binds_bindIn (hf : s.frames.get? owner = some f) (name : String) (value : Datum)
    (env : Handle) :
    (s.bindIn owner f name value).binds name env = (decide (env = owner) || s.binds name env) := by
  rw [binds, binds, valueIn_bindIn hf]
  by_cases he : env = owner <;> simp [he]

/-- The new value is seen where its frame is the first of the scope that binds the name now. -/
theorem findSome?_bindIn (hf : s.frames.get? owner = some f) (name other : String)
    (value : Datum) (scope : List Handle) :
    scope.findSome? ((s.bindIn owner f name value).valueIn other) =
      if other = name ∧ (s.bindIn owner f name value).binder? name scope = some owner then
        some value
      else scope.findSome? (s.valueIn other) := by
  induction scope with
  | nil => simp [binder?]
  | cons env scope ih =>
    rw [List.findSome?_cons, List.findSome?_cons, valueIn_bindIn hf, binder?_cons,
      binds_bindIn hf, ih]
    by_cases hname : other = name
    · subst hname
      by_cases he : env = owner
      · simp [he]
      · cases hv : s.valueIn other env <;> simp [he, hv, binds]
    · simp [hname, Ne.symm hname]

/-- How a frame sees a name that was bound anew. -/
theorem Scoped.lookup_bindIn (hs : s.Scoped) (hf : s.frames.get? owner = some f)
    (hl : s.Lineage env scope) (name other : String) (value : Datum) :
    (s.bindIn owner f name value).lookup env other =
      if other = name ∧ (s.bindIn owner f name value).binder? name scope = some owner then
        .ok value
      else s.lookup env other := by
  have ht := hs.bindIn hf name value
  have hl' := (sameTree_bindIn hf name value).lineage hl
  rw [ht.lookup_eq hl', hs.lookup_eq hl, findSome?_bindIn hf]
  by_cases hseen : other = name ∧ (s.bindIn owner f name value).binder? name scope = some owner
  · rw [if_pos hseen, if_pos hseen]
  · rw [if_neg hseen, if_neg hseen]

/-- Where the frame had a binding for the name, it is found as before. -/
theorem binder?_bindIn_of_binds (hf : s.frames.get? owner = some f)
    (hb : s.binds name owner = true) (value : Datum) (scope : List Handle) :
    (s.bindIn owner f name value).binder? name scope = s.binder? name scope := by
  rw [binder?, binder?]
  refine congrArg (List.find? · scope) (funext fun env => ?_)
  rw [binds_bindIn hf]
  by_cases he : env = owner <;> simp [he, hb]

/-- The frame is the first one that binds the name from now on if none before it does. -/
theorem binder?_bindIn_eq_some_iff (hf : s.frames.get? owner = some f) (hn : scope.Nodup)
    (name : String) (value : Datum) :
    (s.bindIn owner f name value).binder? name scope = some owner ↔
      ∃ nearer farther, scope = nearer ++ owner :: farther ∧
        ∀ h ∈ nearer, s.binds name h = false := by
  simp only [binder?, List.find?_eq_some_iff_append, binds_bindIn hf, decide_true, Bool.true_or,
    true_and, Bool.not_eq_true', Bool.or_eq_false_iff, decide_eq_false_iff_not]
  -- No frame is in the scope twice, so those nearer than the new binding are other frames.
  refine exists₂_congr fun nearer farther => and_congr_right fun he => ?_
  refine forall₂_congr fun h hh => and_iff_right ?_
  rintro rfl
  subst he
  exact (List.nodup_append.1 hn).2.2 h hh h List.mem_cons_self rfl

end Rebinding

section Laws

/-- The scope comes to the frame before it comes to one that binds the name. -/
def Uncovered (s : Environments) (name : String) (scope : List Handle) (env : Handle) : Prop :=
  ∃ nearer farther, scope = nearer ++ env :: farther ∧ ∀ h ∈ nearer, s.binds name h = false

/-- What an assignment to `x` from the frame `e` does, and how the frame `f` sees `y` then. The
frames have these scopes. -/
structure Assignment (s : Environments) (e f : Handle) (scope scope' : List Handle) (x y : String)
    (v : Datum) : Prop where
  error : ∀ err, (s.assign e x v).1 = .error err ↔ s.lookup e x = .error err
  unchanged : ∀ err, (s.assign e x v).1 = .error err → (s.assign e x v).2 = s
  seen : (s.assign e x v).1 = .ok () → ∃ owner, s.binder? x scope = some owner ∧
    (s.assign e x v).2.lookup f y =
      if y = x ∧ s.binder? x scope' = some owner then .ok v else s.lookup f y
  tree : s.SameTree (s.assign e x v).2

/-- What a definition of `x` in the frame `e` does, and how the frame `f` of that scope sees `y`
then. -/
structure Definition (s : Environments) (e f : Handle) (scope : List Handle) (x y : String)
    (v : Datum) : Prop where
  ok : (s.define e x v).1 = .ok ()
  seen : y = x → s.Uncovered x scope e → (s.define e x v).2.lookup f y = .ok v
  unseen : ¬(y = x ∧ s.Uncovered x scope e) →
    (s.define e x v).2.lookup f y = s.lookup f y
  tree : s.SameTree (s.define e x v).2

variable {e : Handle} {scope' : List Handle}

/-- The binding that a look-up finds is the one that an assignment replaces. -/
theorem Scoped.assignment (hs : s.Scoped) (he : s.Lineage e scope) (hf : s.Lineage env scope')
    (x y : String) (v : Datum) : s.Assignment e env scope scope' x y v := by
  have hnearest := hs.nearest_eq (he.finds x)
  rcases firstOf_cases x he.contains with
    ⟨owner, f, old, hfirst, hget, hvalue, hbinder, -⟩ | ⟨hfirst, -, -⟩
  · have hassign : s.assign e x v = (.ok (), s.bindIn owner f x v) := by
      rw [Environments.assign, hnearest, hfirst]
    have hlookup : s.lookup e x = .ok old := by
      rw [Environments.lookup, hnearest, hfirst]
    have hbinds : s.binds x owner = true := by rw [binds, hvalue, Option.isSome_some]
    refine ⟨fun err => ?_, fun err herr => ?_, fun _ => ⟨owner, hbinder, ?_⟩,
      sameTree_assign s e x v⟩
    · simp [hassign, hlookup]
    · simp [hassign] at herr
    · rw [hassign, hs.lookup_bindIn hget hf, binder?_bindIn_of_binds hget hbinds]
  · have hassign : s.assign e x v = (.error (.unbound x), s) := by
      rw [Environments.assign, hnearest, hfirst]
    have hlookup : s.lookup e x = .error (.unbound x) := by
      rw [Environments.lookup, hnearest, hfirst]
    refine ⟨fun err => ?_, fun _ _ => congrArg Prod.snd hassign, fun hok => ?_,
      sameTree_assign s e x v⟩
    · rw [hassign, hlookup, Except.error.injEq, Except.error.injEq]
    · simp [hassign] at hok

theorem Scoped.definition (hs : s.Scoped) (he : s.frames.get? e = some f)
    (hf : s.Lineage env scope) (x y : String) (v : Datum) : s.Definition e env scope x y v := by
  have hdefine : s.define e x v = (.ok (), s.bindIn e f x v) := by
    rw [Environments.define, he]
  have hbinder : (s.bindIn e f x v).binder? x scope = some e ↔ s.Uncovered x scope e :=
    binder?_bindIn_eq_some_iff he (hf.nodup hs) x v
  have hlookup := hs.lookup_bindIn he hf x y v
  refine ⟨congrArg Prod.fst hdefine, fun hy hx => ?_, fun hxy => ?_, sameTree_define s e x v⟩
  · rw [hdefine, hlookup, if_pos ⟨hy, hbinder.2 hx⟩]
  · rw [hdefine, hlookup, if_neg fun h => hxy ⟨h.1, hbinder.1 h.2⟩]

/-- In environments that anything was done to, all live frames have scopes, and what any of them
assigns or defines is seen by the frames that share the binding and by no others. -/
theorem Reached.lexical_scope (h : s.Reached) {e f : Handle} (he : s.frames.contains e = true)
    (hf : s.frames.contains f = true) (x y : String) (v : Datum) :
    ∃ scope scope', s.Lineage e scope ∧ s.Lineage f scope' ∧
      s.Assignment e f scope scope' x y v ∧ s.Definition e f scope' x y v := by
  obtain ⟨scope, hscope, -⟩ := h.exists_lineage he
  obtain ⟨scope', hscope', -⟩ := h.exists_lineage hf
  obtain ⟨g, hg⟩ := Arena.contains_eq_true_iff.1 he
  exact ⟨scope, scope', hscope, hscope', h.scoped.assignment hscope hscope' x y v,
    h.scoped.definition hg hscope' x y v⟩

/-- Below the root, which binds `x`, a frame that binds it again, and a frame below that one. -/
def shadowed : Environments :=
  let s := (new.define new.root "x" .nil).2
  let (shadow, s) := s.extend s.root (bind ⟨["x"], none⟩ [.boolean true] 0).1
  (s.extend shadow (bind ⟨["y"], none⟩ [.nil] 0).1).2

theorem lexical_scope_shadowed : shadowed.Reached ∧ ∃ scope scope',
    shadowed.Lineage ⟨2, 0⟩ scope ∧ shadowed.Lineage shadowed.root scope' ∧
      shadowed.Assignment ⟨2, 0⟩ shadowed.root scope scope' "x" "x" .nil ∧
      shadowed.Definition ⟨2, 0⟩ shadowed.root scope' "x" "x" .nil := by
  have hroot := Reached.define new.root "x" .nil .new
  have hshadow := Reached.extend new.root ⟨["x"], none⟩ [.boolean true] 0 hroot (by rfl)
  have hr : shadowed.Reached := .extend ⟨1, 0⟩ ⟨["y"], none⟩ [.nil] 0 hshadow (by rfl)
  exact ⟨hr, hr.lexical_scope (by rfl) (by rfl) "x" "x" .nil⟩

end Laws

end FrameLisp.Store.Environments
