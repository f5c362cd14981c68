import FrameLisp.Proofs.Store.Bindings
import FrameLisp.Proofs.Store.Growth

/-!
# Environments between collections

Between collections names are bound in frames, and frames are made. The number of live frames and
the number of those made since the last collection both count the latter, so that they move
together. No frame goes and no name is unbound, and what could be looked up can be looked up still.
-/
namespace FrameLisp.Store.Environments

/-- What becomes of environments by definitions, assignments and `k` new frames. -/
inductive Evolves (s : Environments) : Nat → Environments → Prop
  | refl : Evolves s 0 s
  | define {k t} (env : Handle) (name : String) (value : Datum) :
      Evolves s k t → Evolves s k (t.define env name value).2
  | assign {k t} (env : Handle) (name : String) (value : Datum) :
      Evolves s k t → Evolves s k (t.assign env name value).2
  | extend {k t} (parent : Handle) (p : Parameters) (arguments : List Datum) (mark : Nat) :
      Evolves s k t → t.extendFault? parent p arguments.length = none →
      Evolves s (k + 1) (t.extend parent (bind p arguments mark).1).2

variable {s t u : Environments} {j k : Nat}

namespace Evolves

theorem trans (h : s.Evolves j t) (h' : t.Evolves k u) : s.Evolves (j + k) u := by
  induction h' with
  | refl => exact h
  | define env name value _ ih => exact ih.define env name value
  | assign env name value _ ih => exact ih.assign env name value
  | extend parent p arguments mark _ hfault ih => exact ih.extend parent p arguments mark hfault

theorem reached (h : s.Evolves k t) (hs : s.Reached) : t.Reached := by
  induction h with
  | refl => exact hs
  | define env name value _ ih => exact ih.define env name value
  | assign env name value _ ih => exact ih.assign env name value
  | extend parent p arguments mark _ hfault ih => exact ih.extend parent p arguments mark hfault

end Evolves

theorem size_extend (s : Environments) (parent : Handle) (bindings : Bindings) :
    (s.extend parent bindings).2.size = s.size + 1 := by
  change (s.frames.alloc _).2.size = s.frames.size + 1
  rw [Arena.alloc]
  cases s.frames.free with
  | nil | cons => rfl

theorem allocated_extend (s : Environments) (parent : Handle) (bindings : Bindings) :
    (s.extend parent bindings).2.allocated = s.allocated + 1 := rfl

/-- Both counts rise by the number of new frames. -/
theorem Evolves.counts (h : s.Evolves k t) :
    t.size = s.size + k ∧ t.allocated = s.allocated + k := by
  induction h with
  | refl => exact ⟨rfl, rfl⟩
  | @define k t env name value _ ih =>
    have htree := sameTree_define t env name value
    rwa [htree.size, htree.allocated]
  | @assign k t env name value _ ih =>
    have htree := sameTree_assign t env name value
    rwa [htree.size, htree.allocated]
  | extend parent p arguments mark _ _ ih =>
    rw [size_extend, allocated_extend, ih.1, ih.2]
    exact ⟨rfl, rfl⟩

/-- Where the frames are kept, a look-up that came to a frame comes to one again. -/
theorem Finds.of_kept (hkept : ∀ h f, s.frames.get? h = some f →
      ∃ g, t.frames.get? h = some g ∧ f.Keeps g) {name : String} {env : Handle}
    {result : Except EvalError (Handle × Frame × Datum)} (h : s.Finds name env result)
    {x : Handle × Frame × Datum} (hx : result = .ok x) : ∃ y, t.Finds name env (.ok y) := by
  induction h with
  | reclaimed => cases hx
  | unbound => cases hx
  | @here env f value hf hv =>
    obtain ⟨g, hg, hfg⟩ := hkept env f hf
    obtain ⟨value', hv'⟩ := Option.ne_none_iff_exists'.1 (hfg.names name (by simp [hv]))
    exact ⟨_, .here hg hv'⟩
  | @parent env f p result hf hv hp _ ih =>
    obtain ⟨g, hg, hfg⟩ := hkept env f hf
    -- A frame on the way may have got a binding of its own.
    cases hv' : g.bindings.find? name with
    | some value => exact ⟨_, .here hg hv'⟩
    | none =>
      obtain ⟨y, hy⟩ := ih hx
      exact ⟨y, .parent hg hv' (hfg.parent.trans hp) hy⟩

/-- Where the frames are kept, whatever was looked up has a value still. -/
theorem Scoped.lookup_of_kept (hs : s.Scoped) (ht : t.Scoped)
    (hkept : ∀ h f, s.frames.get? h = some f → ∃ g, t.frames.get? h = some g ∧ f.Keeps g)
    {env : Handle} {name : String} {value : Datum} (hv : s.lookup env name = .ok value) :
    ∃ value', t.lookup env name = .ok value' := by
  rw [lookup] at hv
  cases hn : s.nearest env name with
  | error e => simp [hn] at hv
  | ok found =>
    obtain ⟨⟨owner, f, value'⟩, hy⟩ := (hs.finds_nearest env name).of_kept hkept hn
    refine ⟨value', ?_⟩
    rw [lookup, ht.nearest_eq hy]

end FrameLisp.Store.Environments
