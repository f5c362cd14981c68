import FrameLisp.Proofs.Outcomes
import FrameLisp.Proofs.Store.Relocation

/-!
# Frames in use

What an evaluation can come across is bounded by a set of handles in use: it holds the root, and
its frames refer to handles in use only. An evaluation makes frames, which are in use from then on,
and changes bindings of frames in use. It takes no frame away, no parent and no name, and a frame
that is not in use stays as it is. Where all handles in use are live, they stay so.
-/
namespace FrameLisp

namespace Store

/-- What becomes of a frame that is only added to: it has the same parent, and all its names. -/
structure Frame.Keeps (f g : Frame) : Prop where
  parent : g.parent = f.parent
  names : ∀ name, f.bindings.find? name ≠ none → g.bindings.find? name ≠ none

namespace Frame.Keeps

theorem refl (f : Frame) : f.Keeps f := ⟨rfl, fun _ h => h⟩

theorem trans {f g h : Frame} (hfg : f.Keeps g) (hgh : g.Keeps h) : f.Keeps h :=
  ⟨hgh.parent.trans hfg.parent, fun name hname => hgh.names name (hfg.names name hname)⟩

theorem insert (f : Frame) (name : String) (value : Datum) :
    f.Keeps ⟨f.bindings.insert name value, f.parent⟩ := by
  refine ⟨rfl, fun other hother => ?_⟩
  rw [Bindings.find?_insert]
  split
  · exact Option.some_ne_none _
  · exact hother

end Frame.Keeps

namespace Environments

/-- The root is in use; all that is in use is live, and refers only to what is in use and to
primitives in `q`. -/
structure Sustains (s : Environments) (used : Handle → Prop) (q : Primitive → Prop) : Prop where
  arena : s.frames.Sound
  root : used s.root
  frame : ∀ h, used h → ∃ f, s.frames.get? h = some f ∧ (∀ p, f.parent = some p → used p) ∧
    f.bindings.Within used q

/-- The root is in use, and the frames in use refer only to what is in use and to primitives in `q`.
Handles in use may have outlived their frames, unless they are said to be live. -/
structure Confines (s : Environments) (live : Prop) (used : Handle → Prop)
    (q : Primitive → Prop) : Prop where
  arena : s.frames.Sound
  root : used s.root
  live : live → ∀ h, used h → s.frames.contains h = true
  frame : ∀ h f, used h → s.frames.get? h = some f → (∀ p, f.parent = some p → used p) ∧
    f.bindings.Within used q

/-- The primitives that frames hold, bound to names or inside of bound values, are in `q`. -/
def Holds (s : Environments) (q : Primitive → Prop) : Prop :=
  ∀ h f, s.frames.get? h = some f → f.bindings.Within (fun _ => True) q

/-- How environments change while handles are in use: `used` before and `used'` after. -/
structure Grows (used used' : Handle → Prop) (s t : Environments) : Prop where
  root : t.root = s.root
  stays : ∀ h, used h → used' h
  fresh : ∀ h, used' h → used h ∨ s.frames.get? h = none
  kept : ∀ h f, s.frames.get? h = some f → ∃ g, t.frames.get? h = some g ∧ f.Keeps g
  unused : ∀ h f, s.frames.get? h = some f → ¬used h → t.frames.get? h = some f

variable {used used' used'' : Handle → Prop} {q : Primitive → Prop} {s t u : Environments}
  {env parent : Handle} {name : String} {value : Datum}

section Grows

theorem Grows.refl (used : Handle → Prop) (s : Environments) : Grows used used s s where
  root := rfl
  stays _ h := h
  fresh _ h := .inl h
  kept _ f hf := ⟨f, hf, .refl f⟩
  unused _ _ hf _ := hf

theorem Grows.trans (h : Grows used used' s t) (h' : Grows used' used'' t u) :
    Grows used used'' s u where
  root := h'.root.trans h.root
  stays k hk := h'.stays k (h.stays k hk)
  fresh k hk := by
    rcases h'.fresh k hk with hk | hk
    · exact h.fresh k hk
    · refine .inr (Option.eq_none_iff_forall_ne_some.2 fun f hf => ?_)
      obtain ⟨g, hg, -⟩ := h.kept k f hf
      simp [hk] at hg
  kept k f hf := by
    obtain ⟨g, hg, hfg⟩ := h.kept k f hf
    obtain ⟨g', hg', hgg'⟩ := h'.kept k g hg
    exact ⟨g', hg', hfg.trans hgg'⟩
  unused k f hf hk := by
    refine h'.unused k f (h.unused k f hf hk) fun hk' => ?_
    rcases h.fresh k hk' with hk' | hnone
    · exact hk hk'
    · simp [hf] at hnone

end Grows

/-- A frame is made exactly if the frame to be extended is live and the number of arguments fits. -/
theorem extendFault?_eq_none_iff {p : Parameters} {count : Nat} :
    s.extendFault? parent p count = none ↔
      s.frames.contains parent = true ∧ p.arity.accepts count = true := by
  rw [Environments.extendFault?]
  split
  · next hlive => simp only [hlive, true_and, Option.map_eq_none_iff, Arity.mismatch?_eq_none_iff]
  · next hlive => simp [hlive]

namespace Confines

variable {live : Prop}

/-- Whatever the root and the given handles lead to is in use. -/
theorem used_of_reachable (h : s.Confines live used q) {handles : List Handle}
    (hhandles : ∀ k ∈ handles, used k) {k : Handle} (hk : s.Reachable handles k) : used k := by
  refine hk.mem_of_closed h.root hhandles fun k f k' hk hf hrefers => ?_
  obtain ⟨hparent, hwithin⟩ := h.frame k f hk hf
  cases hrefers with
  | parent hp => exact hparent _ hp
  | value hb hm => exact (hwithin _ hb).mentions hm

theorem ne_none (h : s.Confines live used q) (hlive : live) (henv : used env) :
    s.frames.get? env ≠ none := by
  obtain ⟨f, hf⟩ := Arena.contains_eq_true_iff.1 (h.live hlive env henv)
  rw [hf]
  exact Option.some_ne_none f

/-- A name is looked for in frames in use. -/
theorem nearestFrom (h : s.Confines live used q) (steps : Nat) (henv : used env) :
    Ends (fun e => live → e ≠ EvalError.reclaimed) (fun (owner, f, value) => used owner ∧
      s.frames.get? owner = some f ∧ value.Within used q) (s.nearestFrom name steps env) := by
  fun_induction Environments.nearestFrom s name steps env with
  | case1 => exact .error fun _ => by simp
  | case2 steps env hnone => exact .error fun hlive => absurd hnone (h.ne_none hlive henv)
  | case3 steps env f hf value hvalue =>
    exact .ok ⟨henv, hf, (h.frame env f henv hf).2.find? hvalue⟩
  | case4 steps env f hf hvalue p hp ih => exact ih ((h.frame env f henv hf).1 p hp)
  | case5 => exact .error fun _ => by simp

theorem nearest (h : s.Confines live used q) (henv : used env) (name : String) :
    Ends (fun e => live → e ≠ EvalError.reclaimed) (fun (owner, f, value) => used owner ∧
      s.frames.get? owner = some f ∧ value.Within used q) (s.nearest env name) :=
  h.nearestFrom _ henv

theorem lookup (h : s.Confines live used q) (henv : used env) (name : String) :
    Ends (fun e => live → e ≠ EvalError.reclaimed) (fun value => value.Within used q)
      (s.lookup env name) := by
  have hnearest := h.nearest henv name
  rw [Environments.lookup]
  generalize s.nearest env name = found at hnearest ⊢
  cases hnearest with
  | ok hvalue => exact .ok hvalue.2.2
  | error he => exact .error he

/-- A binding in a frame in use. -/
theorem bindIn (h : s.Confines live used q) {f : Frame} (hf : s.frames.get? env = some f)
    (henv : used env) (name : String) (hvalue : value.Within used q) :
    Grows used used s (s.bindIn env f name value) ∧
      (s.bindIn env f name value).Confines live used q := by
  refine ⟨⟨rfl, fun _ hk => hk, fun _ hk => .inl hk, ?_, ?_⟩, h.arena.set _ _, h.root, ?_, ?_⟩
  · intro k g hg
    rw [get?_bindIn hf]
    split
    · next he =>
      subst he
      obtain rfl := Option.some.inj (hf.symm.trans hg)
      exact ⟨_, rfl, .insert f name value⟩
    · exact ⟨g, hg, .refl g⟩
  · intro k g hg hk
    have hne : k ≠ env := by
      rintro rfl
      exact hk henv
    rw [get?_bindIn hf, if_neg hne, hg]
  · exact fun hlive k hk => (contains_bindIn hf name value).2 (h.live hlive k hk)
  · intro k g hk hg
    rw [get?_bindIn hf] at hg
    split at hg
    · obtain ⟨hparent, hwithin⟩ := h.frame env f henv hf
      cases hg
      exact ⟨hparent, hwithin.insert name hvalue⟩
    · exact h.frame k g hk hg

theorem define (h : s.Confines live used q) (henv : used env) (name : String)
    (hvalue : value.Within used q) :
    Ends (fun e => live → e ≠ EvalError.reclaimed) (fun _ => True) (s.define env name value).1 ∧
      Grows used used s (s.define env name value).2 ∧
      (s.define env name value).2.Confines live used q := by
  simp only [Environments.define]
  cases hf : s.frames.get? env with
  | some f => exact ⟨.ok trivial, h.bindIn hf henv name hvalue⟩
  | none => exact ⟨.error fun hlive => absurd hf (h.ne_none hlive henv), .refl used s, h⟩

theorem defineGlobal (h : s.Confines live used q) (name : String) (hvalue : value.Within used q) :
    (s.defineGlobal name value).Confines live used q :=
  (h.define h.root name hvalue).2.2

theorem assign (h : s.Confines live used q) (henv : used env) (name : String)
    (hvalue : value.Within used q) :
    Ends (fun e => live → e ≠ EvalError.reclaimed) (fun _ => True) (s.assign env name value).1 ∧
      Grows used used s (s.assign env name value).2 ∧
      (s.assign env name value).2.Confines live used q := by
  have hnearest := h.nearest henv name
  rw [Environments.assign]
  generalize s.nearest env name = found at hnearest ⊢
  cases hnearest with
  | ok hfound => exact ⟨.ok trivial, h.bindIn hfound.2.1 hfound.1 name hvalue⟩
  | error he => exact ⟨.error he, .refl used s, h⟩

theorem extendFault?_ne (h : s.Confines live used q) (hlive : live) (hparent : used parent)
    (p : Parameters) (count : Nat) : s.extendFault? parent p count ≠ some .reclaimed := by
  rw [Environments.extendFault?, if_pos (h.live hlive parent hparent)]
  cases p.arity.mismatch? count <;> simp

/-- The new frame is in use from now on. -/
theorem extend (h : s.Confines live used q) (hparent : used parent) {b : Bindings}
    (hb : b.Within used q) :
    Grows used (fun k => k = (s.extend parent b).1 ∨ used k) s (s.extend parent b).2 ∧
      (s.extend parent b).2.Confines live (fun k => k = (s.extend parent b).1 ∨ used k) q := by
  have hnone := get?_extend_fst h.arena parent b
  have hnew : ∀ {k f}, s.frames.get? k = some f → k ≠ (s.extend parent b).1 := by
    rintro k f hf rfl
    simp [hnone] at hf
  refine ⟨⟨rfl, fun _ hk => .inr hk, ?_, ?_, ?_⟩, h.arena.alloc _, .inr h.root, ?_, ?_⟩
  · rintro k (rfl | hk)
    · exact .inr hnone
    · exact .inl hk
  · intro k f hf
    rw [get?_extend h.arena, if_neg (hnew hf)]
    exact ⟨f, hf, .refl f⟩
  · intro k f hf _
    rw [get?_extend h.arena, if_neg (hnew hf), hf]
  · rintro hlive k (rfl | hk)
    · exact Arena.contains_eq_true_iff.2 ⟨_, by rw [get?_extend h.arena, if_pos rfl]⟩
    · exact contains_extend h.arena parent b (h.live hlive k hk)
  · intro k f hk hf
    rw [get?_extend h.arena] at hf
    split at hf
    · cases hf
      refine ⟨?_, hb.mono fun _ hk => .inr hk⟩
      rintro _ ⟨⟩
      exact .inr hparent
    · next hne =>
      obtain ⟨hfparent, hwithin⟩ := h.frame k f (hk.resolve_left hne) hf
      exact ⟨fun p hp => .inr (hfparent p hp), hwithin.mono fun _ hk => .inr hk⟩

end Confines

theorem sustains_iff : s.Sustains used q ↔ s.Confines True used q := by
  constructor
  · intro h
    refine ⟨h.arena, h.root, fun _ k hk => ?_, fun k f hk hf => ?_⟩
    · obtain ⟨f, hf, -⟩ := h.frame k hk
      exact Arena.contains_eq_true_iff.2 ⟨f, hf⟩
    · obtain ⟨g, hg, hframe⟩ := h.frame k hk
      obtain rfl := Option.some.inj (hf.symm.trans hg)
      exact hframe
  · intro h
    refine ⟨h.arena, h.root, fun k hk => ?_⟩
    obtain ⟨f, hf⟩ := Arena.contains_eq_true_iff.1 (h.live trivial k hk)
    exact ⟨f, hf, h.frame k f hk hf⟩

/-- What the root and some handles lead to can be what is in use. -/
theorem confines_reachable {live : Prop} {handles : List Handle} (harena : s.frames.Sound)
    (hq : s.Holds q) (hlive : live → ∀ h, s.Reachable handles h → s.frames.contains h = true) :
    s.Confines live (s.Reachable handles) q where
  arena := harena
  root := .root
  live := hlive
  frame h f hr hf := by
    refine ⟨fun p hp => hr.step hf (.parent hp), fun b hb => ?_⟩
    exact (hq h f hf b hb).of_mentions fun k hm => hr.step hf (.value hb hm)

theorem Confines.holds {live : Prop} (h : s.Confines live used q) (hall : ∀ k, used k) :
    s.Holds q :=
  fun k f hf => ((h.frame k f (hall k) hf).2).mono fun _ _ => trivial

/-- All handles can be in use. -/
theorem Holds.confines (hq : s.Holds q) (harena : s.frames.Sound) :
    s.Confines False (fun _ => True) q :=
  ⟨harena, trivial, False.elim, fun k f _ hf => ⟨fun _ _ => trivial, hq k f hf⟩⟩

/-- If all that the root and the live handles lead to is live, it can be what is in use. -/
theorem sustains_reachable {live : List Handle} (harena : s.frames.Sound)
    (hlive : ∀ h, s.Reachable live h → s.frames.contains h = true) :
    s.Sustains (s.Reachable live) fun _ => True :=
  sustains_iff.2 (confines_reachable harena (fun _ _ _ b _ => Datum.within_true b.2) fun _ => hlive)

/-- At the beginning nothing refers to anything. -/
theorem confines_new {live : Prop} (hroot : used new.root)
    (hlive : live → ∀ h, used h → new.frames.contains h = true) : new.Confines live used q where
  arena := Arena.sound_empty.alloc _
  root := hroot
  live := hlive
  frame h f _ hf := by
    obtain rfl := eq_empty_of_get?_new hf
    exact ⟨nofun, fun _ hb => absurd hb List.not_mem_nil⟩

/-- At the beginning only the root is in use. -/
theorem sustains_new : new.Sustains (· = new.root) q := by
  refine sustains_iff.2 (confines_new rfl ?_)
  rintro - _ rfl
  rfl

namespace Sustains

theorem contains (h : s.Sustains used q) (henv : used env) : s.frames.contains env = true :=
  (sustains_iff.1 h).live trivial env henv

theorem used_of_reachable (h : s.Sustains used q) {live : List Handle}
    (hlive : ∀ k ∈ live, used k) {k : Handle} (hk : s.Reachable live k) : used k :=
  (sustains_iff.1 h).used_of_reachable hlive hk

theorem defineGlobal (h : s.Sustains used q) (name : String) (hvalue : value.Within used q) :
    (s.defineGlobal name value).Sustains used q :=
  sustains_iff.2 ((sustains_iff.1 h).defineGlobal name hvalue)

end Sustains

end Environments

end Store

end FrameLisp
