import FrameLisp.Eval.Run

/-!
# What the steps of an evaluation leave alone

The steps of an evaluation make, change and collect frames and give out marks. The handle of the
root frame, the threshold, the files, and the number of running evaluations are behind each of them
what they were before.
-/
namespace FrameLisp

open Source Store

/-- Two sessions with the same settings. -/
structure Session.SameSettings (s t : Session) : Prop where
  root : t.root = s.root
  threshold : t.threshold = s.threshold
  depth : t.depth = s.depth
  files : t.files = s.files

namespace Session.SameSettings

theorem refl (s : Session) : SameSettings s s := ⟨rfl, rfl, rfl, rfl⟩

theorem trans {s t u : Session} (h : SameSettings s t) (h' : SameSettings t u) :
    SameSettings s u :=
  ⟨h'.root.trans h.root, h'.threshold.trans h.threshold, h'.depth.trans h.depth,
    h'.files.trans h.files⟩

end Session.SameSettings

namespace Store.Environments

theorem bindIn_root (s : Environments) (env : Handle) (f : Frame) (name : String)
    (value : Datum) : (s.bindIn env f name value).root = s.root := rfl

theorem define_snd_root (s : Environments) (env : Handle) (name : String) (value : Datum) :
    (s.define env name value).2.root = s.root := by
  rw [define]
  split
  · exact bindIn_root _ _ _ _ _
  · rfl

theorem assign_snd_root (s : Environments) (env : Handle) (name : String) (value : Datum) :
    (s.assign env name value).2.root = s.root := by
  rw [assign]
  split
  · exact bindIn_root _ _ _ _ _
  · rfl

end Store.Environments

namespace Action

variable {α β : Type}

/-- The action leaves the settings alone, however it ends. -/
def KeepsSettings (a : Action α) : Prop := ∀ s, Session.SameSettings s (a.runFrom s).2

theorem KeepsSettings.pure (x : α) : KeepsSettings (pure x) := fun s => .refl s

theorem KeepsSettings.throw (halt : Halt) : KeepsSettings (throw halt : Action α) :=
  fun s => .refl s

theorem KeepsSettings.get : KeepsSettings (MonadState.get : Action Session) := fun s => .refl s

theorem KeepsSettings.bind {a : Action α} {f : α → Action β} (ha : KeepsSettings a)
    (hf : ∀ x, KeepsSettings (f x)) : KeepsSettings (a >>= f) := by
  intro s
  rw [runFrom_bind]
  have hs := ha s
  generalize a.runFrom s = x at hs ⊢
  obtain ⟨x | x, t⟩ := x
  · exact hs
  · exact hs.trans (hf x t)

theorem KeepsSettings.evaluating {a : Action α} (ha : KeepsSettings a) :
    KeepsSettings (evaluating a) := by
  intro s
  have hs := ha { s with depth := s.depth + 1 }
  rw [runFrom_evaluating]
  exact ⟨hs.root, hs.threshold, congrArg Nat.pred hs.depth, hs.files⟩

theorem KeepsSettings.ofExcept (x : Except EvalError α) : KeepsSettings (ofExcept x) := by
  cases x with
  | ok a => exact .pure a
  | error e => exact .throw _

theorem keepsSettings_lookup (env : Handle) (name : String) :
    KeepsSettings (lookup env name) := by
  intro s
  change Session.SameSettings s (lookup env name s).2
  rw [lookup]
  cases s.environments.lookup env name <;> exact .refl s

theorem keepsSettings_onEnvironments {f : Environments → Except EvalError α × Environments}
    (hf : ∀ s, (f s).2.root = s.root) : KeepsSettings (onEnvironments f) := by
  intro s
  have hroot := hf s.environments
  change Session.SameSettings s (onEnvironments f s).2
  simp only [onEnvironments]
  generalize f s.environments = x at hroot ⊢
  obtain ⟨x | x, environments'⟩ := x <;> exact ⟨hroot, rfl, rfl, rfl⟩

theorem keepsSettings_define (env : Handle) (name : String) (value : Datum) :
    KeepsSettings (define env name value) :=
  keepsSettings_onEnvironments fun s => s.define_snd_root env name value

theorem keepsSettings_assign (env : Handle) (name : String) (value : Datum) :
    KeepsSettings (assign env name value) :=
  keepsSettings_onEnvironments fun s => s.assign_snd_root env name value

theorem keepsSettings_freshMark : KeepsSettings freshMark := fun _ => ⟨rfl, rfl, rfl, rfl⟩

theorem keepsSettings_list (items : List Datum) : KeepsSettings (list items) :=
  fun _ => ⟨rfl, rfl, rfl, rfl⟩

theorem keepsSettings_cons (head tail : Datum) : KeepsSettings (cons head tail) :=
  keepsSettings_freshMark.bind fun _ => .pure _

theorem keepsSettings_extend (parent : Handle) (p : Parameters) (arguments : List Datum) :
    KeepsSettings (extend parent p arguments) := by
  intro s
  change Session.SameSettings s (extend parent p arguments s).2
  rw [extend]
  cases s.environments.extendFault? parent p arguments.length with
  | some e => exact .refl s
  | none => exact ⟨rfl, rfl, rfl, rfl⟩

end Action

theorem Session.sameSettings_collectGarbage (s : Session) (live : List Datum) :
    SameSettings s (s.collectGarbage live).2 := by
  rw [collectGarbage]
  split
  · exact .refl s
  · exact ⟨rfl, rfl, rfl, rfl⟩

theorem Session.sameSettings_collectIfNeeded (s : Session) (live : List Datum) :
    SameSettings s (s.collectIfNeeded live).2 := by
  rw [collectIfNeeded]
  split
  · exact .refl s
  · exact s.sameSettings_collectGarbage live

namespace Primitive

theorem keepsSettings_reclaim {collect : Session → Option Nat × Session}
    (hc : ∀ s, Session.SameSettings s (collect s).2) : (reclaim collect).KeepsSettings := by
  intro s
  have hs := hc s
  change Session.SameSettings s (reclaim collect s).2
  rw [reclaim]
  generalize collect s = x at hs ⊢
  obtain ⟨_ | freed, t⟩ := x <;> exact hs

theorem keepsSettings_ofPair (p : Primitive) (part : Datum → Datum → Datum) (d : Datum) :
    (ofPair p part d).KeepsSettings := by
  cases d with
  | pair mark head tail => exact .pure _
  | _ => exact .throw _

theorem keepsSettings_host (call : Caller) (evaluate : Evaluator) (p : HostPrimitive)
    (arguments : List Datum) :
    (perform call evaluate (.host p) arguments).KeepsSettings := by
  cases p with
  | tryCollect => exact keepsSettings_reclaim fun s => s.sameSettings_collectGarbage arguments
  | collectIfNeeded =>
    exact keepsSettings_reclaim fun s => s.sameSettings_collectIfNeeded arguments
  | frameCount | allocatedCount | isEvaluating => exact .bind .get fun _ => .pure _

end Primitive

end FrameLisp
