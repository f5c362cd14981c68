import FrameLisp.Proofs.Source.Built
import FrameLisp.Proofs.Store.Relocation
import FrameLisp.Eval.Run

/-!
# Evaluation up to handles

Evaluations of the same code in two sessions that are the same up to handles stay together: they
end alike, and leave sessions that are the same again. No error is ever that a handle outlived its
frame, since all that a running evaluation holds is in use.
-/
namespace FrameLisp

open Store Source

/-- The same handle elsewhere. -/
def Store.Handle.Relocated (w : Relocation) (h h' : Handle) : Prop := w.used h ∧ h' = w.map h

/-- The same code elsewhere. -/
def Code.Relocated (w : Relocation) : Code → Code → Prop :=
  Code.Renames w.used Primitive.IsBuiltin w.map

/-- The same units elsewhere, one by one. -/
def Code.AllRelocated (w : Relocation) (units units' : List Code) : Prop :=
  (∀ unit ∈ units, unit.Within w.used Primitive.IsBuiltin) ∧ units' = units.map (rename w.map)

/-- Sessions that differ only in their handles and in when they collect. -/
structure Session.Relocated (w : Relocation) (s t : Session) : Prop where
  environments : s.environments.Relocated w t.environments
  depth : t.depth = s.depth
  marks : t.marks = s.marks
  files : t.files = s.files

inductive Halt.Renamed (σ : Handle → Handle) : Halt → Halt → Prop
  | failed {e e'} : e.Renamed σ e' → Halt.Renamed σ (.failed e) (.failed e')
  | exhausted : Halt.Renamed σ .exhausted .exhausted

section Mono

variable {w w' : Relocation}

theorem Store.Handle.Relocated.mono {h h' : Handle} (hw : w ≤ w') (hr : h.Relocated w h') :
    h.Relocated w' h' :=
  ⟨(hw h hr.1).1, hr.2.trans (hw h hr.1).2.symm⟩

theorem Code.Within.rename_of_le {c : Code} {q : Primitive → Prop} (hw : w ≤ w')
    (hc : c.Within w.used q) : c.rename w'.map = c.rename w.map :=
  hc.rename_congr fun h hu => (hw h hu).2

theorem Code.Relocated.mono {c c' : Code} (hw : w ≤ w') (h : c.Relocated w c') :
    c.Relocated w' c' :=
  ⟨h.1.mono fun k hk => (hw k hk).1, h.2.trans (h.1.rename_of_le hw).symm⟩

theorem Code.AllRelocated.mono {units units' : List Code} (hw : w ≤ w')
    (h : AllRelocated w units units') : AllRelocated w' units units' := by
  refine ⟨fun unit hu => (h.1 unit hu).mono fun k hk => (hw k hk).1, h.2.trans ?_⟩
  exact List.map_congr_left fun unit hu => ((h.1 unit hu).rename_of_le hw).symm

end Mono

namespace Action

variable {α β γ δ : Type}

/-- Run in sessions that are the same up to handles, the actions end alike, and the sessions are
the same again. New frames may be in use afterwards. -/
def Relocated (w : Relocation) (r : Relocation → α → β → Prop) (a : Action α) (b : Action β) :
    Prop :=
  ∀ s t, s.Relocated w t → ∃ w', w ≤ w' ∧
    (a.runFrom s).2.Relocated w' (b.runFrom t).2 ∧
    Parallel (Halt.Renamed w'.map) (r w') (a.runFrom s).1 (b.runFrom t).1

variable {w : Relocation} {r : Relocation → α → β → Prop} {r' : Relocation → γ → δ → Prop}

/-- An action that makes no frame and ends in the given way. -/
theorem Relocated.of_runFrom {a : Action α} {b : Action β}
    (h : ∀ s t, s.Relocated w t → (a.runFrom s).2.Relocated w (b.runFrom t).2 ∧
      Parallel (Halt.Renamed w.map) (r w) (a.runFrom s).1 (b.runFrom t).1) :
    Relocated w r a b :=
  fun s t hst => ⟨w, le_refl w, h s t hst⟩

theorem Relocated.pure {a : α} {b : β} (h : r w a b) :
    Relocated w r (Pure.pure a) (Pure.pure b) :=
  .of_runFrom fun _ _ hst => ⟨hst, .ok h⟩

theorem Relocated.fail {e e' : EvalError} (h : e.Renamed w.map e') :
    Relocated w r (Action.fail e) (Action.fail e') :=
  .of_runFrom fun _ _ hst => ⟨hst, .error (.failed h)⟩

theorem Relocated.exhausted : Relocated w r (throw .exhausted) (throw .exhausted) :=
  .of_runFrom fun _ _ hst => ⟨hst, .error .exhausted⟩

theorem Relocated.bind {a : Action α} {b : Action β} {f : α → Action γ} {g : β → Action δ}
    (hab : Relocated w r a b)
    (hfg : ∀ w', w ≤ w' → ∀ x y, r w' x y → Relocated w' r' (f x) (g y)) :
    Relocated w r' (a >>= f) (b >>= g) := by
  intro s t hst
  obtain ⟨w', hle, hst', hxy⟩ := hab s t hst
  rw [runFrom_bind, runFrom_bind]
  generalize a.runFrom s = x at hst' hxy
  generalize b.runFrom t = y at hst' hxy
  obtain ⟨x, s'⟩ := x
  obtain ⟨y, t'⟩ := y
  cases hxy with
  | error he => exact ⟨w', hle, hst', .error he⟩
  | ok h =>
    obtain ⟨w'', hle', hend⟩ := hfg w' hle _ _ h s' t' hst'
    exact ⟨w'', hle.trans hle', hend⟩

theorem Relocated.get : Relocated w Session.Relocated MonadState.get MonadState.get :=
  .of_runFrom fun _ _ hst => ⟨hst, .ok hst⟩

section Elementary

variable {env env' : Handle} {v v' : Datum}

theorem relocated_lookup (henv : env.Relocated w env') (name : String) :
    Relocated w Datum.Relocated (lookup env name) (lookup env' name) := by
  refine .of_runFrom fun s t hst => ?_
  obtain ⟨hu, rfl⟩ := henv
  have hl := hst.environments.lookup hu name
  change (lookup env name s).2.Relocated w (lookup (w.map env) name t).2 ∧ Parallel _ _
    (lookup env name s).1 (lookup (w.map env) name t).1
  rw [lookup, lookup]
  rcases hl.exists_or with ⟨x, y, hx, hy, h⟩ | ⟨e, e', he, he', h⟩
  · rw [hx, hy]
    exact ⟨hst, .ok h⟩
  · rw [he, he']
    exact ⟨hst, .error (.failed h)⟩

theorem relocated_onEnvironments {f g : Environments → Except EvalError Unit × Environments}
    (hfg : ∀ s t : Environments, s.Relocated w t → Parallel (EvalError.Renamed w.map) Eq (f s).1
      (g t).1 ∧ (f s).2.Relocated w (g t).2) :
    Relocated w (fun _ => Eq) (onEnvironments f) (onEnvironments g) := by
  refine .of_runFrom fun s t hst => ?_
  obtain ⟨henvironments, hdepth, hmarks, hfiles⟩ := hst
  obtain ⟨hend, hs⟩ := hfg _ _ henvironments
  change (onEnvironments f s).2.Relocated w (onEnvironments g t).2 ∧ Parallel _ _
    (onEnvironments f s).1 (onEnvironments g t).1
  simp only [onEnvironments]
  generalize f s.environments = x at hend hs ⊢
  generalize g t.environments = y at hend hs ⊢
  obtain ⟨x, s'⟩ := x
  obtain ⟨y, t'⟩ := y
  cases hend with
  | ok h => exact ⟨⟨hs, hdepth, hmarks, hfiles⟩, .ok h⟩
  | error h => exact ⟨⟨hs, hdepth, hmarks, hfiles⟩, .error (.failed h)⟩

theorem relocated_define (henv : env.Relocated w env') (name : String)
    (hv : v.Relocated w v') :
    Relocated w (fun _ => Eq) (define env name v) (define env' name v') := by
  obtain ⟨hu, rfl⟩ := henv
  exact relocated_onEnvironments fun s t hst => hst.define hu name hv

theorem relocated_assign (henv : env.Relocated w env') (name : String)
    (hv : v.Relocated w v') :
    Relocated w (fun _ => Eq) (assign env name v) (assign env' name v') := by
  obtain ⟨hu, rfl⟩ := henv
  exact relocated_onEnvironments fun s t hst => hst.assign hu name hv

theorem relocated_freshMark : Relocated w (fun _ => Eq) freshMark freshMark := by
  refine .of_runFrom fun s t hst => ⟨⟨hst.environments, hst.depth, ?_, hst.files⟩, .ok ?_⟩
  · exact congrArg (· + 1) hst.marks
  · exact hst.marks.symm

theorem relocated_cons {head head' tail tail' : Datum} (hhead : head.Relocated w head')
    (htail : tail.Relocated w tail') :
    Relocated w Datum.Relocated (cons head tail) (cons head' tail') := by
  refine .bind relocated_freshMark ?_
  rintro w' hle mark _ rfl
  obtain ⟨hh, rfl⟩ := hhead.mono hle
  obtain ⟨ht, rfl⟩ := htail.mono hle
  exact .pure ⟨⟨hh, ht⟩, rfl⟩

theorem relocated_list {items items' : List Datum} (hi : Datum.AllRelocated w items items') :
    Relocated w Datum.Relocated (list items) (list items') := by
  refine .of_runFrom fun s t hst => ?_
  obtain ⟨hwithin, rfl⟩ := hi
  change (list items s).2.Relocated w (list (items.map (Datum.rename w.map)) t).2 ∧ Parallel _ _
    (list items s).1 (list (items.map (Datum.rename w.map)) t).1
  simp only [list, hst.marks, Datum.markedList_rename]
  exact ⟨⟨hst.environments, hst.depth, rfl, hst.files⟩,
    .ok ⟨Datum.within_markedList s.marks hwithin, rfl⟩⟩

theorem relocated_extend (henv : env.Relocated w env') (p : Parameters)
    {arguments arguments' : List Datum} (ha : Datum.AllRelocated w arguments arguments') :
    Relocated w Handle.Relocated (extend env p arguments) (extend env' p arguments') := by
  intro s t hst
  obtain ⟨hu, rfl⟩ := henv
  obtain ⟨hwithin, rfl⟩ := ha
  obtain ⟨environments, threshold, depth, marks, files⟩ := s
  obtain ⟨environments', threshold', depth', marks', files'⟩ := t
  obtain ⟨henvironments, rfl, rfl, rfl⟩ := hst
  dsimp only at henvironments hu hwithin
  obtain ⟨hfault, hfault'⟩ := henvironments.extendFault? hu p arguments.length
  have hb := Environments.within_bind p hwithin marks'
  obtain ⟨hle, hrel⟩ := henvironments.extend hu hb rfl rfl
  change ∃ w', _ ∧ (extend env p arguments ⟨_, _, _, _, _⟩).2.Relocated w'
    (extend (w.map env) p (arguments.map (Datum.rename w.map)) ⟨_, _, _, _, _⟩).2 ∧ Parallel _ _
      (extend env p arguments ⟨_, _, _, _, _⟩).1
      (extend (w.map env) p (arguments.map (Datum.rename w.map)) ⟨_, _, _, _, _⟩).1
  simp only [extend, List.length_map, hfault, hfault', Environments.bind_rename]
  cases p.arity.mismatch? arguments.length with
  | some e =>
    exact ⟨w, le_refl w, ⟨henvironments, rfl, rfl, rfl⟩, .error (.failed (.arity e))⟩
  | none =>
    exact ⟨_, hle, ⟨hrel, rfl, rfl, rfl⟩, .ok ⟨.inl rfl, (w.map_add _ _).symm⟩⟩

/-- While it is being evaluated, the depth is greater on both sides. -/
theorem Relocated.evaluating {α β : Type} {r : Relocation → α → β → Prop} {a : Action α}
    {b : Action β} (hab : Relocated w r a b) :
    Relocated w r (Action.evaluating a) (Action.evaluating b) := by
  intro s t hst
  obtain ⟨w', hle, hst', hend⟩ := hab { s with depth := s.depth + 1 }
    { t with depth := t.depth + 1 }
    ⟨hst.environments, congrArg (· + 1) hst.depth, hst.marks, hst.files⟩
  exact ⟨w', hle, ⟨hst'.environments, congrArg (· - 1) hst'.depth, hst'.marks, hst'.files⟩, hend⟩

end Elementary

end Action

/-- Calls of the same procedure with the same arguments stay together. -/
def Caller.Relocates (call : Caller) : Prop :=
  ∀ {w procedure procedure' arguments arguments'}, Datum.Relocated w procedure procedure' →
    Datum.AllRelocated w arguments arguments' →
    Action.Relocated w Datum.Relocated (call procedure arguments) (call procedure' arguments')

/-- Evaluations of the same datum in the same frame stay together. -/
def Evaluator.Relocates (evaluate : Evaluator) : Prop :=
  ∀ {w env env' d d'}, Handle.Relocated w env env' → Datum.Relocated w d d' →
    Action.Relocated w Datum.Relocated (evaluate env d) (evaluate env' d')

namespace Code

variable {call : Caller}

mutual

/-- Later units are run in greater relocations, in which their code is still the same. -/
theorem relocated_run (hcall : call.Relocates) : ∀ (c : Code) {c' : Code} {env env' : Handle}
    {w : Relocation}, env.Relocated w env' → c.Relocated w c' →
    Action.Relocated w Datum.Relocated (run call env c) (run call env' c')
  | .constant d, _, _, _, _, _, ⟨hc, rfl⟩ => by
    rw [rename, run, run]
    exact .pure ⟨hc, rfl⟩
  | .variable name, _, _, _, _, henv, ⟨_, rfl⟩ => by
    rw [rename, run, run]
    exact Action.relocated_lookup henv name
  | .assignment name value, _, _, _, _, henv, ⟨hc, rfl⟩ => by
    rw [rename, run, run]
    refine .bind (relocated_run hcall value henv ⟨hc, rfl⟩) fun w₁ hle₁ v v' hv => ?_
    refine .bind (Action.relocated_assign (henv.mono hle₁) name hv) fun _ _ _ _ _ => ?_
    exact .pure ⟨trivial, rfl⟩
  | .definition name value, _, _, _, _, henv, ⟨hc, rfl⟩ => by
    rw [rename, run, run]
    refine .bind (relocated_run hcall value henv ⟨hc, rfl⟩) fun w₁ hle₁ v v' hv => ?_
    refine .bind (Action.relocated_define (henv.mono hle₁) name hv) fun _ _ _ _ _ => ?_
    exact .pure ⟨trivial, rfl⟩
  | .conditional test consequent alternative, _, _, _, w, henv, ⟨hc, rfl⟩ => by
    obtain ⟨ht, hconsequent, halternative⟩ := hc
    rw [rename, run, run]
    refine .bind (relocated_run hcall test henv ⟨ht, rfl⟩) fun w₁ hle₁ v v' hv => ?_
    obtain ⟨-, rfl⟩ := hv
    have hc₁ : consequent.Relocated w (consequent.rename w.map) := ⟨hconsequent, rfl⟩
    have ha₁ : alternative.Relocated w (alternative.rename w.map) := ⟨halternative, rfl⟩
    rw [Datum.isFalse_rename]
    split
    · exact relocated_run hcall alternative (henv.mono hle₁) (ha₁.mono hle₁)
    · exact relocated_run hcall consequent (henv.mono hle₁) (hc₁.mono hle₁)
  | .lambda l, _, env, _, w, henv, ⟨hc, rfl⟩ => by
    rw [rename, run, run]
    refine .bind Action.relocated_freshMark fun w₁ hle₁ mark mark' hmark => ?_
    obtain rfl := hmark
    have hl : (Code.lambda l).Relocated w (.lambda (l.rename w.map)) := ⟨hc, rfl⟩
    obtain ⟨hc₁, he⟩ := hl.mono hle₁
    obtain ⟨henv₁, rfl⟩ := henv.mono hle₁
    rw [Code.lambda.inj he]
    exact .pure ⟨⟨henv₁, hc₁⟩, rfl⟩
  | .sequence units, _, _, _, _, henv, ⟨hc, rfl⟩ => by
    rw [rename, run, run, renameAll_eq_map]
    exact relocated_runAll hcall units henv ⟨allWithin_iff.1 hc, rfl⟩ ⟨trivial, rfl⟩
  | .application operator operands, _, _, _, w, henv, ⟨hc, rfl⟩ => by
    obtain ⟨hoperator, hoperands⟩ := hc
    rw [rename, run, run, renameAll_eq_map]
    refine .bind (relocated_run hcall operator henv ⟨hoperator, rfl⟩) fun w₁ hle₁ f f' hf => ?_
    have ho : AllRelocated w operands (operands.map (rename w.map)) :=
      ⟨allWithin_iff.1 hoperands, rfl⟩
    refine .bind (relocated_runEach hcall operands (henv.mono hle₁) (ho.mono hle₁)
      ⟨by simp, rfl⟩) fun w₂ hle₂ as as' has => ?_
    exact hcall (hf.mono hle₂) has

theorem relocated_runAll (hcall : call.Relocates) : ∀ (units : List Code) {units' : List Code}
    {env env' : Handle} {last last' : Datum} {w : Relocation}, env.Relocated w env' →
    AllRelocated w units units' → last.Relocated w last' →
    Action.Relocated w Datum.Relocated (runAll call env last units) (runAll call env' last' units')
  | [], _, _, _, _, _, _, _, ⟨_, rfl⟩, hlast => by
    rw [List.map_nil, runAll, runAll]
    exact .pure hlast
  | unit :: units, _, _, _, _, _, w, henv, ⟨hc, rfl⟩, _ => by
    obtain ⟨hunit, hunits⟩ := List.forall_mem_cons.1 hc
    rw [List.map_cons, runAll, runAll]
    refine .bind (relocated_run hcall unit henv ⟨hunit, rfl⟩) fun w₁ hle₁ v v' hv => ?_
    have hu : AllRelocated w units (units.map (rename w.map)) := ⟨hunits, rfl⟩
    exact relocated_runAll hcall units (henv.mono hle₁) (hu.mono hle₁) hv

theorem relocated_runEach (hcall : call.Relocates) : ∀ (units : List Code) {units' : List Code}
    {env env' : Handle} {values values' : List Datum} {w : Relocation}, env.Relocated w env' →
    AllRelocated w units units' → Datum.AllRelocated w values values' →
    Action.Relocated w Datum.AllRelocated (runEach call env values units)
      (runEach call env' values' units')
  | [], _, _, _, _, _, _, _, ⟨_, rfl⟩, ⟨hvalues, rfl⟩ => by
    rw [List.map_nil, runEach, runEach]
    refine .pure ⟨fun d hd => hvalues d (List.mem_reverse.1 hd), ?_⟩
    rw [List.map_reverse]
  | unit :: units, _, _, _, values, _, w, henv, ⟨hc, rfl⟩, hvalues => by
    obtain ⟨hunit, hunits⟩ := List.forall_mem_cons.1 hc
    rw [List.map_cons, runEach, runEach]
    refine .bind (relocated_run hcall unit henv ⟨hunit, rfl⟩) fun w₁ hle₁ v v' hv => ?_
    have hu : AllRelocated w units (units.map (rename w.map)) := ⟨hunits, rfl⟩
    obtain ⟨hv₁, rfl⟩ := hv
    obtain ⟨hvalues₁, rfl⟩ := hvalues.mono hle₁
    exact relocated_runEach hcall units (henv.mono hle₁) (hu.mono hle₁)
      ⟨List.forall_mem_cons.2 ⟨hv₁, hvalues₁⟩, rfl⟩

end

end Code

end FrameLisp
