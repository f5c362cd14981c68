import FrameLisp.Proofs.Eval.Relocation

/-!
# Calls up to handles

Built-in primitives, loaded files and calls of procedures keep sessions together that are the same
up to handles, whatever the bound on the depth of calls.
-/
namespace FrameLisp

open Store Source

variable {w : Relocation} {call : Caller} {evaluate : Evaluator}

/-- Analysis refuses both data, or the two codes are run. -/
theorem Datum.relocates_evalIn (hcall : call.Relocates) :
    (Datum.evalIn call).Relocates := by
  rintro w env env' d _ henv ⟨hd, rfl⟩
  have ha : Code.Analysed _ _ w.map d := Code.analysed_of_within hd
  rw [Datum.evalIn, Datum.evalIn]
  rcases ha.exists_or with ⟨c, c', hc, hc', hcode⟩ | ⟨e, e', he, he', h⟩
  · rw [hc, hc']
    exact .evaluating (Code.relocated_run hcall c henv hcode)
  · rw [he, he']
    exact .fail ⟨by simp [EvalError.kind], congrArg EvalError.form h⟩

section Files

variable {env env' : Handle}

theorem relocated_evalAll (he : evaluate.Relocates) (henv : env.Relocated w env')
    {data : List Datum} (hd : ∀ d ∈ data, d.Plain) :
    Action.Relocated w (fun _ => Eq) (evalAll evaluate env data) (evalAll evaluate env' data) := by
  induction data generalizing w with
  | nil => exact .pure rfl
  | cons d data ih =>
    obtain ⟨hhead, htail⟩ := List.forall_mem_cons.1 hd
    refine .bind (he henv hhead.relocated) fun w' hle _ _ _ => ?_
    exact ih (henv.mono hle) htail

theorem relocated_loadChunks (he : evaluate.Relocates) (henv : env.Relocated w env')
    (path : String) {chunks : List Chunk}
    (hc : ∀ data, .forms data ∈ chunks → ∀ d ∈ data, d.Plain) :
    Action.Relocated w (fun _ => Eq) (loadChunks evaluate env path chunks)
      (loadChunks evaluate env' path chunks) := by
  induction chunks generalizing w with
  | nil => exact .pure rfl
  | cons chunk chunks ih =>
    cases chunk with
    | forms data =>
      refine .bind (relocated_evalAll he henv (hc data List.mem_cons_self)) ?_
      intro w' hle _ _ _
      exact ih (henv.mono hle) fun data hm => hc data (List.mem_cons_of_mem _ hm)
    | unreadable source error => exact .fail ⟨by simp [EvalError.kind], rfl⟩
    | fault f => exact .fail ⟨by simp [EvalError.kind], rfl⟩

theorem relocated_loadFile (he : evaluate.Relocates) (henv : env.Relocated w env')
    (path : String) :
    Action.Relocated w (fun _ => Eq) (loadFile evaluate env path)
      (loadFile evaluate env' path) := by
  refine .bind .get fun w' hle s t hst => ?_
  rw [hst.files]
  cases s.files path with
  | error f => exact .fail ⟨by simp [EvalError.kind], rfl⟩
  | ok bytes => exact relocated_loadChunks he (henv.mono hle) path fun _ hm => plain_of_ofLines hm

end Files

/-- The root frames are the same frame. -/
theorem Session.Relocated.root {s t : Session} (h : s.Relocated w t) :
    s.root.Relocated w t.root := h.environments.root

namespace Primitive

theorem relocated_unquoted {d d' : Datum} (hd : d.Relocated w d') :
    (unquoted d).Relocated w (unquoted d') := by
  obtain ⟨hwithin, rfl⟩ := hd
  cases d with
  | quoted d => exact ⟨hwithin, rfl⟩
  | _ => exact ⟨hwithin, rfl⟩

theorem relocated_computes {x y : Except EvalError Datum} (h : Arithmetic.Computes w.map x y) :
    Action.Relocated w Datum.Relocated (Action.ofExcept x) (Action.ofExcept y) := by
  cases h with
  | ok h =>
    obtain ⟨hplain, rfl⟩ := h
    exact .pure hplain.relocated
  | error h => exact .fail h

theorem relocated_ofPair (p : Primitive) {part : Datum → Datum → Datum}
    (hpart : ∀ {head tail : Datum}, head.Within w.used IsBuiltin → tail.Within w.used IsBuiltin →
      (part head tail).Relocated w (part (head.rename w.map) (tail.rename w.map)))
    {d : Datum} (hd : d.Within w.used IsBuiltin) :
    Action.Relocated w Datum.Relocated (ofPair p part d) (ofPair p part (d.rename w.map)) := by
  cases d with
  | pair mark head tail => exact .pure (hpart hd.1 hd.2)
  | _ => exact .fail (.wrongType _ _ _)

theorem relocated_apply (hcall : call.Relocates) {procedure : Datum} {arguments : List Datum}
    (hp : procedure.Within w.used IsBuiltin) (ha : ∀ d ∈ arguments, d.Within w.used IsBuiltin) :
    Action.Relocated w Datum.Relocated (perform call evaluate .apply (procedure :: arguments))
      (perform call evaluate .apply
        (procedure.rename w.map :: arguments.map (Datum.rename w.map))) := by
  simp only [perform]
  have hlast : (arguments.getLast?.getD .nil).Within w.used IsBuiltin := by
    cases hl : arguments.getLast? with
    | none => trivial
    | some d => exact ha d (List.mem_of_getLast? hl)
  have he : (arguments.map (Datum.rename w.map)).getLast?.getD .nil =
      (arguments.getLast?.getD .nil).rename w.map := by
    rw [List.getLast?_map]
    cases arguments.getLast? <;> rfl
  rw [he, Datum.toList?_rename]
  generalize arguments.getLast?.getD .nil = last at hlast ⊢
  cases hs : last.toList? with
  | none => exact .fail (.wrongType _ _ _)
  | some spread =>
    refine hcall ⟨hp, rfl⟩ ⟨fun d hd => ?_, ?_⟩
    · rcases List.mem_append.1 hd with hd | hd
      · exact ha d (List.mem_of_mem_dropLast hd)
      · exact hlast.toList? hs d hd
    · rw [List.map_append, List.map_dropLast]

theorem relocated_perform (hcall : call.Relocates) (he : evaluate.Relocates) {p : Primitive}
    (hp : p.IsBuiltin) {arguments arguments' : List Datum}
    (ha : Datum.AllRelocated w arguments arguments') :
    Action.Relocated w Datum.Relocated (perform call evaluate p arguments)
      (perform call evaluate p arguments') := by
  have hall := ha
  obtain ⟨ha, rfl⟩ := ha
  cases p with
  | list => exact Action.relocated_list hall
  | add => exact relocated_computes (Arithmetic.computes_add arguments)
  | sub => exact relocated_computes (Arithmetic.computes_sub arguments)
  | mul => exact relocated_computes (Arithmetic.computes_mul arguments)
  | div => exact relocated_computes (Arithmetic.computes_div arguments)
  | equal | less | greater | lessOrEqual | greaterOrEqual =>
    exact relocated_computes (Arithmetic.computes_compare arguments _ _)
  | host p => simp [IsBuiltin, builtin] at hp
  | eval =>
    cases arguments with
    | nil => exact .pure ⟨trivial, rfl⟩
    | cons d arguments =>
      have hd : d.Relocated w (d.rename w.map) := ⟨ha d List.mem_cons_self, rfl⟩
      refine .bind .get fun w' hle s t hst => ?_
      exact he hst.root (relocated_unquoted (hd.mono hle))
  | apply =>
    cases arguments with
    | nil => exact .pure ⟨trivial, rfl⟩
    | cons procedure arguments =>
      obtain ⟨hprocedure, harguments⟩ := List.forall_mem_cons.1 ha
      exact relocated_apply hcall hprocedure harguments
  | load =>
    cases arguments with
    | nil => exact .pure ⟨trivial, rfl⟩
    | cons d arguments =>
      simp only [List.map_cons, perform, Datum.asString?_rename]
      cases d.asString? with
      | none => exact .fail (.wrongType _ _ _)
      | some path =>
        refine .bind .get fun w' hle s t hst => ?_
        refine .bind (relocated_loadFile he hst.root path) fun w'' hle' _ _ _ => ?_
        exact .pure ⟨trivial, rfl⟩
  | car =>
    cases arguments with
    | nil => exact .pure ⟨trivial, rfl⟩
    | cons d arguments =>
      exact relocated_ofPair .car (fun hhead _ => ⟨hhead, rfl⟩) (ha d List.mem_cons_self)
  | cdr =>
    cases arguments with
    | nil => exact .pure ⟨trivial, rfl⟩
    | cons d arguments =>
      exact relocated_ofPair .cdr (fun _ htail => ⟨htail, rfl⟩) (ha d List.mem_cons_self)
  | cons =>
    match arguments with
    | [] | [_] => exact .pure ⟨trivial, rfl⟩
    | head :: tail :: _ =>
      obtain ⟨hhead, hrest⟩ := List.forall_mem_cons.1 ha
      exact Action.relocated_cons ⟨hhead, rfl⟩ ⟨hrest tail List.mem_cons_self, rfl⟩
  | isEqual =>
    match arguments with
    | [] | [_] => exact .pure ⟨trivial, rfl⟩
    | a :: b :: _ =>
      simp only [List.map_cons, perform, Datum.same_rename]
      exact .pure ⟨trivial, rfl⟩
  | isPair | isNull | not =>
    cases arguments with
    | nil => exact .pure ⟨trivial, rfl⟩
    | cons d arguments =>
      simp only [List.map_cons, perform, Datum.isPair_rename, Datum.isNull_rename,
        Datum.isFalse_rename]
      exact .pure ⟨trivial, rfl⟩

theorem relocated_invoke (hcall : call.Relocates) (he : evaluate.Relocates) {p : Primitive}
    (hp : p.IsBuiltin) {arguments arguments' : List Datum}
    (ha : Datum.AllRelocated w arguments arguments') :
    Action.Relocated w Datum.Relocated (invoke call evaluate p arguments)
      (invoke call evaluate p arguments') := by
  have hlength : arguments'.length = arguments.length := by rw [ha.2, List.length_map]
  rw [invoke, invoke, hlength]
  split
  · exact .fail (.arity _)
  · exact relocated_perform hcall he hp ha

end Primitive

theorem relocates_call (depth : Nat) : (FrameLisp.call depth).Relocates := by
  induction depth with
  | zero =>
    intro w procedure procedure' arguments arguments' _ _
    exact .exhausted
  | succ depth ih =>
    rintro w procedure _ arguments arguments' ⟨hp, rfl⟩ ha
    cases procedure with
    | primitive p => exact Primitive.relocated_invoke ih (Datum.relocates_evalIn ih) hp ha
    | closure mark l frame =>
      obtain ⟨hframe, hl⟩ := hp
      simp only [Datum.rename, FrameLisp.call, applyWith, Lambda.parameters_rename,
        Lambda.body_rename]
      refine .bind (Action.relocated_extend ⟨hframe, rfl⟩ l.parameters ha) ?_
      intro w' hle env env' henv
      have hbody : l.body.Relocated w (l.body.rename w.map) := ⟨hl.body, rfl⟩
      exact Code.relocated_run ih l.body henv (hbody.mono hle)
    | _ => exact .fail ⟨by simp [EvalError.kind], rfl⟩

end FrameLisp
