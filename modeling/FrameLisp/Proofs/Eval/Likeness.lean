import FrameLisp.Proofs.Store.Likeness
import FrameLisp.Eval.Run

/-!
# Evaluation on related data

A likeness is a relation of data under which two evaluations may stay together: related data have
one shape, and what the primitives make of related data is related. Actions are alike when they end
alike in sessions whose values are related, and leave such sessions. A session in which an
evaluation is running never collects, so that frames and handles are the same on both sides.
-/
namespace FrameLisp

open Store Source

/-- What evaluation relies on, of data that are related and of the errors that show them. -/
structure Likeness where
  data : Datum → Datum → Prop
  errors : EvalError → EvalError → Prop
  shapely : Datum.Shapely data
  number : ∀ n, data (.number n) (.number n)
  boolean : ∀ b, data (.boolean b) (.boolean b)
  nil : data .nil .nil
  acknowledgement : data .acknowledgement .acknowledgement
  pair : ∀ {mark head head' tail tail'}, data head head' → data tail tail' →
    data (.pair mark head tail) (.pair mark head' tail')
  errors_of_shaped : ∀ {e e'}, e.Shaped data e' → errors e e'
  /-- What is loaded is related to itself. -/
  loaded : ∀ {bytes forms}, .forms forms ∈ Chunk.ofBytes bytes → ∀ d ∈ forms, data d d

/-- The same session but for the values in its frames, which are related. -/
structure Session.Like (r : Datum → Datum → Prop) (s s' : Session) : Prop where
  environments : s.environments.Like r s'.environments
  threshold : s.threshold = s'.threshold
  depth : s.depth = s'.depth
  marks : s.marks = s'.marks
  files : s.files = s'.files

/-- New sessions hold primitives only. -/
theorem Session.Like.new {r : Datum → Datum → Prop}
    (hp : ∀ p : Primitive, r (.primitive p) (.primitive p)) (threshold : Nat) (files : Files) :
    (Session.new threshold files).Like r (Session.new threshold files) := by
  refine ⟨?_, rfl, rfl, rfl, rfl⟩
  have hnew : Environments.new.Like r Environments.new := .new
  have hfilled := hnew.defineAll Primitive.builtin Primitive.name Datum.primitive hp
  rw [environments_new]
  exact hfilled

inductive Halt.Like (errors : EvalError → EvalError → Prop) : Halt → Halt → Prop
  | failed {e e'} : errors e e' → Halt.Like errors (.failed e) (.failed e')
  | exhausted : Halt.Like errors .exhausted .exhausted

variable {α β γ δ : Type} {r : Likeness} {n : Nat} {q : α → β → Prop} {q' : γ → δ → Prop}

/-- Two actions ended alike, in sessions that are alike, and the first one left the depth as it
was. -/
structure Action.EndsLike (r : Likeness) (q : α → β → Prop) (depth : Nat)
    (x : Except Halt α × Session) (y : Except Halt β × Session) : Prop where
  session : x.2.Like r.data y.2
  depth : x.2.depth = depth
  outcome : Parallel (Halt.Like r.errors) q x.1 y.1

/-- Run in sessions that are alike, in which at least `n` evaluations are running, the actions end
alike. -/
def Action.Like (r : Likeness) (n : Nat) (q : α → β → Prop) (a : Action α) (b : Action β) : Prop :=
  ∀ s t, s.Like r.data t → n ≤ s.depth → EndsLike r q s.depth (a.runFrom s) (b.runFrom t)

/-- Procedures are called alike during evaluations. -/
def Caller.Like (r : Likeness) (call call' : Caller) : Prop :=
  ∀ {procedure procedure' arguments arguments'}, r.data procedure procedure' →
    List.Forall₂ r.data arguments arguments' →
    Action.Like r 1 r.data (call procedure arguments) (call' procedure' arguments')

def Evaluator.Like (r : Likeness) (n : Nat) (evaluate evaluate' : Evaluator) : Prop :=
  ∀ env {d d'}, r.data d d' → Action.Like r n r.data (evaluate env d) (evaluate' env d')

namespace Action

section Rules

theorem Like.pure {a : α} {b : β} (h : q a b) : Like r n q (Pure.pure a) (Pure.pure b) :=
  fun _ _ hst _ => ⟨hst, rfl, .ok h⟩

theorem Like.fail {e e' : EvalError} (h : r.errors e e') :
    Like r n q (Action.fail e) (Action.fail e') :=
  fun _ _ hst _ => ⟨hst, rfl, .error (.failed h)⟩

theorem Like.exhausted : Like r n q (throw .exhausted) (throw .exhausted) :=
  fun _ _ hst _ => ⟨hst, rfl, .error .exhausted⟩

theorem Like.bind {a : Action α} {b : Action β} {f : α → Action γ} {g : β → Action δ}
    (hab : Like r n q a b) (hfg : ∀ x y, q x y → Like r n q' (f x) (g y)) :
    Like r n q' (a >>= f) (b >>= g) := by
  intro s t hst hdepth
  obtain ⟨hst', hdepth', hend⟩ := hab s t hst hdepth
  rw [runFrom_bind, runFrom_bind]
  generalize a.runFrom s = x at hst' hdepth' hend
  generalize b.runFrom t = y at hst' hend
  obtain ⟨x, s'⟩ := x
  obtain ⟨y, t'⟩ := y
  cases hend with
  | error he => exact ⟨hst', hdepth', .error he⟩
  | ok h =>
    have hnext := hfg _ _ h s' t' hst' (hdepth' ▸ hdepth)
    exact ⟨hnext.session, hnext.depth.trans hdepth', hnext.outcome⟩

theorem Like.get : Like r n (Session.Like r.data) MonadState.get MonadState.get :=
  fun _ _ hst _ => ⟨hst, rfl, .ok hst⟩

/-- Within an evaluation sessions are running, whatever they did before. -/
theorem Like.evaluating {a : Action α} {b : Action β} (hab : Like r 1 q a b) :
    Like r n q (Action.evaluating a) (Action.evaluating b) := by
  intro s t hst _
  obtain ⟨hst', hdepth, hend⟩ := hab { s with depth := s.depth + 1 }
    { t with depth := t.depth + 1 }
    ⟨hst.environments, hst.threshold, congrArg (· + 1) hst.depth, hst.marks, hst.files⟩
    (Nat.succ_pos _)
  rw [runFrom_evaluating, runFrom_evaluating]
  refine ⟨⟨hst'.environments, hst'.threshold, congrArg (· - 1) hst'.depth, hst'.marks,
    hst'.files⟩, ?_, hend⟩
  exact congrArg (· - 1) hdepth

theorem Like.ofExcept {x : Except EvalError α} {y : Except EvalError β}
    (h : Parallel r.errors q x y) : Like r n q (Action.ofExcept x) (Action.ofExcept y) := by
  cases h with
  | ok h => exact .pure h
  | error h => exact .fail h

end Rules

section Frames

variable {value value' : Datum}

theorem like_lookup (env : Handle) (name : String) :
    Like r n r.data (lookup env name) (lookup env name) := by
  intro s t hst _
  have hl := hst.environments.lookup env name
  change EndsLike r r.data s.depth (lookup env name s) (lookup env name t)
  rw [lookup, lookup]
  rcases hl.exists_or with ⟨x, y, hx, hy, h⟩ | ⟨e, e', he, he', h⟩
  · rw [hx, hy]
    exact ⟨hst, rfl, .ok h⟩
  · rw [he, he']
    exact ⟨hst, rfl, .error (.failed (r.errors_of_shaped h))⟩

theorem like_onEnvironments {f g : Environments → Except EvalError Unit × Environments}
    (hfg : ∀ s t : Environments, s.Like r.data t →
      Parallel (EvalError.Shaped r.data) Eq (f s).1 (g t).1 ∧ (f s).2.Like r.data (g t).2) :
    Like r n Eq (onEnvironments f) (onEnvironments g) := by
  intro s t hst _
  obtain ⟨henvironments, hthreshold, hdepth, hmarks, hfiles⟩ := hst
  obtain ⟨hend, hs⟩ := hfg _ _ henvironments
  change EndsLike r Eq s.depth (onEnvironments f s) (onEnvironments g t)
  simp only [onEnvironments]
  generalize f s.environments = x at hend hs ⊢
  generalize g t.environments = y at hend hs ⊢
  obtain ⟨x, s'⟩ := x
  obtain ⟨y, t'⟩ := y
  cases hend with
  | ok h => exact ⟨⟨hs, hthreshold, hdepth, hmarks, hfiles⟩, rfl, .ok h⟩
  | error h =>
    exact ⟨⟨hs, hthreshold, hdepth, hmarks, hfiles⟩, rfl,
      .error (.failed (r.errors_of_shaped h))⟩

theorem like_define (env : Handle) (name : String) (hv : r.data value value') :
    Like r n Eq (define env name value) (define env name value') :=
  like_onEnvironments fun _ _ hst => hst.define env name hv

theorem like_assign (env : Handle) (name : String) (hv : r.data value value') :
    Like r n Eq (assign env name value) (assign env name value') :=
  like_onEnvironments fun _ _ hst => hst.assign env name hv

end Frames

section Pairs

variable {items items' : List Datum}

theorem like_freshMark : Like r n Eq freshMark freshMark := by
  intro s t hst _
  refine ⟨⟨hst.environments, hst.threshold, hst.depth, ?_, hst.files⟩, rfl, .ok ?_⟩
  · exact congrArg (· + 1) hst.marks
  · exact hst.marks

theorem like_cons {head head' tail tail' : Datum} (hhead : r.data head head')
    (htail : r.data tail tail') : Like r n r.data (cons head tail) (cons head' tail') := by
  refine .bind like_freshMark ?_
  rintro mark _ rfl
  exact .pure (r.pair hhead htail)

/-- New pairs get the same marks on both sides. -/
theorem like_markedList (mark : Nat) (hi : List.Forall₂ r.data items items') :
    r.data (Datum.markedList mark items).1 (Datum.markedList mark items').1 ∧
      (Datum.markedList mark items).2 = (Datum.markedList mark items').2 := by
  induction hi with
  | nil => exact ⟨r.nil, rfl⟩
  | cons hitem _ ih =>
    obtain ⟨htail, hmark⟩ := ih
    simp only [Datum.markedList, Datum.markedChain, List.foldr_cons] at htail hmark ⊢
    rw [hmark]
    exact ⟨r.pair hitem htail, rfl⟩

theorem like_list (hi : List.Forall₂ r.data items items') :
    Like r n r.data (list items) (list items') := by
  intro s t hst _
  obtain ⟨hlist, hmarks⟩ := like_markedList s.marks hi
  change EndsLike r r.data s.depth (list items s) (list items' t)
  rw [list, list, ← hst.marks]
  exact ⟨⟨hst.environments, hst.threshold, hst.depth, hmarks, hst.files⟩, rfl, .ok hlist⟩

theorem like_bind (p : Parameters) (mark : Nat) (hi : List.Forall₂ r.data items items') :
    (Environments.bind p items mark).1.Like r.data (Environments.bind p items' mark).1 ∧
      (Environments.bind p items mark).2 = (Environments.bind p items' mark).2 := by
  have hempty : Bindings.Like r.data [] [] := .nil
  have hrequired := hempty.insertAll p.required hi
  rw [Environments.bind, Environments.bind]
  cases p.rest with
  | none => exact ⟨hrequired, rfl⟩
  | some rest =>
    obtain ⟨hsurplus, hmark⟩ := like_markedList mark (List.forall₂_drop p.required.length hi)
    exact ⟨hrequired.insert rest hsurplus, hmark⟩

theorem like_extend (parent : Handle) (p : Parameters) (hi : List.Forall₂ r.data items items') :
    Like r n Eq (extend parent p items) (extend parent p items') := by
  intro s t hst _
  obtain ⟨environments, threshold, depth, marks, files⟩ := s
  obtain ⟨environments', threshold', depth', marks', files'⟩ := t
  obtain ⟨henvironments, rfl, rfl, rfl, rfl⟩ := hst
  have hfault := henvironments.extendFault? parent p items.length
  obtain ⟨hb, hmarks⟩ := like_bind p marks hi
  obtain ⟨henv, hextended⟩ := henvironments.extend parent hb
  change EndsLike r Eq depth (extend parent p items ⟨_, _, _, _, _⟩)
    (extend parent p items' ⟨_, _, _, _, _⟩)
  simp only [extend, ← hi.length_eq]
  generalize environments.extendFault? parent p items.length = fault at hfault ⊢
  generalize environments'.extendFault? parent p items.length = fault' at hfault ⊢
  cases hfault with
  | some he =>
    exact ⟨⟨henvironments, rfl, rfl, rfl, rfl⟩, rfl, .error (.failed (r.errors_of_shaped he))⟩
  | none => exact ⟨⟨hextended, rfl, rfl, hmarks, rfl⟩, rfl, .ok henv⟩

end Pairs

end Action

section Files

variable {evaluate evaluate' : Evaluator}

theorem like_evalAll (he : evaluate.Like r n evaluate') (env : Handle) {data : List Datum}
    (hd : ∀ d ∈ data, r.data d d) :
    Action.Like r n Eq (evalAll evaluate env data) (evalAll evaluate' env data) := by
  induction data with
  | nil => exact .pure rfl
  | cons d data ih =>
    obtain ⟨hhead, htail⟩ := List.forall_mem_cons.1 hd
    exact .bind (he env hhead) fun _ _ _ => ih htail

theorem like_loadChunks (he : evaluate.Like r n evaluate') (env : Handle) (path : String)
    {chunks : List Chunk} (hc : ∀ data, .forms data ∈ chunks → ∀ d ∈ data, r.data d d) :
    Action.Like r n Eq (loadChunks evaluate env path chunks)
      (loadChunks evaluate' env path chunks) := by
  induction chunks with
  | nil => exact .pure rfl
  | cons chunk chunks ih =>
    cases chunk with
    | forms data =>
      refine .bind (like_evalAll he env (hc data List.mem_cons_self)) fun _ _ _ => ?_
      exact ih fun data hm => hc data (List.mem_cons_of_mem _ hm)
    | unreadable source error => exact .fail (r.errors_of_shaped (.unreadable _ _ _))
    | fault f => exact .fail (r.errors_of_shaped (.file _ _))

theorem like_loadFile (he : evaluate.Like r n evaluate') (env : Handle) (path : String) :
    Action.Like r n Eq (loadFile evaluate env path) (loadFile evaluate' env path) := by
  refine .bind .get fun s t hst => ?_
  rw [hst.files]
  cases t.files path with
  | error f => exact .fail (r.errors_of_shaped (.file _ _))
  | ok bytes => exact like_loadChunks he env path fun _ hm => r.loaded hm

end Files

namespace Arithmetic

variable {arguments arguments' : List Datum}

theorem like_numbersFrom (p : Primitive) (read : List Numeric.Number)
    (ha : List.Forall₂ r.data arguments arguments') :
    Parallel (EvalError.Shaped r.data) Eq (numbersFrom p read arguments)
      (numbersFrom p read arguments') := by
  induction ha generalizing read with
  | nil => exact .ok rfl
  | cons hd _ ih =>
    rw [numbersFrom, numbersFrom, r.shapely.asNumber? hd]
    split
    · exact ih _
    · exact .error (.wrongType hd)

theorem like_onNumbers (p : Primitive) (ha : List.Forall₂ r.data arguments arguments')
    {f : List Numeric.Number → Datum} (hf : ∀ ns, r.data (f ns) (f ns)) :
    Parallel r.errors r.data (onNumbers p arguments f) (onNumbers p arguments' f) := by
  rw [onNumbers, onNumbers, numbers, numbers]
  rcases (like_numbersFrom p [] ha).exists_or with ⟨ns, _, hns, hns', rfl⟩ | ⟨e, e', he, he', h⟩
  · rw [hns, hns']
    exact .ok (hf ns)
  · rw [he, he']
    exact .error (r.errors_of_shaped h)

theorem like_div (ha : List.Forall₂ r.data arguments arguments') :
    Parallel r.errors r.data (div arguments) (div arguments') := by
  rw [div, div, numbers, numbers]
  rcases (like_numbersFrom .div [] ha).exists_or with
    ⟨ns, _, hns, hns', rfl⟩ | ⟨e, e', he, he', h⟩
  · rw [hns, hns']
    dsimp only
    split
    · exact .ok (r.number _)
    · exact .error (r.errors_of_shaped .divisionByZero)
  · rw [he, he']
    exact .error (r.errors_of_shaped h)

end Arithmetic

namespace Primitive

variable {call call' : Caller} {evaluate evaluate' : Evaluator} {arguments arguments' : List Datum}

theorem like_unquoted {d d' : Datum} (hd : r.data d d') : r.data (unquoted d) (unquoted d') := by
  cases r.shapely.shaped hd with
  | quoted hd' => exact hd'
  | _ => exact hd

theorem like_ofPair (p : Primitive) {part : Datum → Datum → Datum}
    (hpart : ∀ {head head' tail tail'}, r.data head head' → r.data tail tail' →
      r.data (part head tail) (part head' tail')) {d d' : Datum} (hd : r.data d d') :
    Action.Like r 1 r.data (ofPair p part d) (ofPair p part d') := by
  cases r.shapely.shaped hd with
  | pair hhead htail => exact .pure (hpart hhead htail)
  | _ => exact .fail (r.errors_of_shaped (.wrongType hd))

/-- Nothing is collected while a session is running. -/
theorem like_reclaim {collect collect' : Session → Option Nat × Session}
    (hcollect : ∀ s, 0 < s.depth → collect s = (none, s))
    (hcollect' : ∀ s, 0 < s.depth → collect' s = (none, s)) :
    Action.Like r 1 r.data (reclaim collect) (reclaim collect') := by
  intro s t hst hdepth
  have hs := hcollect s hdepth
  have ht := hcollect' t (hst.depth ▸ hdepth)
  change Action.EndsLike r r.data s.depth (reclaim collect s) (reclaim collect' t)
  rw [reclaim, reclaim, hs, ht]
  exact ⟨hst, rfl, .ok (r.boolean false)⟩

theorem like_host (p : HostPrimitive) :
    Action.Like r 1 r.data (perform call evaluate (.host p) arguments)
      (perform call' evaluate' (.host p) arguments') := by
  cases p with
  | tryCollect =>
    exact like_reclaim (fun _ h => Session.collectGarbage_of_depth h _)
      fun _ h => Session.collectGarbage_of_depth h _
  | collectIfNeeded =>
    exact like_reclaim (fun _ h => Session.collectIfNeeded_of_depth h _)
      fun _ h => Session.collectIfNeeded_of_depth h _
  | frameCount =>
    refine .bind .get fun s t hst => ?_
    have hsize : s.environments.size = t.environments.size := hst.environments.frames.size
    rw [hsize]
    exact .pure (r.number _)
  | allocatedCount =>
    refine .bind .get fun s t hst => ?_
    rw [hst.environments.allocated]
    exact .pure (r.number _)
  | isEvaluating =>
    refine .bind .get fun s t hst => ?_
    have hrunning : s.isEvaluating = t.isEvaluating := by
      rw [Session.isEvaluating, Session.isEvaluating, hst.depth]
    rw [hrunning]
    exact .pure (r.boolean _)

/-- The last argument, which `apply` spreads out, and those before it. -/
theorem like_getLast? (ha : List.Forall₂ r.data arguments arguments') :
    r.data (arguments.getLast?.getD .nil) (arguments'.getLast?.getD .nil) ∧
      List.Forall₂ r.data arguments.dropLast arguments'.dropLast := by
  constructor
  · have hreverse := List.forall₂_reverse_iff.2 ha
    rw [List.getLast?_eq_head?_reverse, List.getLast?_eq_head?_reverse]
    generalize arguments.reverse = reversed at hreverse
    generalize arguments'.reverse = reversed' at hreverse
    cases hreverse with
    | nil => exact r.nil
    | cons hd _ => exact hd
  · rw [List.dropLast_eq_take, List.dropLast_eq_take, ha.length_eq]
    exact List.forall₂_take _ ha

theorem like_apply (hcall : call.Like r call') {procedure procedure' : Datum}
    (hp : r.data procedure procedure') (ha : List.Forall₂ r.data arguments arguments') :
    Action.Like r 1 r.data (perform call evaluate .apply (procedure :: arguments))
      (perform call' evaluate' .apply (procedure' :: arguments')) := by
  obtain ⟨hlast, hfront⟩ := like_getLast? ha
  have hspread := r.shapely.toList? hlast
  simp only [perform]
  generalize (arguments.getLast?.getD .nil).toList? = spread at hspread ⊢
  generalize (arguments'.getLast?.getD .nil).toList? = spread' at hspread ⊢
  cases hspread with
  | none => exact .fail (r.errors_of_shaped (.wrongType hlast))
  | some hspread => exact hcall hp (List.rel_append hfront hspread)

theorem like_perform (hcall : call.Like r call') (he : evaluate.Like r 1 evaluate') (p : Primitive)
    (ha : List.Forall₂ r.data arguments arguments') :
    Action.Like r 1 r.data (perform call evaluate p arguments)
      (perform call' evaluate' p arguments') := by
  cases p with
  | list => exact Action.like_list ha
  | add | sub | mul => exact .ofExcept (Arithmetic.like_onNumbers _ ha fun _ => r.number _)
  | div => exact .ofExcept (Arithmetic.like_div ha)
  | equal | less | greater | lessOrEqual | greaterOrEqual =>
    exact .ofExcept (Arithmetic.like_onNumbers _ ha fun _ => r.boolean _)
  | eval =>
    cases ha with
    | nil => exact .pure r.nil
    | cons hd _ =>
      refine .bind .get fun s t hst => ?_
      have hroot : s.root = t.root := hst.environments.root
      rw [hroot]
      exact he t.root (like_unquoted hd)
  | apply =>
    cases ha with
    | nil => exact .pure r.nil
    | cons hp ha => exact like_apply hcall hp ha
  | load =>
    cases ha with
    | nil => exact .pure r.nil
    | @cons d d' _ _ hd _ =>
      simp only [perform, r.shapely.asString? hd]
      cases d'.asString? with
      | none => exact .fail (r.errors_of_shaped (.wrongType hd))
      | some path =>
        refine .bind .get fun s t hst => ?_
        have hroot : s.root = t.root := hst.environments.root
        rw [hroot]
        exact .bind (like_loadFile he t.root path) fun _ _ _ => .pure r.acknowledgement
  | car =>
    cases ha with
    | nil => exact .pure r.nil
    | cons hd _ => exact like_ofPair .car (fun hhead _ => hhead) hd
  | cdr =>
    cases ha with
    | nil => exact .pure r.nil
    | cons hd _ => exact like_ofPair .cdr (fun _ htail => htail) hd
  | cons =>
    cases ha with
    | nil => exact .pure r.nil
    | cons hhead ha =>
      cases ha with
      | nil => exact .pure r.nil
      | cons htail _ => exact Action.like_cons hhead htail
  | isEqual =>
    cases ha with
    | nil => exact .pure r.nil
    | cons hd ha =>
      cases ha with
      | nil => exact .pure r.nil
      | cons hd' _ =>
        simp only [perform, r.shapely.same hd hd']
        exact .pure (r.boolean _)
  | isPair | isNull | not =>
    cases ha with
    | nil => exact .pure r.nil
    | cons hd _ =>
      simp only [perform, r.shapely.isPair hd, r.shapely.isNull hd, r.shapely.isFalse hd]
      exact .pure (r.boolean _)
  | host p => exact like_host p

theorem like_invoke (hcall : call.Like r call') (he : evaluate.Like r 1 evaluate') (p : Primitive)
    (ha : List.Forall₂ r.data arguments arguments') :
    Action.Like r 1 r.data (invoke call evaluate p arguments) (invoke call' evaluate' p arguments') := by
  rw [invoke, invoke, ha.length_eq]
  split
  · exact .fail (r.errors_of_shaped (.arity _))
  · exact like_perform hcall he p ha

end Primitive

end FrameLisp
