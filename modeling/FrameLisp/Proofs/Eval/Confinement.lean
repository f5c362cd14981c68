import FrameLisp.Eval.Tally
import FrameLisp.Proofs.Eval.Calls
import FrameLisp.Proofs.Store.Growth

/-!
# Evaluations stay among what is in use

Whatever is evaluated holds handles in use only. The frames that an evaluation makes are in use from
then on, and it leaves all others alone. Requests to collect are refused: either nothing within
reach makes one, or an evaluation is running meanwhile. What becomes of the environments is composed
of definitions, assignments and new frames, of which there are as many as the evaluation counts.
-/
namespace FrameLisp

open Store Source

/-- The datum holds handles in use only. -/
def Datum.Held (q : Primitive → Prop) (used : Handle → Prop) (d : Datum) : Prop := d.Within used q

/-- All of the data hold handles in use only. -/
def Datum.AllHeld (q : Primitive → Prop) (used : Handle → Prop) (ds : List Datum) : Prop :=
  ∀ d ∈ ds, d.Held q used

/-- No request to collect is within reach unless an evaluation is running. -/
def Primitive.Harmless (q : Primitive → Prop) (n : Nat) : Prop := ∀ p, q (.host p) → 0 < n

/-- What evaluations are held to: which primitives are within reach, how many evaluations are
running at least, whether all handles in use are live, and how environments change in which a number
of frames is made. -/
structure Discipline where
  primitives : Primitive → Prop
  running : Nat
  live : Prop
  Changes : Nat → Environments → Environments → Prop
  refl : ∀ s, Changes 0 s s
  trans : ∀ {j k s t u}, Changes j s t → Changes k t u → Changes (j + k) s u
  define : ∀ (s : Environments) env name value, Changes 0 s (s.define env name value).2
  assign : ∀ (s : Environments) env name value, Changes 0 s (s.assign env name value).2
  extend : ∀ (s : Environments) parent p arguments mark,
    s.extendFault? parent p arguments.length = none →
    Changes 1 s (s.extend parent (Environments.bind p arguments mark).1).2

variable {D : Discipline} {k : Nat} {used used' used'' : Handle → Prop}

namespace Discipline

/-- The handles in use confine what the environments refer to. -/
def Sound (D : Discipline) (used : Handle → Prop) (s : Environments) : Prop :=
  s.Confines D.live used D.primitives

def Held (D : Discipline) (used : Handle → Prop) (d : Datum) : Prop := d.Held D.primitives used

def AllHeld (D : Discipline) (used : Handle → Prop) (ds : List Datum) : Prop :=
  Datum.AllHeld D.primitives used ds

/-- The error is not that a handle in use outlived its frame. -/
def Fair (D : Discipline) (e : EvalError) : Prop := D.live → e ≠ .reclaimed

end Discipline

theorem Datum.Held.mono {q : Primitive → Prop} {d : Datum} (hd : d.Held q used)
    (hle : ∀ h, used h → used' h) : d.Held q used' := Within.mono hd hle

theorem Datum.AllHeld.mono {q : Primitive → Prop} {ds : List Datum} (hd : AllHeld q used ds)
    (hle : ∀ h, used h → used' h) : AllHeld q used' ds :=
  fun d hm => (hd d hm).mono hle

theorem Datum.Plain.held {q : Primitive → Prop} {d : Datum} (hd : d.Plain) : d.Held q used :=
  hd.within

/-- How a session changes in which `k` frames are made while handles are in use. -/
structure Session.Heeds (D : Discipline) (k : Nat) (used used' : Handle → Prop) (s t : Session) :
    Prop where
  environments : s.environments.Grows used used' t.environments
  sound : D.Sound used' t.environments
  changes : D.Changes k s.environments t.environments
  depth : t.depth = s.depth

theorem Session.Heeds.refl {s : Session} (h : D.Sound used s.environments) :
    s.Heeds D 0 used used s :=
  ⟨.refl used s.environments, h, D.refl _, rfl⟩

theorem Session.Heeds.trans {j : Nat} {s t u : Session} (h : s.Heeds D j used used' t)
    (h' : t.Heeds D k used' used'' u) : s.Heeds D (j + k) used used'' u :=
  ⟨h.environments.trans h'.environments, h'.sound, D.trans h.changes h'.changes,
    h'.depth.trans h.depth⟩

namespace Tallied

variable {α β : Type} {r : (Handle → Prop) → α → Prop} {r' : (Handle → Prop) → β → Prop}

/-- Run in the session, the action changes it as it is held to, and ends with a value that has the
property or with an error that it may end with. -/
def HeedsFrom (D : Discipline) (used : Handle → Prop) (s : Session)
    (r : (Handle → Prop) → α → Prop) (a : Tallied α) : Prop :=
  ∃ used', s.Heeds D (a.tally s) used used' (a.action.runFrom s).2 ∧
    Ends (fun halt => ∀ e, halt = .failed e → D.Fair e) (r used') (a.action.runFrom s).1

/-- The action does so in every session where these handles are in use. -/
def Heeds (D : Discipline) (used : Handle → Prop) (r : (Handle → Prop) → α → Prop)
    (a : Tallied α) : Prop :=
  ∀ s, D.running ≤ s.depth → D.Sound used s.environments → a.HeedsFrom D used s r

theorem Heeds.quiet {a : Action α} (h : ∀ s, D.running ≤ s.depth → D.Sound used s.environments →
    s.Heeds D 0 used used (a.runFrom s).2 ∧
      Ends (fun halt => ∀ e, halt = .failed e → D.Fair e) (r used) (a.runFrom s).1) :
    (quiet a).Heeds D used r :=
  fun s hn hs => ⟨used, h s hn hs⟩

theorem Heeds.pure {x : α} (hx : r used x) : (Pure.pure x : Tallied α).Heeds D used r :=
  .quiet fun _ _ hs => ⟨.refl hs, .ok hx⟩

theorem Heeds.throw {halt : Halt} (h : ∀ e, halt = .failed e → D.Fair e) :
    (Tallied.quiet (throw halt)).Heeds D used r :=
  .quiet fun _ _ hs => ⟨.refl hs, .error h⟩

theorem Heeds.fail {e : EvalError} (he : e ≠ .reclaimed) :
    (Tallied.quiet (Action.fail e)).Heeds D used r := by
  refine .throw ?_
  rintro _ ⟨⟩ _
  exact he

/-- What follows is done with more handles in use. -/
theorem Heeds.bind {a : Tallied α} {f : α → Tallied β} (ha : a.Heeds D used r)
    (hf : ∀ used', (∀ h, used h → used' h) → ∀ x, r used' x → (f x).Heeds D used' r') :
    (a >>= f).Heeds D used r' := by
  intro s hn hs
  obtain ⟨used', hst, hend⟩ := ha s hn hs
  rw [HeedsFrom, action_bind, tally_bind, Action.runFrom_bind]
  generalize a.action.runFrom s = x at hst hend
  obtain ⟨x, t⟩ := x
  cases hend with
  | error he => exact ⟨used', hst, .error he⟩
  | ok hx =>
    have hdepth : t.depth = s.depth := hst.depth
    obtain ⟨used'', htu, hend⟩ := hf used' hst.environments.stays _ hx t (hdepth ▸ hn) hst.sound
    exact ⟨used'', hst.trans htu, hend⟩

theorem Heeds.get :
    (Tallied.quiet MonadState.get).Heeds D used fun used s => D.Sound used s.environments :=
  .quiet fun _ _ hs => ⟨.refl hs, .ok hs⟩

theorem Heeds.evaluating {a : Tallied α} (ha : a.Heeds D used r) :
    (evaluating a).Heeds D used r := by
  intro s hn hs
  obtain ⟨used', hst, hend⟩ := ha { s with depth := s.depth + 1 } (Nat.le_succ_of_le hn) hs
  exact ⟨used', ⟨hst.environments, hst.sound, hst.changes, congrArg (· - 1) hst.depth⟩, hend⟩

section Elementary

variable {env : Handle} {value head tail : Datum} {arguments : List Datum}

theorem heeds_lookup (henv : used env) (name : String) :
    (quiet (Action.lookup env name)).Heeds D used D.Held := by
  refine .quiet fun s _ hs => ?_
  change s.Heeds D 0 used used (Action.lookup env name s).2 ∧ Ends _ _ (Action.lookup env name s).1
  have hvalue := hs.lookup henv name
  rw [Action.lookup]
  generalize s.environments.lookup env name = x at hvalue ⊢
  cases hvalue with
  | ok hx => exact ⟨.refl hs, .ok hx⟩
  | error he => exact ⟨.refl hs, .error fun _ h => Halt.failed.inj h ▸ he⟩

theorem heeds_onEnvironments {f : Environments → Except EvalError Unit × Environments}
    (hf : ∀ s, D.Sound used s → Ends D.Fair (fun _ => True) (f s).1 ∧
      s.Grows used used (f s).2 ∧ D.Sound used (f s).2) (hchanges : ∀ s, D.Changes 0 s (f s).2) :
    (quiet (Action.onEnvironments f)).Heeds D used fun _ _ => True := by
  refine .quiet fun s _ hs => ?_
  obtain ⟨hend, hst, ht⟩ := hf s.environments hs
  have hchanged := hchanges s.environments
  change s.Heeds D 0 used used (Action.onEnvironments f s).2 ∧
    Ends _ _ (Action.onEnvironments f s).1
  simp only [Action.onEnvironments]
  generalize f s.environments = x at hend hst ht hchanged ⊢
  obtain ⟨x, t⟩ := x
  cases hend with
  | ok _ => exact ⟨⟨hst, ht, hchanged, rfl⟩, .ok trivial⟩
  | error he => exact ⟨⟨hst, ht, hchanged, rfl⟩, .error fun _ h => Halt.failed.inj h ▸ he⟩

theorem heeds_define (henv : used env) (name : String) (hvalue : D.Held used value) :
    (quiet (Action.define env name value)).Heeds D used fun _ _ => True :=
  heeds_onEnvironments (fun _ hs => hs.define henv name hvalue) fun s => D.define s env name value

theorem heeds_assign (henv : used env) (name : String) (hvalue : D.Held used value) :
    (quiet (Action.assign env name value)).Heeds D used fun _ _ => True :=
  heeds_onEnvironments (fun _ hs => hs.assign henv name hvalue) fun s => D.assign s env name value

theorem heeds_freshMark : (quiet Action.freshMark).Heeds D used fun _ _ => True :=
  .quiet fun s _ hs => ⟨⟨.refl used s.environments, hs, D.refl _, rfl⟩, .ok trivial⟩

theorem heeds_cons (hhead : D.Held used head) (htail : D.Held used tail) :
    (quiet (Action.cons head tail)).Heeds D used D.Held :=
  .quiet fun s _ hs => ⟨⟨.refl used s.environments, hs, D.refl _, rfl⟩, .ok ⟨hhead, htail⟩⟩

theorem heeds_list (ha : D.AllHeld used arguments) :
    (quiet (Action.list arguments)).Heeds D used D.Held :=
  .quiet fun s _ hs => ⟨⟨.refl used s.environments, hs, D.refl _, rfl⟩,
    .ok (Datum.within_markedList s.marks ha)⟩

/-- A frame is counted exactly if it is made. -/
theorem heeds_extend (henv : used env) (p : Parameters) (ha : D.AllHeld used arguments) :
    (extend env p arguments).Heeds D used fun used h => used h := by
  intro s _ hs
  change ∃ used', s.Heeds D ((extend env p arguments).tally s) used used'
    (Action.extend env p arguments s).2 ∧
    Ends _ (fun h => used' h) (Action.extend env p arguments s).1
  -- The count has the condition under which the frame is made.
  have htally : (extend env p arguments).tally s =
      if s.environments.extendFault? env p arguments.length = none then 1 else 0 := by
    simp only [extend, Environments.extendFault?_eq_none_iff, Bool.and_eq_true]
  rw [htally, Action.extend]
  cases hfault : s.environments.extendFault? env p arguments.length with
  | some e =>
    refine ⟨used, .refl hs, .error ?_⟩
    rintro _ ⟨⟩ hlive rfl
    exact hs.extendFault?_ne hlive henv p arguments.length hfault
  | none =>
    obtain ⟨hst, ht⟩ := hs.extend henv (Environments.within_bind p ha s.marks)
    exact ⟨_, ⟨hst, ht, D.extend _ env p arguments s.marks hfault, rfl⟩, .ok (.inl rfl)⟩

end Elementary

/-- Calls of procedures in use heed the discipline. -/
def Caller.Heeds (D : Discipline) (call : Caller) : Prop :=
  ∀ {used procedure arguments}, D.Held used procedure → D.AllHeld used arguments →
    (call procedure arguments).Heeds D used D.Held

/-- Evaluations of data in use in frames in use heed the discipline. -/
def Evaluator.Heeds (D : Discipline) (evaluate : Evaluator) : Prop :=
  ∀ {used env d}, used env → D.Held used d → (evaluate env d).Heeds D used D.Held

section Code

open Code

variable {call : Caller}

mutual

/-- Later units are run with more handles in use, among them those in their code. -/
theorem heeds_run (hcall : call.Heeds D) : ∀ (c : Code) {env : Handle} {used : Handle → Prop},
    used env → c.Within used D.primitives → (run call env c).Heeds D used D.Held
  | .constant d, _, _, _, hc => by
    rw [run]
    exact .pure hc
  | .variable name, _, _, henv, _ => by
    rw [run]
    exact heeds_lookup henv name
  | .assignment name value, _, _, henv, hc => by
    rw [run]
    refine .bind (heeds_run hcall value henv hc) fun used₁ hle v hv => ?_
    refine .bind (heeds_assign (hle _ henv) name hv) fun _ _ _ _ => ?_
    exact .pure trivial
  | .definition name value, _, _, henv, hc => by
    rw [run]
    refine .bind (heeds_run hcall value henv hc) fun used₁ hle v hv => ?_
    refine .bind (heeds_define (hle _ henv) name hv) fun _ _ _ _ => ?_
    exact .pure trivial
  | .conditional test consequent alternative, _, _, henv, hc => by
    obtain ⟨htest, hconsequent, halternative⟩ := hc
    rw [run]
    refine .bind (heeds_run hcall test henv htest) fun used₁ hle v _ => ?_
    split
    · exact heeds_run hcall alternative (hle _ henv) (halternative.mono hle)
    · exact heeds_run hcall consequent (hle _ henv) (hconsequent.mono hle)
  | .lambda l, _, _, henv, hc => by
    rw [run]
    refine .bind heeds_freshMark fun used₁ hle mark _ => ?_
    exact .pure ⟨hle _ henv, Code.Within.mono (c := .lambda l) hc hle⟩
  | .sequence units, _, _, henv, hc => by
    rw [run]
    exact heeds_runAll hcall units henv (allWithin_iff.1 hc) trivial
  | .application operator operands, _, _, henv, hc => by
    obtain ⟨hoperator, hoperands⟩ := hc
    rw [run]
    refine .bind (heeds_run hcall operator henv hoperator) fun used₁ hle₁ f hf => ?_
    refine .bind (heeds_runEach hcall operands (hle₁ _ henv)
      (fun unit hu => (allWithin_iff.1 hoperands unit hu).mono hle₁)
      fun _ hd => absurd hd List.not_mem_nil) fun used₂ hle₂ as has => ?_
    exact hcall (Datum.Held.mono hf hle₂) has

theorem heeds_runAll (hcall : call.Heeds D) : ∀ (units : List Code) {env : Handle}
    {last : Datum} {used : Handle → Prop}, used env →
    (∀ unit ∈ units, unit.Within used D.primitives) → D.Held used last →
    (runAll call env last units).Heeds D used D.Held
  | [], _, _, _, _, _, hlast => by
    rw [runAll]
    exact .pure hlast
  | unit :: units, _, _, _, henv, hc, _ => by
    obtain ⟨hunit, hunits⟩ := List.forall_mem_cons.1 hc
    rw [runAll]
    refine .bind (heeds_run hcall unit henv hunit) fun used₁ hle v hv => ?_
    exact heeds_runAll hcall units (hle _ henv) (fun unit hu => (hunits unit hu).mono hle) hv

theorem heeds_runEach (hcall : call.Heeds D) : ∀ (units : List Code) {env : Handle}
    {values : List Datum} {used : Handle → Prop}, used env →
    (∀ unit ∈ units, unit.Within used D.primitives) → D.AllHeld used values →
    (runEach call env values units).Heeds D used D.AllHeld
  | [], _, _, _, _, _, hvalues => by
    rw [runEach]
    exact .pure fun d hd => hvalues d (List.mem_reverse.1 hd)
  | unit :: units, _, _, _, henv, hc, hvalues => by
    obtain ⟨hunit, hunits⟩ := List.forall_mem_cons.1 hc
    rw [runEach]
    refine .bind (heeds_run hcall unit henv hunit) fun used₁ hle v hv => ?_
    exact heeds_runEach hcall units (hle _ henv) (fun unit hu => (hunits unit hu).mono hle)
      (List.forall_mem_cons.2 ⟨hv, Datum.AllHeld.mono hvalues hle⟩)

end

end Code

end Tallied

/-- Code holds what the datum holds that it is read from. -/
theorem Code.within_of_ofDatum {q : Primitive → Prop} {d : Datum} {c : Code}
    (hd : d.Within used q) (hc : Code.ofDatum d = .ok c) : c.Within used q := by
  have ha : Analysed used q id d := analysed_of_within hd
  rcases ha.exists_or with ⟨c', _, hc', -, hw, -⟩ | ⟨e, _, he, -, -⟩
  · obtain rfl := Except.ok.inj (hc.symm.trans hc')
    exact hw
  · simp [hc] at he

namespace Tallied

section Files

variable {call : Caller} {evaluate : Evaluator}

theorem heeds_evalIn (hcall : call.Heeds D) : Evaluator.Heeds D (evalIn call) := by
  intro used env d henv hd
  rw [evalIn]
  cases hc : Code.ofDatum d with
  | ok c => exact .evaluating (heeds_run hcall c henv (Code.within_of_ofDatum hd hc))
  | error e => exact .fail (by simp)

variable {env : Handle}

theorem heeds_evalAll (he : evaluate.Heeds D) (henv : used env) {data : List Datum}
    (hd : ∀ d ∈ data, d.Plain) : (evalAll evaluate env data).Heeds D used fun _ _ => True := by
  induction data generalizing used with
  | nil => exact .pure trivial
  | cons d data ih =>
    obtain ⟨hhead, htail⟩ := List.forall_mem_cons.1 hd
    refine .bind (he henv hhead.held) fun used' hle _ _ => ?_
    exact ih (hle _ henv) htail

theorem heeds_loadChunks (he : evaluate.Heeds D) (henv : used env) (path : String)
    {chunks : List Chunk} (hc : ∀ data, .forms data ∈ chunks → ∀ d ∈ data, d.Plain) :
    (loadChunks evaluate env path chunks).Heeds D used fun _ _ => True := by
  induction chunks generalizing used with
  | nil => exact .pure trivial
  | cons chunk chunks ih =>
    cases chunk with
    | forms data =>
      refine .bind (heeds_evalAll he henv (hc data List.mem_cons_self)) fun used' hle _ _ => ?_
      exact ih (hle _ henv) fun data hm => hc data (List.mem_cons_of_mem _ hm)
    | unreadable source error => exact .fail (by simp)
    | fault f => exact .fail (by simp)

/-- What is read from a file holds no handles. -/
theorem heeds_loadFile (he : evaluate.Heeds D) (henv : used env) (path : String) :
    (loadFile evaluate env path).Heeds D used fun _ _ => True := by
  refine .bind .get fun used' hle s _ => ?_
  cases s.files path with
  | error f => exact .fail (by simp)
  | ok bytes => exact heeds_loadChunks he (hle _ henv) path fun _ hm => plain_of_ofLines hm

end Files

section Procedures

open Primitive

variable {call : Caller} {evaluate : Evaluator}

theorem held_unquoted {d : Datum} (hd : D.Held used d) : D.Held used (unquoted d) := by
  cases d with
  | quoted d => exact hd
  | _ => exact hd

theorem heeds_computes {x y : Except EvalError Datum} (h : Arithmetic.Computes id x y) :
    (quiet (Action.ofExcept x)).Heeds D used D.Held := by
  cases h with
  | ok h => exact .pure h.1.held
  | error h =>
    refine .fail ?_
    rintro rfl
    exact h.kind_ne rfl

theorem heeds_ofPair (p : Primitive) {part : Datum → Datum → Datum}
    (hpart : ∀ {head tail : Datum}, D.Held used head → D.Held used tail →
      D.Held used (part head tail)) {d : Datum} (hd : D.Held used d) :
    (quiet (ofPair p part d)).Heeds D used D.Held := by
  cases d with
  | pair mark head tail => exact .pure (hpart hd.1 hd.2)
  | _ => exact .fail (by simp)

/-- A request to collect is refused. -/
theorem heeds_reclaim {collect : Session → Option Nat × Session}
    (hrefused : ∀ s, D.running ≤ s.depth → collect s = (none, s)) :
    (quiet (reclaim collect)).Heeds D used D.Held := by
  refine .quiet fun s hn hs => ?_
  change s.Heeds D 0 used used (reclaim collect s).2 ∧ Ends _ _ (reclaim collect s).1
  rw [reclaim, hrefused s hn]
  exact ⟨.refl hs, .ok trivial⟩

theorem heeds_observe {observe : Session → Datum} (h : ∀ s, D.Held used (observe s)) :
    (quiet (do return observe (← MonadState.get))).Heeds D used D.Held :=
  .quiet fun s _ hs => ⟨.refl hs, .ok (h s)⟩

theorem heeds_host (hq : Harmless D.primitives D.running) {p : HostPrimitive}
    (hp : D.primitives (.host p)) (arguments : List Datum) :
    (perform call evaluate (.host p) arguments).Heeds D used D.Held := by
  have hpos : ∀ s : Session, D.running ≤ s.depth → 0 < s.depth := fun _ hn =>
    (hq p hp).trans_le hn
  cases p with
  | tryCollect =>
    exact heeds_reclaim fun s hn => s.collectGarbage_of_depth (hpos s hn) arguments
  | collectIfNeeded =>
    exact heeds_reclaim fun s hn => s.collectIfNeeded_of_depth (hpos s hn) arguments
  | frameCount | allocatedCount | isEvaluating => exact heeds_observe fun _ => trivial

theorem heeds_apply (hcall : call.Heeds D) {procedure : Datum} {arguments : List Datum}
    (hp : D.Held used procedure) (ha : D.AllHeld used arguments) :
    (perform call evaluate .apply (procedure :: arguments)).Heeds D used D.Held := by
  simp only [perform]
  have hlast : (arguments.getLast?.getD .nil).Held D.primitives used := by
    cases hl : arguments.getLast? with
    | none => trivial
    | some d => exact ha d (List.mem_of_getLast? hl)
  cases hs : (arguments.getLast?.getD .nil).toList? with
  | none => exact .fail (by simp)
  | some spread =>
    refine hcall hp fun d hd => ?_
    rcases List.mem_append.1 hd with hd | hd
    · exact ha d (List.mem_of_mem_dropLast hd)
    · exact Datum.Within.toList? hlast hs d hd

theorem heeds_perform (hq : Harmless D.primitives D.running) (hcall : call.Heeds D)
    (he : evaluate.Heeds D) {p : Primitive} (hp : D.primitives p) {arguments : List Datum}
    (ha : D.AllHeld used arguments) : (perform call evaluate p arguments).Heeds D used D.Held := by
  cases p with
  | list => exact heeds_list ha
  | add => exact heeds_computes (Arithmetic.computes_add arguments)
  | sub => exact heeds_computes (Arithmetic.computes_sub arguments)
  | mul => exact heeds_computes (Arithmetic.computes_mul arguments)
  | div => exact heeds_computes (Arithmetic.computes_div arguments)
  | equal | less | greater | lessOrEqual | greaterOrEqual =>
    exact heeds_computes (Arithmetic.computes_compare arguments _ _)
  | host p => exact heeds_host hq hp arguments
  | eval =>
    cases arguments with
    | nil => exact .pure trivial
    | cons d arguments =>
      refine .bind .get fun used' hle s hs => ?_
      exact he hs.root (Datum.Held.mono (held_unquoted (ha d List.mem_cons_self)) hle)
  | apply =>
    cases arguments with
    | nil => exact .pure trivial
    | cons procedure arguments =>
      obtain ⟨hprocedure, harguments⟩ := List.forall_mem_cons.1 ha
      exact heeds_apply hcall hprocedure harguments
  | load =>
    cases arguments with
    | nil => exact .pure trivial
    | cons d arguments =>
      simp only [perform]
      cases d.asString? with
      | none => exact .fail (by simp)
      | some path =>
        refine .bind .get fun used' hle s hs => ?_
        refine .bind (heeds_loadFile he hs.root path) fun used'' hle' _ _ => ?_
        exact .pure trivial
  | car =>
    cases arguments with
    | nil => exact .pure trivial
    | cons d arguments => exact heeds_ofPair .car (fun hhead _ => hhead) (ha d List.mem_cons_self)
  | cdr =>
    cases arguments with
    | nil => exact .pure trivial
    | cons d arguments => exact heeds_ofPair .cdr (fun _ htail => htail) (ha d List.mem_cons_self)
  | cons =>
    cases arguments with
    | nil => exact .pure trivial
    | cons head arguments =>
      obtain ⟨hhead, hrest⟩ := List.forall_mem_cons.1 ha
      cases arguments with
      | nil => exact .pure trivial
      | cons tail arguments => exact heeds_cons hhead (hrest tail List.mem_cons_self)
  | isEqual =>
    cases arguments with
    | nil => exact .pure trivial
    | cons a arguments =>
      cases arguments with
      | nil | cons => exact .pure trivial
  | isPair | isNull | not =>
    cases arguments with
    | nil | cons => exact .pure trivial

theorem heeds_invoke (hq : Harmless D.primitives D.running) (hcall : call.Heeds D)
    (he : evaluate.Heeds D) {p : Primitive} (hp : D.primitives p) {arguments : List Datum}
    (ha : D.AllHeld used arguments) : (invoke call evaluate p arguments).Heeds D used D.Held := by
  rw [invoke]
  split
  · exact .fail (by simp)
  · exact heeds_perform hq hcall he hp ha

theorem heeds_applyWith (hq : Primitive.Harmless D.primitives D.running) (hcall : call.Heeds D) :
    Caller.Heeds D (applyWith call) := by
  intro used procedure arguments hp ha
  cases procedure with
  | primitive p => exact heeds_invoke hq hcall (heeds_evalIn hcall) hp ha
  | closure mark l frame =>
    obtain ⟨hframe, hl⟩ := hp
    refine .bind (heeds_extend hframe l.parameters ha) fun used' hle env henv => ?_
    exact heeds_run hcall l.body henv (hl.body.mono hle)
  | _ => exact .fail (by simp)

end Procedures

theorem heeds_call (hq : Primitive.Harmless D.primitives D.running) (depth : Nat) :
    Caller.Heeds D (call depth) := by
  induction depth with
  | zero =>
    intro used procedure arguments _ _
    have hfair : ∀ e, Halt.exhausted = .failed e → D.Fair e := by simp
    exact .throw hfair
  | succ depth ih => exact heeds_applyWith hq ih

end Tallied

end FrameLisp
