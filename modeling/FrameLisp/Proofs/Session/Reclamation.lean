import FrameLisp.Proofs.Eval.Calls
import FrameLisp.Proofs.Session.Requests

/-!
# Reclamation cannot be observed

Two sessions that differ in when they collect frames answer the same requests alike, form by form.
A session is moreover related to itself, in such a way that all that the root leads to is live, and
no evaluation comes across a handle that outlived its frame.
-/
namespace FrameLisp

open Store Source

/-- Two data of the same type and with the same text. -/
structure Datum.ShownAlike (d e : Datum) : Prop where
  type : e.typeName = d.typeName
  text : e.text = d.text

/-- Failures of the same kind with the same message, or both times no end. -/
inductive Interruption.Alike : Interruption → Interruption → Prop
  | failed {f g : Failure} : g.kind = f.kind → g.message = f.message →
      Interruption.Alike (.failed f) (.failed g)
  | exhausted : Interruption.Alike .exhausted .exhausted

/-- As many forms succeeded, with values that are shown alike, and the next one stopped alike. -/
structure Results.Alike (x y : Results) : Prop where
  values : List.Forall₂ Datum.ShownAlike x.values y.values
  stopped : Option.Rel Interruption.Alike x.stopped y.stopped

theorem Datum.shownAlike_rename (σ : Handle → Handle) (d : Datum) :
    d.ShownAlike (d.rename σ) :=
  ⟨typeName_rename d, text_rename d⟩

/-- No handle outlived its frame. -/
def Results.Safe (r : Results) : Prop :=
  ∀ f, r.stopped = some (.failed f) → f.kind ≠ .reclaimedEnvironment

theorem Interruption.alike_ofHalt {σ : Handle → Handle} {h h' : Halt} (hr : h.Renamed σ h') :
    Interruption.Alike (.ofHalt h) (.ofHalt h') := by
  cases hr with
  | exhausted => exact .exhausted
  | failed he =>
    rw [he.eq_rename]
    exact .failed (EvalError.kind_ofEval_rename _) (EvalError.message_ofEval_rename _)

theorem Results.safe_of_renamed {σ : Handle → Handle} {h h' : Halt} (hr : h.Renamed σ h')
    (values : List Datum) : Results.Safe ⟨values, some (.ofHalt h)⟩ := by
  intro f hf
  cases hr with
  | exhausted => simp [Interruption.ofHalt] at hf
  | failed he =>
    simp only [Interruption.ofHalt, Option.some.injEq, Interruption.failed.injEq] at hf
    rw [← hf, EvalError.kind_ofEval]
    exact he.kind_ne

namespace Session

variable {w : Relocation} {s t : Session}

section Collections

theorem keeping_cases (values : List Datum) (s : Session) : keeping values s = s ∨
    ∃ live, keeping values s =
      { s with environments := (s.environments.collect live).2 } := by
  rw [keeping, collectIfNeeded]
  split
  · exact .inl rfl
  · rw [collectGarbage]
    split
    · exact .inl rfl
    · exact .inr ⟨_, rfl⟩

theorem Relocated.keeping_left (h : s.Relocated w t) (values : List Datum) :
    ∃ w', (keeping values s).Relocated w' t := by
  rcases keeping_cases values s with he | ⟨live, he⟩
  · rw [he]
    exact ⟨w, h⟩
  · rw [he]
    exact ⟨_, h.environments.collect_left live, h.depth, h.marks, h.files⟩

theorem Relocated.keeping_right (h : s.Relocated w t) (values : List Datum) :
    ∃ w', s.Relocated w' (keeping values t) := by
  rcases keeping_cases values t with he | ⟨live, he⟩
  · rw [he]
    exact ⟨w, h⟩
  · rw [he]
    exact ⟨_, h.environments.collect_right live, h.depth, h.marks, h.files⟩

/-- Each of the sessions may collect or not. -/
theorem Relocated.keeping (h : s.Relocated w t) (values values' : List Datum) :
    ∃ w', (keeping values s).Relocated w' (Session.keeping values' t) := by
  obtain ⟨w₁, h₁⟩ := h.keeping_left values
  exact h₁.keeping_right values'

end Collections

/-- The sessions are the same again, and the results are alike. -/
structure Agree (x y : Results × Session) : Prop where
  sessions : ∃ w : Relocation, x.2.Relocated w y.2
  results : x.1.Alike y.1
  safe : x.1.Safe

/-- A collection, if anything, is done between the forms. -/
def Settles (settle : List Datum → Session → Session) : Prop :=
  ∀ values values' {w s t}, Relocated w s t →
    ∃ w', (settle values s).Relocated w' (settle values' t)

theorem settles_keeping : Settles keeping := fun values values' _ _ _ h => h.keeping values values'

theorem settles_keeping_nil : Settles fun _ s => keeping [] s := fun _ _ _ _ _ h => h.keeping [] []

/-- What is done between the forms leaves the sessions the same, also where it is not done
alike. -/
def SettleAlike (settle settle' : List Datum → Session → Session) : Prop :=
  ∀ values values' {w s t}, Relocated w s t →
    ∃ w', (settle values s).Relocated w' (settle' values' t)

/-- Forms are evaluated alike whatever is done between them. -/
theorem agree_evalForms_of_settleAlike (depth : Nat)
    {settle settle' : List Datum → Session → Session} (hsettle : SettleAlike settle settle')
    {ds : List Datum} (hd : ∀ d ∈ ds, d.Plain) {values values' : List Datum}
    (hv : List.Forall₂ Datum.ShownAlike values values') (h : s.Relocated w t) :
    Agree (s.evalForms depth settle values ds) (t.evalForms depth settle' values' ds) := by
  induction ds generalizing w s t values values' with
  | nil => exact ⟨⟨w, h⟩, ⟨hv, .none⟩, by simp [Results.Safe, evalForms]⟩
  | cons d ds ih =>
    obtain ⟨hhead, htail⟩ := List.forall_mem_cons.1 hd
    have heval : (Datum.evalIn (call depth)).Relocates :=
      Datum.relocates_evalIn (relocates_call depth)
    obtain ⟨w', -, hst, hend⟩ := heval h.root hhead.relocated s t h
    rw [evalForms, evalForms, evalIn, evalIn]
    generalize (Datum.evalIn (call depth) s.root d).runFrom s = x at hst hend ⊢
    generalize (Datum.evalIn (call depth) t.root d).runFrom t = y at hst hend ⊢
    obtain ⟨x, s'⟩ := x
    obtain ⟨y, t'⟩ := y
    cases hend with
    | error he =>
      exact ⟨⟨w', hst⟩, ⟨hv, .some (Interruption.alike_ofHalt he)⟩, Results.safe_of_renamed he _⟩
    | @ok value value' hvalue =>
      obtain ⟨-, rfl⟩ := hvalue
      obtain ⟨w'', hsettled⟩ := hsettle (value :: values) (value.rename w'.map :: values') hst
      exact ih htail (.cons (Datum.shownAlike_rename _ _) hv) hsettled

theorem agree_evalForms (depth : Nat) {settle : List Datum → Session → Session}
    (hsettle : Settles settle) {ds : List Datum} (hd : ∀ d ∈ ds, d.Plain)
    {values values' : List Datum} (hv : List.Forall₂ Datum.ShownAlike values values')
    (h : s.Relocated w t) :
    Agree (s.evalForms depth settle values ds) (t.evalForms depth settle values' ds) :=
  agree_evalForms_of_settleAlike depth hsettle hd hv h

/-- A failure that has nothing to do with handles. -/
theorem agree_failed {f : Failure} (hf : f.kind ≠ .reclaimedEnvironment) (h : s.Relocated w t) :
    Agree (⟨[], some (.failed f)⟩, s) (⟨[], some (.failed f)⟩, t) := by
  refine ⟨⟨w, h⟩, ⟨.nil, .some (.failed rfl rfl)⟩, fun g hg => ?_⟩
  simp only [Option.some.injEq, Interruption.failed.injEq] at hg
  exact hg ▸ hf

theorem agree_readForms (depth : Nat) (source : String) (h : s.Relocated w t) :
    Agree (s.readForms depth source) (t.readForms depth source) := by
  rw [readForms, readForms]
  split
  · exact agree_failed (by simp [Failure.kind]) h
  · next program hp => exact agree_evalForms depth settles_keeping (plain_of_ofString hp) .nil h

theorem agree_runFile (depth : Nat) (path : String) (h : s.Relocated w t) :
    Agree (s.runFile depth path) (t.runFile depth path) := by
  rw [runFile, runFile, h.files]
  split
  · exact agree_failed (by simp [Failure.kind]) h
  · split
    · exact agree_failed (by simp [Failure.kind]) h
    · exact agree_failed (by simp [Failure.kind]) h
    · next program hp =>
      exact agree_evalForms depth settles_keeping_nil (plain_of_ofStream hp) .nil h

theorem agree_answer (depth : Nat) (request : Request) (h : s.Relocated w t) :
    Agree (s.answer depth request) (t.answer depth request) := by
  cases request with
  | text source => exact agree_readForms depth source h
  | file path => exact agree_runFile depth path h

theorem alike_answers (depth : Nat) (requests : List Request) (h : s.Relocated w t) :
    List.Forall₂ Results.Alike (s.answers depth requests).1 (t.answers depth requests).1 := by
  induction requests generalizing w s t with
  | nil => exact .nil
  | cons request requests ih =>
    obtain ⟨⟨w', hst⟩, hresults, -⟩ := agree_answer depth request h
    exact .cons hresults (ih hst)

section New

/-- At the beginning only the root is in use. -/
theorem relocated_new_environments :
    Environments.new.Relocated ⟨id, (· = Environments.new.root)⟩ Environments.new where
  left := Environments.scoped_new
  right := Environments.scoped_new
  root := ⟨rfl, rfl⟩
  injective _ _ _ _ he := he
  frame h hu := by
    obtain rfl := hu
    exact ⟨_, _, rfl, rfl, ⟨fun _ hm => absurd hm List.not_mem_nil, by simp [Frame.empty], rfl⟩⟩

theorem relocated_builtin (hw : w.map = id) (ps : List Primitive)
    (hp : ∀ p ∈ ps, p.IsBuiltin) {s : Environments} (h : s.Relocated w s) :
    (ps.foldl (fun s p => s.defineGlobal p.name (.primitive p)) s).Relocated w
      (ps.foldl (fun s p => s.defineGlobal p.name (.primitive p)) s) := by
  induction ps generalizing s with
  | nil => exact h
  | cons p ps ih =>
    obtain ⟨hhead, htail⟩ := List.forall_mem_cons.1 hp
    have hdefine := (h.define h.root.1 p.name (Datum.relocated_primitive hhead)).2
    rw [hw] at hdefine
    exact ih htail hdefine

theorem relocated_new (threshold threshold' : Nat) (files : Files) :
    ∃ w, (new threshold files).Relocated w (new threshold' files) := by
  have h : (new threshold files).environments.Relocated ⟨id, (· = Environments.new.root)⟩
      (new threshold' files).environments := by
    rw [environments_new, environments_new]
    exact relocated_builtin rfl _ (fun _ hp => hp) relocated_new_environments
  exact ⟨_, h, rfl, rfl, rfl⟩

end New

/-- Sessions of the same files answer the same requests alike, whatever their thresholds are. At
every depth they stop at the same forms, and where both come to an end, it is the same end. A text
hands out the values of its forms, or why it stopped. -/
theorem answers_alike (files : Files) (threshold threshold' : Nat) (requests : List Request) :
    (∀ depth, List.Forall₂ Results.Alike ((new threshold files).answers depth requests).1
      ((new threshold' files).answers depth requests).1) ∧
    (∀ xs ys, (new threshold files).Answers requests xs →
      (new threshold' files).Answers requests ys → List.Forall₂ Results.Alike xs ys) ∧
    ∀ depth (s : Session) source, s.readEval depth source =
      ((s.readForms depth source).1.returned, (s.readForms depth source).2) := by
  obtain ⟨w, h⟩ := relocated_new threshold threshold' files
  refine ⟨fun depth => alike_answers depth requests h, ?_, readEval_eq⟩
  rintro _ _ ⟨n, rfl, hn⟩ ⟨m, rfl, hm⟩
  have key := alike_answers (max n m) requests h
  rwa [answers_of_le (le_max_left n m) hn, answers_of_le (le_max_right n m) hm] at key

/-- Sessions that evaluated texts and files, and loaded files into the root frame, in any order and
with any outcomes. The files may change in between. -/
inductive Served : Session → Prop
  | new (threshold : Nat) (files : Files) : Served (new threshold files)
  | readEval {s : Session} (depth : Nat) (source : String) :
      Served s → Served (s.readEval depth source).2
  | runFile {s : Session} (depth : Nat) (path : String) :
      Served s → Served (s.runFile depth path).2
  | load {s : Session} (depth : Nat) (path : String) :
      Served s → Served (s.load depth s.root path).2
  | files {s : Session} (files : Files) : Served s → Served { s with files }

theorem relocated_load (depth : Nat) (path : String) (h : s.Relocated w t) :
    ∃ w', (s.load depth s.root path).2.Relocated w' (t.load depth t.root path).2 ∧
      Parallel (Halt.Renamed w'.map) Eq (s.load depth s.root path).1
        (t.load depth t.root path).1 := by
  have heval : (Datum.evalIn (call depth)).Relocates :=
    Datum.relocates_evalIn (relocates_call depth)
  obtain ⟨w', -, hst, hend⟩ := relocated_loadFile heval h.root path s t h
  exact ⟨w', hst, hend⟩

theorem Served.relocated (h : s.Served) : ∃ w, s.Relocated w s := by
  induction h with
  | new threshold files => exact relocated_new threshold threshold files
  | readEval depth source _ ih =>
    obtain ⟨w, h⟩ := ih
    rw [readEval_eq]
    exact (agree_readForms depth source h).sessions
  | runFile depth path _ ih =>
    obtain ⟨w, h⟩ := ih
    exact (agree_runFile depth path h).sessions
  | load depth path _ ih =>
    obtain ⟨w, h⟩ := ih
    obtain ⟨w', hst, -⟩ := relocated_load depth path h
    exact ⟨w', hst⟩
  | files files _ ih =>
    obtain ⟨w, h⟩ := ih
    exact ⟨w, h.environments, h.depth, h.marks, rfl⟩

end Session

end FrameLisp
