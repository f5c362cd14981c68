import FrameLisp.Proofs.Session.Footprint
import FrameLisp.Proofs.Session.Reclamation

/-!
# Growth is accounted for

With only the built-in primitives an execution takes no frame away and unbinds no name. The number
of live frames and the number of frames made since the last collection both rise by the number of
closures that were applied in a frame of their own. So along every run the live frames are those
that were left by the last collection and those that were made since. Where texts and files are
evaluated, collections are made between the forms, and the last one of them counts.
-/
namespace FrameLisp

open Store Source

/-- From one session to another frames and names were kept, and `k` frames were added. -/
structure Session.Accounted (k : Nat) (s t : Session) : Prop where
  kept : ∀ h f, s.environments.frames.get? h = some f →
    ∃ g, t.environments.frames.get? h = some g ∧ f.Keeps g
  lookup : ∀ env name value, s.environments.lookup env name = .ok value →
    ∃ value', t.environments.lookup env name = .ok value'
  size : t.environments.size = s.environments.size + k
  allocated : t.environments.allocated = s.environments.allocated + k

theorem Session.Heeds.accounted {s t : Session} {k : Nat} {used used' : Handle → Prop}
    (h : s.Heeds .builtin k used used' t) (hs : s.Builtin) : s.Accounted k t where
  kept := h.environments.kept
  lookup _ _ _ hv :=
    hs.reached.scoped.lookup_of_kept (h.changes.reached hs.reached).scoped h.environments.kept hv
  size := h.changes.counts.1
  allocated := h.changes.counts.2

/-- What can have become of a session with only the built-in primitives, and the number of frames
that were live right after the last collection, or at the beginning. -/
inductive Session.Ran : Session → Nat → Prop
  | new (threshold : Nat) (files : Files) : Ran (Session.new threshold files) 1
  | execute {s base} {unit : Code} (depth : Nat) (env : Handle) :
      Ran s base → unit.Builtin → Ran ((unit.run (call depth) env).runFrom s).2 base
  | evaluate {s base} {unit : Code} (depth : Nat) (env : Handle) : Ran s base → unit.Builtin →
      Ran ((Action.evaluating (unit.run (call depth) env)).runFrom s).2 base
  | evalIn {s base} {d : Datum} (depth : Nat) (env : Handle) :
      Ran s base → d.Builtin → Ran (s.evalIn depth env d).2 base
  | apply {s base} {procedure : Datum} {arguments : List Datum} (depth : Nat) :
      Ran s base → procedure.Builtin → (∀ d ∈ arguments, d.Builtin) →
      Ran (s.apply depth procedure arguments).2 base
  | load {s base} (depth : Nat) (env : Handle) (path : String) :
      Ran s base → Ran (s.load depth env path).2 base
  /-- Names can be bound and frames made from outside, too. -/
  | define {s base} {value : Datum} (env : Handle) (name : String) :
      Ran s base → value.Builtin → Ran ((Action.define env name value).runFrom s).2 base
  | assign {s base} {value : Datum} (env : Handle) (name : String) :
      Ran s base → value.Builtin → Ran ((Action.assign env name value).runFrom s).2 base
  | extend {s base} {arguments : List Datum} (parent : Handle) (p : Parameters) :
      Ran s base → (∀ d ∈ arguments, d.Builtin) →
      Ran ((Action.extend parent p arguments).runFrom s).2 base
  /-- Whatever else a session keeps has nothing to do with its frames. -/
  | adjust {s base} (threshold depth marks : Nat) (files : Files) :
      Ran s base → Ran ⟨s.environments, threshold, depth, marks, files⟩ base
  | collect {s base} (live : List Handle) : Ran s base →
      Ran { s with environments := (s.environments.collect live).2 }
        (s.environments.collect live).2.size

/-- The live frames are `base` old ones and those made since the last collection. -/
structure Session.Balanced (s : Session) (base : Nat) : Prop where
  builtin : s.Builtin
  size : s.environments.size = base + s.environments.allocated

variable {α : Type} {s : Session} {base : Nat}

section Balanced

/-- An action that heeds the discipline adds as much on both sides. -/
theorem Tallied.Heeds.balanced {a : Tallied α} {b : Action α} {r : (Handle → Prop) → α → Prop}
    (ha : a.Heeds .builtin (fun _ => True) r) (hb : a.action = b) (hs : s.Balanced base) :
    (b.runFrom s).2.Balanced base := by
  obtain ⟨used', hst, -⟩ := ha s s.depth.zero_le hs.builtin.sound
  subst hb
  refine ⟨hst.builtin (fun _ => trivial) hs.builtin, ?_⟩
  rw [hst.changes.counts.1, hst.changes.counts.2, hs.size, Nat.add_assoc]

theorem Session.balanced_new (threshold : Nat) (files : Files) :
    (new threshold files).Balanced 1 := by
  have htree : Environments.new.SameTree (new threshold files).environments :=
    environments_new_induction threshold files (.refl _) fun s hs p _ =>
      hs.trans (Environments.sameTree_define s s.root p.name _)
  refine ⟨builtin_new threshold files, ?_⟩
  rw [htree.size, htree.allocated]
  rfl

theorem Session.Balanced.collect (hs : s.Balanced base) (live : List Handle) :
    Session.Balanced { s with environments := (s.environments.collect live).2 }
      (s.environments.collect live).2.size where
  builtin :=
    ⟨hs.builtin.reached.collect live, fun h f hf =>
      hs.builtin.holds h f (Environments.get?_collect_eq_some_iff.1 hf).1⟩
  size := rfl

/-- Along every run the balance is kept. -/
theorem Session.Ran.balanced (h : s.Ran base) : s.Balanced base := by
  induction h with
  | new threshold files => exact balanced_new threshold files
  | execute depth env _ hunit ih =>
    exact (Code.heeds_run_call trivial hunit).balanced (Tallied.action_run_call depth env _) ih
  | evaluate depth env _ hunit ih =>
    exact (Tallied.Heeds.evaluating (Code.heeds_run_call trivial hunit)).balanced
      (congrArg Action.evaluating (Tallied.action_run_call depth env _)) ih
  | evalIn depth env _ hd ih =>
    exact (Tallied.heeds_builtin_evalIn depth trivial hd).balanced
      (congrFun (congrFun (Tallied.action_evalIn_call depth) env) _) ih
  | apply depth _ hp ha ih =>
    exact (Tallied.heeds_builtin_call depth hp ha).balanced
      (congrFun (congrFun (Tallied.action_call depth) _) _) ih
  | load depth env path _ ih =>
    exact (Tallied.heeds_loadFile (Tallied.heeds_builtin_evalIn depth) trivial path).balanced
      (Tallied.action_loadFile_call depth env path) ih
  | define env name _ hvalue ih =>
    exact (Tallied.heeds_define (D := .builtin) trivial name hvalue).balanced rfl ih
  | assign env name _ hvalue ih =>
    exact (Tallied.heeds_assign (D := .builtin) trivial name hvalue).balanced rfl ih
  | extend parent p _ ha ih =>
    exact (Tallied.heeds_extend (D := .builtin) trivial p ha).balanced rfl ih
  | adjust _ _ _ _ _ ih => exact ⟨⟨ih.builtin.reached, ih.builtin.holds⟩, ih.size⟩
  | collect live _ ih => exact ih.collect live

end Balanced

section Bases

namespace Session

/-- The number of frames that were live right after the last collection, which may be due now. If
none is made, that number is still `base`. -/
def baseKeeping (values : List Datum) (s : Session) (base : Nat) : Nat :=
  match s.collectIfNeeded values.reverse with
  | (none, _) => base
  | (some _, t) => t.environments.size

/-- This number once some forms were evaluated. Behind each form `kept` says which of the values so
far are kept. -/
def baseForms (depth : Nat) (kept : List Datum → List Datum) (values : List Datum) (s : Session)
    (base : Nat) : List Datum → Nat
  | [] => base
  | d :: ds =>
    match s.evalIn depth s.root d with
    | (.error _, _) => base
    | (.ok value, t) =>
      baseForms depth kept (value :: values) (keeping (kept (value :: values)) t)
        (baseKeeping (kept (value :: values)) t base) ds

/-- This number once a text was evaluated; all values are kept until the end. -/
def baseText (depth : Nat) (s : Session) (base : Nat) (source : String) : Nat :=
  match Program.ofString source with
  | .error _ => base
  | .ok program => s.baseForms depth id [] base program.data

/-- This number once a file was run; no value is kept. -/
def baseFile (depth : Nat) (s : Session) (base : Nat) (path : String) : Nat :=
  match s.files path with
  | .error _ => base
  | .ok bytes =>
    match Program.ofStream bytes with
    | .error _ => base
    | .ok program => s.baseForms depth (fun _ => []) [] base program.data

namespace Ran

theorem keeping (h : s.Ran base) (values : List Datum) :
    (Session.keeping values s).Ran (s.baseKeeping values base) := by
  rw [Session.keeping, baseKeeping, collectIfNeeded]
  split
  · exact h
  · rw [Session.collectGarbage]
    split
    · exact h
    · exact h.collect _

/-- Between the forms of a text frames may be collected. -/
theorem evalForms (h : s.Ran base) (depth : Nat) (kept : List Datum → List Datum)
    {data : List Datum} (hd : ∀ d ∈ data, d.Plain) (values : List Datum) :
    (s.evalForms depth (fun values => Session.keeping (kept values)) values data).2.Ran
      (s.baseForms depth kept values base data) := by
  induction data generalizing s base values with
  | nil => exact h
  | cons d data ih =>
    obtain ⟨hhead, htail⟩ := List.forall_mem_cons.1 hd
    have heval := h.evalIn depth s.root hhead.within
    rw [Session.evalForms, baseForms]
    generalize s.evalIn depth s.root d = x at heval ⊢
    obtain ⟨halt | value, t⟩ := x
    · exact heval
    · exact ih (heval.keeping _) htail (value :: values)

theorem readEval (h : s.Ran base) (depth : Nat) (source : String) :
    (s.readEval depth source).2.Ran (s.baseText depth base source) := by
  rw [Session.readEval, baseText]
  cases hp : Program.ofString source with
  | error e => exact h
  | ok program =>
    have hran := h.evalForms depth id (plain_of_ofString hp) []
    dsimp only [id] at hran ⊢
    generalize s.evalForms depth Session.keeping [] program.data = x at hran ⊢
    obtain ⟨⟨values, _ | stop⟩, t⟩ := x
    · exact hran
    · exact hran

theorem runFile (h : s.Ran base) (depth : Nat) (path : String) :
    (s.runFile depth path).2.Ran (s.baseFile depth base path) := by
  rw [Session.runFile, baseFile]
  cases s.files path with
  | error f => exact h
  | ok bytes =>
    dsimp only
    cases hp : Program.ofStream bytes with
    | error e =>
      cases e with
      | fault | unreadable => exact h
    | ok program => exact h.evalForms depth (fun _ => []) (plain_of_ofStream hp) []

/-- A collection that is granted begins a new count. -/
theorem collectGarbage (h : s.Ran base) {live : List Datum} {freed : Nat} {t : Session}
    (hc : s.collectGarbage live = (some freed, t)) : t.Ran t.environments.size := by
  rw [Session.collectGarbage] at hc
  split at hc
  · cases hc
  · cases hc
    exact h.collect _

end Ran

end Session

end Bases

/-- Executing a unit keeps all frames and names and adds as many frames as it counts. Along every
run the live frames are those of the last collection and those made since, where the last collection
may be one that is asked for or one between the forms of a text or a file. -/
theorem Session.Builtin.growth_accounted (hs : s.Builtin) {unit : Code} (hunit : unit.Builtin)
    (depth : Nat) (env : Handle) :
    (unit.executions depth env).map Tallied.action =
      [unit.run (call depth) env, Action.evaluating (unit.run (call depth) env)] ∧
    (∀ a ∈ unit.executions depth env, s.Accounted (a.tally s) (a.action.runFrom s).2) ∧
    ∀ {t : Session} {base}, t.Ran base →
      t.environments.size = base + t.environments.allocated ∧
      (∀ live freed u, t.collectGarbage live = (some freed, u) → u.Ran u.environments.size) ∧
      (∀ source, (t.readEval depth source).2.Ran (t.baseText depth base source)) ∧
      ∀ path, (t.runFile depth path).2.Ran (t.baseFile depth base path) := by
  refine ⟨unit.action_executions depth env, fun a ha => ?_, fun {t base} ht => ?_⟩
  · obtain ⟨used', hst, -⟩ := Code.heeds_executions trivial hunit ha s
      s.depth.zero_le hs.sound
    exact hst.accounted hs
  · exact ⟨ht.balanced.size, fun _ _ _ hc => ht.collectGarbage hc, ht.readEval depth,
      ht.runFile depth⟩

/-- The frame of the procedure that is applied is counted. -/
theorem growth_accounted_capturing : littered.Builtin ∧ capturing.Builtin ∧
    ∃ a ∈ capturing.executions 1 littered.root, a.tally littered = 1 ∧
      littered.Accounted 1 (a.action.runFrom littered).2 := by
  have htally : (Tallied.run (Tallied.call 1) littered.root capturing).tally littered = 1 := by
    cbv
  have h := (builtin_littered.growth_accounted builtin_capturing 1 littered.root).2.1 _
    List.mem_cons_self
  rw [htally] at h
  exact ⟨builtin_littered, builtin_capturing, _, List.mem_cons_self, htally, h⟩

end FrameLisp
