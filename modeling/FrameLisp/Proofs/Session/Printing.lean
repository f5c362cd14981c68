import FrameLisp.Proofs.Eval.Legible
import FrameLisp.Proofs.Session.Reclamation

/-!
# What a session computes can be read

All data in the frames of a session are legible: the texts and files that it evaluates are, and
evaluation makes legible data of legible data. So whatever it hands out is printed so that it can be
read again, unless it holds a procedure or a number without digits.
-/
namespace FrameLisp.Session

open Store Source

/-- The values in all frames are legible, also in the code of procedures. -/
def Legible (s : Session) : Prop := s.Like Likeness.legible.data s

variable {s : Session}

section Steps

theorem legible_new (threshold : Nat) (files : Files) : (new threshold files).Legible :=
  .new (fun p => (Datum.Legible.primitive p).data) threshold files

theorem Legible.keeping (hs : s.Legible) (values : List Datum) :
    (Session.keeping values s).Legible := by
  rcases keeping_cases values s with he | ⟨live, he⟩
  · rw [he]
    exact hs
  · rw [he]
    exact ⟨hs.environments.collect live, rfl, rfl, rfl, rfl⟩

/-- A legible session is left, and all values are legible. -/
structure Yields (x : Results × Session) : Prop where
  session : x.2.Legible
  values : ∀ v ∈ x.1.values, v.Legible

theorem Legible.evalForms (hs : s.Legible) (depth : Nat)
    {settle : List Datum → Session → Session}
    (hsettle : ∀ values {t : Session}, t.Legible → (settle values t).Legible)
    {ds values : List Datum} (hd : ∀ d ∈ ds, d.Legible) (hv : ∀ v ∈ values, v.Legible) :
    Yields (s.evalForms depth settle values ds) := by
  induction ds generalizing s values with
  | nil => exact ⟨hs, hv⟩
  | cons d ds ih =>
    obtain ⟨hhead, htail⟩ := List.forall_mem_cons.1 hd
    have heval := Datum.like_evalIn_legible (like_call_legible depth) 0 s.root hhead.data
    obtain ⟨hsession, -, hend⟩ := heval s s hs (Nat.zero_le _)
    rw [Session.evalForms, evalIn]
    generalize (Datum.evalIn (call depth) s.root d).runFrom s = x at hsession hend ⊢
    obtain ⟨x, t⟩ := x
    cases hend with
    | error _ => exact ⟨hsession, hv⟩
    | ok hvalue =>
      obtain ⟨-, hvalue⟩ := hvalue
      exact ih (hsettle _ hsession) htail (List.forall_mem_cons.2 ⟨hvalue, hv⟩)

theorem Legible.readForms (hs : s.Legible) (depth : Nat) (source : String) :
    Yields (s.readForms depth source) := by
  rw [Session.readForms]
  split
  · exact ⟨hs, by simp⟩
  · next program hp =>
    exact hs.evalForms depth (fun values _ ht => ht.keeping values) (legible_of_ofString hp)
      (by simp)

theorem Legible.runFile (hs : s.Legible) (depth : Nat) (path : String) :
    Yields (s.runFile depth path) := by
  rw [Session.runFile]
  split
  · exact ⟨hs, by simp⟩
  · split
    · exact ⟨hs, by simp⟩
    · exact ⟨hs, by simp⟩
    · next program hp =>
      exact hs.evalForms depth (fun _ _ ht => ht.keeping []) (legible_of_ofStream hp) (by simp)

theorem Legible.load (hs : s.Legible) (depth : Nat) (path : String) :
    (s.load depth s.root path).2.Legible := by
  have heval := Datum.like_evalIn_legible (like_call_legible depth) 0
  have hload := like_loadFile heval s.root path
  exact (hload s s hs (Nat.zero_le _)).session

end Steps

/-- By induction on what the session did. -/
theorem Served.legible (h : s.Served) : s.Legible := by
  induction h with
  | new threshold files => exact legible_new threshold files
  | readEval depth source _ ih =>
    rw [readEval_eq]
    exact (ih.readForms depth source).session
  | runFile depth path _ ih => exact (ih.runFile depth path).session
  | load depth path _ ih => exact ih.load depth path
  | files files _ ih => exact ⟨ih.environments, rfl, rfl, rfl, rfl⟩

/-- All values of a text are printed so that they are read again as what they are, apart from those
that hold procedures or numbers without digits. -/
theorem Served.prints_readably (h : s.Served) {depth : Nat} {source : String} {values : List Datum}
    (hvalues : (s.readEval depth source).1 = .ok values) :
    ∀ v ∈ values, v.Plain → v.Bounded → ¬v.HasNaN → v.Readable ∧
      ∃ p, Program.ofString v.text = .ok p ∧ p.data = [v.unmarked] ∧ v.same v.unmarked = true := by
  intro v hv hplain hbounded hnan
  have hforms := (h.legible.readForms depth source).values
  rw [readEval_eq, Results.returned] at hvalues
  split at hvalues
  · rw [← Except.ok.inj hvalues, List.mem_reverse] at hv
    have hreadable := (hforms v hv).readable hplain hbounded hnan
    exact ⟨hreadable, hreadable.exists_ofString⟩
  · cases hvalues

/-- A list with the name of the primitive that makes it. -/
def listing : Datum :=
  .ofList [.symbol "list", .ofList [.symbol "quote", .symbol "list"],
    .number (.exact ⟨1, 2, Nat.succ_ne_zero 1, Nat.coprime_one_left 2⟩)]

/-- The value, a list of new pairs. -/
def listed : Datum :=
  .pair (some 1) (.symbol "list")
    (.pair (some 0) (.number (.exact ⟨1, 2, Nat.succ_ne_zero 1, Nat.coprime_one_left 2⟩)) .nil)

def noFiles : Files := fun _ => .error .notFound

theorem readable_listing : listing.Readable := by
  have hname : IsName "list".toList := isName_of_lower (by simp) (by decide)
  have hquoted : (Datum.ofList [.symbol "quote", .symbol "list"]).Readable :=
    .pair (.symbol isName_quote) (.pair (.symbol hname) .nil)
  exact .pair (.symbol hname) (.pair hquoted (.pair (.exact _) .nil))

set_option maxRecDepth 2000 in
theorem evalForms_listing :
    ((new 0 noFiles).evalForms 1 Session.keeping [] [listing]).1 = ⟨[listed], none⟩ := by
  rfl

theorem readEval_listing :
    ((new 0 noFiles).readEval 1 "(list (quote list) 1/2)").1 = .ok [listed] := by
  have htext : listing.text = "(list (quote list) 1/2)" := by decide +kernel
  obtain ⟨p, hp, hdata, -⟩ := readable_listing.exists_ofString
  have hforms : p.data = [listing] := hdata
  rw [readEval_eq, Session.readForms, ← htext, hp]
  dsimp only
  rw [hforms, evalForms_listing]
  rfl

theorem prints_readably_listing :
    ((new 0 noFiles).Served ∧
      ((new 0 noFiles).readEval 1 "(list (quote list) 1/2)").1 = .ok [listed]) ∧
    (listed.Plain ∧ listed.Bounded ∧ ¬listed.HasNaN) ∧ listed.Readable ∧
    ∃ p, Program.ofString listed.text = .ok p ∧ p.data = [listed.unmarked] ∧
      listed.same listed.unmarked = true := by
  have hserved : (new 0 noFiles).Served := .new 0 noFiles
  have hplain : listed.Plain := ⟨trivial, trivial, trivial⟩
  have hbounded : listed.Bounded := ⟨trivial, trivial, trivial⟩
  have hnan : ¬listed.HasNaN := by
    intro h
    cases h with
    | head h => cases h
    | tail h =>
      cases h with
      | head h => cases h
      | tail h => cases h
  exact ⟨⟨hserved, readEval_listing⟩, ⟨hplain, hbounded, hnan⟩,
    hserved.prints_readably readEval_listing listed (by simp) hplain hbounded hnan⟩

end FrameLisp.Session
