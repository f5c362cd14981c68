import FrameLisp.Console.Transcript
import FrameLisp.Proofs.Session.Loading
import FrameLisp.Proofs.Session.Reclamation

/-!
# Typing a text and running it

A text can be typed line by line, or stand in a file that is run. Typed, it is cut into groups of
lines that can be read as whole forms, and frames are collected behind each group; run, it is read
as a whole, and frames are collected behind each form. If all of its forms can be read and
evaluated, the same values are printed in the same order.
-/
namespace FrameLisp.Console

open Source Store Text

section Lines

variable {bytes line : List UInt8} {text cs : List Char} {ls : List (List Char)}

theorem bare_append_newline (h : '\r' ∉ cs) : bare (cs ++ ['\n']) = cs := by
  have hreturn : cs.getLast? ≠ some '\r' := fun hlast => h (List.mem_of_getLast? hlast)
  simp [bare, chop, hreturn]

theorem bare_of_not_mem (hnewline : '\n' ∉ cs) (hreturn : '\r' ∉ cs) : bare cs = cs := by
  have hlast : cs.getLast? ≠ some '\n' ∧ cs.getLast? ≠ some '\r' :=
    ⟨fun h => hnewline (List.mem_of_getLast? h), fun h => hreturn (List.mem_of_getLast? h)⟩
  simp [bare, chop, hlast]

/-- A line of the input is the content of that line of a file. -/
theorem map_bare_decode? (htext : decode? bytes = some text) (hreturn : '\r' ∉ text)
    (hline : line ∈ lines bytes) {l : List Char} (hl : decode? (lineContent line) = some l) :
    (decode? line).map bare = some l := by
  have h13 : 13 ∉ line := fun h => hreturn
    ((mem_iff_of_decode? htext rfl (by decide)).1 (subset_of_mem_lines hline h))
  rcases cases_of_mem_linesFrom (by simp) hline with ⟨h10, hcontent⟩ | ⟨content, h10, rfl, hcontent⟩
  · rw [hcontent] at hl
    have hnewline : '\n' ∉ l := fun h => h10 ((mem_iff_of_decode? hl rfl (by decide)).2 h)
    have hreturn' : '\r' ∉ l := fun h => h13 ((mem_iff_of_decode? hl rfl (by decide)).2 h)
    rw [hl, Option.map_some, bare_of_not_mem hnewline hreturn']
  · rw [hcontent h13] at hl
    have hreturn' : '\r' ∉ l := fun h => h13
      (List.mem_append_left _ ((mem_iff_of_decode? hl rfl (by decide)).2 h))
    have hend : decode? [10] = some ['\n'] := by cbv
    rw [decode?_append hl, hend, Option.map_some, Option.map_some, bare_append_newline hreturn']

/-- The complete lines of a text, which may lack the newline behind the last one, are among the
pieces between its newlines. -/
theorem mem_splitOn_of_unlines (hls : ∀ l ∈ ls, '\n' ∉ l)
    (hcut : text = unlines ls ∨ text ++ ['\n'] = unlines ls) :
    ∀ l ∈ ls, l ∈ text.splitOn '\n' := by
  induction ls generalizing text with
  | nil => simp
  | cons l ls ih =>
    obtain ⟨hl, hrest⟩ := List.forall_mem_cons.1 hls
    have hcons : unlines (l :: ls) = l ++ '\n' :: unlines ls := by simp [unlines]
    -- the text goes on behind the first line, or that line is all of it
    have hfirst : (∃ later, text = l ++ '\n' :: later ∧
        (later = unlines ls ∨ later ++ ['\n'] = unlines ls)) ∨ text = l ∧ ls = [] := by
      rw [hcons] at hcut
      rcases hcut with hcut | hcut
      · exact .inl ⟨_, hcut, .inl rfl⟩
      rcases List.eq_nil_or_concat ls with rfl | ⟨front, last, rfl⟩
      · exact .inr ⟨by simpa [unlines] using hcut, rfl⟩
      · refine .inl ⟨unlines front ++ last, ?_, .inr (by simp [unlines])⟩
        exact (List.append_left_inj ['\n']).1 (by simpa [unlines] using hcut)
    rcases hfirst with ⟨later, rfl, hlater⟩ | ⟨rfl, rfl⟩
    · rw [List.splitOn_append_cons_self_of_not_mem hl]
      exact List.forall_mem_cons.2 ⟨List.mem_cons_self,
        fun l' hl' => List.mem_cons_of_mem _ (ih hrest hlater l' hl')⟩
    · simp [List.splitOn_eq_singleton hl]

/-- Typed line by line, valid bytes without carriage returns are the lines of their text. -/
theorem exists_typed (htext : decode? bytes = some text) (hreturn : '\r' ∉ text) :
    ∃ ls, (lines bytes).map (fun line => (decode? line).map bare) = ls.map some ∧
      (text = unlines ls ∨ text ++ ['\n'] = unlines ls) ∧ ∀ l ∈ ls, l ∈ text.splitOn '\n' := by
  have hbreaks : ¬['\r', '\n'] <:+: text := fun h => hreturn (h.subset List.mem_cons_self)
  obtain ⟨ls, hls, hended⟩ := exists_lines htext hbreaks
  have hcut : text = unlines ls ∨ text ++ ['\n'] = unlines ls := by
    rw [← hended]
    exact (ended_eq_or text).imp Eq.symm Eq.symm
  have hcontent : ∀ l ∈ ls, ∃ line ∈ lines bytes, decode? (lineContent line) = some l := by
    intro l hl
    have hmem : some l ∈ ((lines bytes).map lineContent).map decode? :=
      hls ▸ List.mem_map_of_mem hl
    simpa using hmem
  refine ⟨ls, ?_, hcut, mem_splitOn_of_unlines (fun l hl hnewline => ?_) hcut⟩
  · rw [← hls, List.map_map]
    refine List.map_congr_left fun line hline => ?_
    have hsome : decode? (lineContent line) ∈ ls.map some :=
      hls ▸ List.mem_map_of_mem (List.mem_map_of_mem hline)
    obtain ⟨l, -, hl⟩ := List.mem_map.1 hsome
    rw [map_bare_decode? htext hreturn hline hl.symm, Function.comp_apply, ← hl]
  · obtain ⟨line, hline, hl'⟩ := hcontent l hl
    have h10 : 10 ∉ lineContent line := by
      rcases cases_of_mem_linesFrom (by simp) hline with ⟨h10, h⟩ | ⟨content, h10, rfl, h⟩
      · rwa [h]
      · rwa [h fun h13 => hreturn
          ((mem_iff_of_decode? htext rfl (by decide)).1 (subset_of_mem_lines hline h13))]
    exact h10 ((mem_iff_of_decode? hl' rfl (by decide)).2 hnewline)

end Lines

section Evaluation

variable {depth : Nat} {w : Relocation} {s r t : Session} {ds values : List Datum}

theorem map_text_of_shownAlike {values' : List Datum}
    (h : List.Forall₂ Datum.ShownAlike values values') :
    values'.map Datum.text = values.map Datum.text := by
  induction h with
  | nil => rfl
  | cons hshown _ ih => rw [List.map_cons, List.map_cons, hshown.text, ih]

/-- Forms that can be evaluated one after the other have the same values in a session that is the
same but for its frames, whatever is done between them. -/
theorem evalForms_of_evaluates {settle : List Datum → Session → Session}
    (hsettle : Session.SettleAlike (fun _ s => s) settle) (hd : ∀ d ∈ ds, d.Plain)
    (h : s.Relocated w r) (heval : Session.Evaluates depth s ds values none t) :
    ∃ values' u w', r.evalForms depth settle [] ds = (⟨values', none⟩, u) ∧
      values'.reverse.map Datum.text = values.map Datum.text ∧ t.Relocated w' u := by
  obtain ⟨⟨w', hsession⟩, ⟨hvalues, hstopped⟩, -⟩ :=
    Session.agree_evalForms_of_settleAlike depth hsettle hd .nil h
  have hleft := heval.evalForms_of_settled (fun _ _ _ => rfl) (fun _ => rfl) []
  rw [List.append_nil, List.append_nil] at hleft
  rw [hleft] at hsession hvalues hstopped
  generalize r.evalForms depth settle [] ds = y at hsession hvalues hstopped ⊢
  obtain ⟨⟨values', stopped⟩, u⟩ := y
  cases hstopped
  refine ⟨values', u, w', rfl, ?_, hsession⟩
  rw [List.map_reverse, map_text_of_shownAlike hvalues, ← List.map_reverse, List.reverse_reverse]

theorem settleAlike_id : Session.SettleAlike (fun _ s => s) fun _ s => s :=
  fun _ _ w _ _ h => ⟨w, h⟩

theorem settleAlike_keeping_nil :
    Session.SettleAlike (fun _ s => s) fun _ s => Session.keeping [] s :=
  fun _ _ _ _ _ h => h.keeping_right []

end Evaluation

section Dialogue

/-- The lines of some values, with prompts in front of them and between them. -/
inductive Prompted : List String → List Output → Prop
  | nil : Prompted [] []
  | prompt {s texts outputs} : s = "]=> " ∨ s = "... " → Prompted texts outputs →
      Prompted texts (.prompt s :: outputs)
  | line {s texts outputs} : Prompted texts outputs →
      Prompted (s :: texts) (.line s :: outputs)

theorem Prompted.append_lines {texts : List String} {outputs : List Output}
    (h : Prompted texts outputs) (front : List String) :
    Prompted (front ++ texts) (front.map .line ++ outputs) := by
  induction front with
  | nil => exact h
  | cons s front ih => exact .line ih

/-- A dialogue that printed some values and came to the end of its input. -/
structure Transcript.Prints (t : Transcript) (texts : List String) : Prop where
  code : t.code = 0
  outputs : ∃ body, t.outputs = body ++ [.prompt "\n"] ∧ Prompted texts body

theorem prompt_cases (r : Repl) : r.prompt = "]=> " ∨ r.prompt = "... " := by
  rw [Repl.prompt]
  split
  · exact .inl rfl
  · exact .inr rfl

variable {depth : Nat} {w : Relocation} {s t : Session} {values : List Datum} {r : Repl}
  {line : List UInt8} {lines : List (List UInt8)} {l : List Char} {ls : List (List Char)}

/-- A line that is answered with values, in front of a dialogue that prints the others. -/
theorem prints_cons (hline : (decode? line).map bare = some l) {r' : Repl}
    {front texts : List String}
    (hanswer : Repl.answer depth r l = (front.map .line, some r'))
    (h : ((Repl.dialogue depth).run r' lines).Prints texts) :
    ((Repl.dialogue depth).run r (line :: lines)).Prints (front ++ texts) := by
  obtain ⟨hcode, body, houtputs, hbody⟩ := h
  obtain ⟨cs, hcs, rfl⟩ := Option.map_eq_some_iff.1 hline
  have hturn : (Repl.dialogue depth).turn r line = (front.map .line, .ok r') := by
    rw [Dialogue.turn, hcs]
    dsimp only
    rw [show (Repl.dialogue depth).answer r (bare cs) = _ from hanswer]
  refine ⟨?_, .prompt r.prompt :: (front.map .line ++ body), ?_, ?_⟩
  · rw [Dialogue.run, hturn]
    exact hcode
  · rw [Dialogue.run, hturn]
    dsimp only
    rw [houtputs]
    simp [Repl.dialogue]
  · exact .prompt (prompt_cases r) (hbody.append_lines front)

theorem all_isBlank_of_trim (h : Text.trim l = []) : ∀ x ∈ l, Text.isBlank x = true := by
  have hdrop : ∀ x ∈ l.dropWhile Text.isBlank, Text.isBlank x = true := by
    have hreverse : (l.dropWhile Text.isBlank).reverse.dropWhile Text.isBlank = [] :=
      List.reverse_eq_nil_iff.1 h
    simpa using hreverse
  have hnil : l.dropWhile Text.isBlank = [] := by
    by_contra hne
    have hhead := List.head_dropWhile_not Text.isBlank hne
    rw [hdrop _ (List.head_mem hne)] at hhead
    cases hhead
  simpa using hnil

theorem Source.Program.plain_of_ofChars {cs : List Char} {p : Program}
    (hp : Program.ofChars cs = .ok p) : ∀ d ∈ p.data, d.Plain := by
  have hstring : Program.ofString (String.ofList cs) = .ok p := by
    rwa [Program.ofString, String.toList_ofList]
  exact plain_of_ofString hstring

/-- What is left of a text behind lines that can be read is a text of its own. -/
theorem exists_later {a text : List Char} {p q : Program} (ha : a.getLast? = some '\n')
    (hp : Program.ofChars a = .ok p) (hq : Program.ofChars (a ++ text) = .ok q) :
    ∃ q', Program.ofChars text = .ok q' ∧ q.data = p.data ++ q'.data := by
  have hseam : Seam a text := .inr (.inl ha)
  cases hq' : Program.ofChars text with
  | error e =>
    obtain ⟨e', he'⟩ := Program.exists_ofChars_append_eq_error hseam hp hq'
    cases hq.symm.trans he'
  | ok q' =>
    obtain ⟨q'', hq'', hdata⟩ := Program.exists_ofChars_append hseam hp hq'
    obtain rfl := Except.ok.inj (hq.symm.trans hq'')
    exact ⟨q', rfl, hdata⟩

/-- What is not blank between forms, nor the end of the dialogue, is read behind what is pending. -/
theorem answer_of_not_blank (hblank : ¬(r.pending.isEmpty = true ∧ Text.trim l = []))
    (hexit : Text.trim l ≠ ".exit".toList) : Repl.answer depth r l =
      match Program.ofChars (r.pending ++ l ++ ['\n']) with
      | .error e =>
        if e.isIncomplete then ([], some { r with pending := r.pending ++ l ++ ['\n'] })
        else
          ([report (.unreadable "<repl>" (String.ofList (r.pending ++ l ++ ['\n'])) e)],
            some { r with pending := [] })
      | .ok program =>
        ((Repl.evaluate depth r.session program.data).1,
          some ⟨(Repl.evaluate depth r.session program.data).2.keeping [], []⟩) := by
  rw [Repl.answer]
  dsimp only
  cases Program.ofChars (r.pending ++ l ++ ['\n']) <;>
    exact (if_neg hblank).trans (if_neg fun h => hexit h.2)

theorem answer_of_blank (hempty : r.pending = []) (htrim : Text.trim l = []) :
    Repl.answer depth r l = (([] : List String).map .line, some r) := by
  rw [Repl.answer]
  dsimp only
  rw [if_pos ⟨by rw [hempty]; rfl, htrim⟩]
  rfl

/-- A text with an error that more text can mend is gathered. -/
theorem answer_of_incomplete (hblank : ¬(r.pending.isEmpty = true ∧ Text.trim l = []))
    (hexit : Text.trim l ≠ ".exit".toList) {e : SyntaxError}
    (hp : Program.ofChars (r.pending ++ l ++ ['\n']) = .error e) (hinc : e.isIncomplete = true) :
    Repl.answer depth r l =
      (([] : List String).map .line, some { r with pending := r.pending ++ l ++ ['\n'] }) := by
  rw [answer_of_not_blank hblank hexit, hp]
  dsimp only
  rw [if_pos hinc]
  rfl

/-- No later text mends an error that is not incomplete. -/
theorem isIncomplete_of_append {a text : List Char} {e : SyntaxError} {q : Program}
    (ha : a.getLast? = some '\n') (hp : Program.ofChars a = .error e)
    (hq : Program.ofChars (a ++ text) = .ok q) : e.isIncomplete = true := by
  by_contra hfinal
  have hwhole := Program.ofChars_append_eq_error (t := text) (.inr (.inl ha)) hp
    (by simpa using hfinal)
  cases hq.symm.trans hwhole

/-- Forms that can be evaluated have their values printed. -/
theorem evaluate_of_evaluates {ds : List Datum} (hd : ∀ d ∈ ds, d.Plain)
    (h : s.Relocated w r.session) (heval : Session.Evaluates depth s ds values none t) :
    ∃ u w', Repl.evaluate depth r.session ds = ((values.map Datum.text).map .line, u) ∧
      t.Relocated w' u := by
  obtain ⟨values', u, w', hforms, htexts, hsession⟩ :=
    evalForms_of_evaluates settleAlike_id hd h heval
  refine ⟨u, w', ?_, hsession⟩
  rw [Repl.evaluate, hforms]
  dsimp only
  rw [← htexts]
  simp

/-- A text whose forms can be evaluated in order is typed: their values are printed, whatever was
typed before. -/
theorem prints_run {q : Program}
    (hlines : lines.map (fun line => (decode? line).map bare) = ls.map some)
    (hexit : ∀ l ∈ ls, Text.trim l ≠ ".exit".toList)
    (hpending : r.pending = [] ∨ ∃ e, Program.ofChars r.pending = .error e)
    (hq : Program.ofChars (r.pending ++ unlines ls) = .ok q) (h : s.Relocated w r.session)
    (heval : Session.Evaluates depth s q.data values none t) :
    ((Repl.dialogue depth).run r lines).Prints (values.map Datum.text) := by
  induction ls generalizing lines r s w q values with
  | nil =>
    obtain rfl : lines = [] := by simpa using hlines
    have hempty : r.pending = [] := by
      rcases hpending with hempty | ⟨e, he⟩
      · exact hempty
      · rw [unlines, List.flatMap_nil, List.append_nil, he] at hq
        cases hq
    rw [hempty, unlines, List.flatMap_nil, List.append_nil, Program.ofChars_nil] at hq
    obtain rfl := Except.ok.inj hq
    obtain rfl : values = [] := by
      cases heval
      rfl
    exact ⟨rfl, [.prompt r.prompt], rfl, .prompt (prompt_cases r) .nil⟩
  | cons l ls ih =>
    obtain ⟨line, lines, rfl, hl, hls⟩ := List.map_eq_cons_iff.1 hlines
    obtain ⟨hexit, hexits⟩ := List.forall_mem_cons.1 hexit
    have htext : r.pending ++ unlines (l :: ls) = r.pending ++ l ++ ['\n'] ++ unlines ls := by
      simp [unlines]
    have hlast : (r.pending ++ l ++ ['\n']).getLast? = some '\n' := by simp
    rw [htext] at hq
    by_cases hblank : r.pending.isEmpty = true ∧ Text.trim l = []
    · -- a blank line between the forms
      obtain ⟨hempty, htrim⟩ := hblank
      have hnil : r.pending = [] := List.isEmpty_iff.1 hempty
      have hall : ∀ x ∈ r.pending ++ l ++ ['\n'], isBlank x = true := by
        rw [hnil, List.nil_append, List.forall_mem_append, List.forall_mem_singleton]
        exact ⟨all_isBlank_of_trim htrim, by decide⟩
      obtain ⟨q', hq', hdata⟩ := exists_later hlast (Program.ofChars_blank hall) hq
      have hsame : q.data = q'.data := hdata
      have hrest : Program.ofChars (r.pending ++ unlines ls) = .ok q' := by rwa [hnil]
      have hprints := prints_cons hl (answer_of_blank hnil htrim)
        (ih hls hexits (.inl hnil) hrest h (hsame ▸ heval))
      rwa [List.nil_append] at hprints
    cases hp : Program.ofChars (r.pending ++ l ++ ['\n']) with
    | error e =>
      -- the lines so far are gathered, as no later one would mend another error
      have hinc := isIncomplete_of_append hlast hp hq
      have hprints := prints_cons hl (answer_of_incomplete hblank hexit hp hinc)
        (ih hls hexits (.inr ⟨e, hp⟩) hq h heval)
      rwa [List.nil_append] at hprints
    | ok p =>
      -- the lines so far are whole forms
      obtain ⟨q', hq', hdata⟩ := exists_later hlast hp hq
      rw [hdata] at heval
      obtain ⟨values₁, values₂, m, rfl, hfront, hback⟩ := heval.exists_of_append
      obtain ⟨u, w', hevaluate, hsession⟩ :=
        evaluate_of_evaluates (Source.Program.plain_of_ofChars hp) h hfront
      obtain ⟨w'', hkept⟩ := hsession.keeping_right []
      have hanswer : Repl.answer depth r l =
          ((values₁.map Datum.text).map .line, some ⟨u.keeping [], []⟩) := by
        rw [answer_of_not_blank hblank hexit, hp]
        dsimp only
        rw [hevaluate]
      rw [List.map_append]
      exact prints_cons hl hanswer (ih hls hexits (.inl rfl) hq' hkept hback)

end Dialogue

section Agreement

/-- Whether an output is text around the answers. -/
def Output.isPrompt : Output → Bool
  | .prompt _ => true
  | _ => false

/-- How the transcripts of a text that is typed and of a file that is run compare when both print
these values. -/
structure PrintAlike (texts : List String) (typed ran : Transcript) : Prop where
  codes : typed.code = 0 ∧ ran.code = 0
  /-- Typed, the values have prompts in front of them and between them, and a newline at the end. -/
  prompted : ∃ body, typed.outputs = body ++ [.prompt "\n"] ∧ Prompted texts body
  lines : Output.lines ran.outputs = texts
  /-- What goes to the standard output is the same, prompts and the final newline aside. -/
  stdout : Output.stdout (typed.outputs.filter fun o => !o.isPrompt) = Output.stdout ran.outputs

variable {depth : Nat} {s t : Session} {values : List Datum} {texts : List String}

theorem Prompted.filter_isPrompt {outputs : List Output} (h : Prompted texts outputs) :
    (outputs.filter fun o => !o.isPrompt) = texts.map .line := by
  induction h with
  | nil => rfl
  | prompt _ _ ih => exact ih
  | @line s _ _ _ ih =>
    rw [List.filter_cons_of_pos rfl, ih]
    rfl

/-- A program that is run to its end prints its values between two reports. -/
theorem outputs_conclusion (path elapsed : String) {results : Results}
    (h : results.stopped = none) :
    let ran := conclusion true elapsed results
    let texts := results.values.reverse.map Datum.text
    ran.code = 0 ∧ Output.lines (announcement path :: ran.outputs) = texts ∧
      Output.stdout (announcement path :: ran.outputs) = Output.stdout (texts.map .line) := by
  obtain ⟨values, stopped⟩ := results
  obtain rfl : stopped = none := h
  refine ⟨rfl, ?_, ?_⟩
  · simp [conclusion, announcement, progress, Output.lines, List.filterMap_map]
  · simp [conclusion, announcement, progress, Output.stdout, Function.comp_def]

variable {files : Files} {path : String} {bytes : List UInt8} {text : List Char} {p : Program}

/-- A text is typed as it is run: if it can be read as a whole, no line of it is the word that ends
the dialogue, and its forms can be evaluated in order, then the same values are printed in the same
order, whatever the thresholds of the two sessions are. -/
theorem typed_as_run (hfile : files path = .ok bytes) (htext : decode? bytes = some text)
    (hreturn : '\r' ∉ text) (hexit : ∀ l ∈ text.splitOn '\n', Text.trim l ≠ ".exit".toList)
    (hp : Program.ofChars text = .ok p) {threshold : Nat}
    (heval : Session.Evaluates depth (.new threshold files) p.data values none t)
    (threshold₁ threshold₂ : Nat) (input : List UInt8) (elapsed elapsed' : String) :
    PrintAlike (values.map Datum.text)
      ((Command.repl threshold₁).transcript depth files bytes elapsed)
      ((Command.run path true threshold₂).transcript depth files input elapsed') := by
  have hplain := Source.Program.plain_of_ofChars hp
  -- the text as it is typed, of which the last line is complete
  have hwhole : ∃ ls q, (lines bytes).map (fun line => (decode? line).map bare) = ls.map some ∧
      Program.ofChars (unlines ls) = .ok q ∧ q.data = p.data ∧
      ∀ l ∈ ls, l ∈ text.splitOn '\n' := by
    obtain ⟨ls, hls, hcut, hsplit⟩ := exists_typed htext hreturn
    rcases hcut with hcut | hcut
    · exact ⟨ls, p, hls, hcut ▸ hp, rfl, hsplit⟩
    · obtain ⟨q, hq, hdata⟩ := Program.exists_ofChars_newline hp
      exact ⟨ls, q, hls, hcut ▸ hq, hdata, hsplit⟩
  obtain ⟨ls, q, hls, hq, hdata, hsplit⟩ := hwhole
  obtain ⟨w₁, hnew₁⟩ := Session.relocated_new threshold threshold₁ files
  obtain ⟨hcode, body, houtputs, hbody⟩ := prints_run (r := Repl.start threshold₁ files) hls
    (fun l hl => hexit l (hsplit l hl)) (.inl rfl) hq hnew₁ (hdata ▸ heval)
  -- the file as it is run
  obtain ⟨w₂, hnew₂⟩ := Session.relocated_new threshold threshold₂ files
  obtain ⟨values', u, w₃, hforms, htexts, -⟩ :=
    evalForms_of_evaluates settleAlike_keeping_nil hplain hnew₂ heval
  have hresults : resultsOf depth files path threshold₂ = ⟨values', none⟩ := by
    have hfiles : (Session.new threshold₂ files).files path = .ok bytes := hfile
    rw [resultsOf, Session.runFile, hfiles]
    dsimp only
    rw [Program.ofStream_of_ok htext hp]
    dsimp only
    rw [hforms]
  have hran : (resultsOf depth files path threshold₂).stopped = none := by rw [hresults]
  obtain ⟨hcode', hlines, hstdout⟩ := outputs_conclusion path elapsed' hran
  rw [hresults, htexts] at hlines hstdout
  refine ⟨⟨hcode, hcode'⟩, ⟨body, houtputs, hbody⟩, ?_, ?_⟩
  · rw [Command.transcript, hresults]
    exact hlines
  · rw [Command.transcript, Command.transcript, hresults, houtputs, List.filter_append,
      hbody.filter_isPrompt]
    exact (congrArg Output.stdout (List.append_nil _)).trans hstdout.symm

theorem evaluates_cons {d value : Datum} {ds : List Datum}
    (hfirst : (s.evalIn depth s.root d).1 = .ok value)
    (h : Session.Evaluates depth (s.evalIn depth s.root d).2 ds values none t) :
    Session.Evaluates depth s (d :: ds) (value :: values) none t :=
  .next (Prod.ext hfirst rfl) h

/-- A definition on lines with a blank one between them, and two forms on a line that is not
complete. -/
def threeValues : String := "(define x\n\n  1) ; one\n\nx \"b\""

def threeFiles : Files := fun _ => .ok threeValues.toUTF8.toList

def definition : Datum :=
  .pair none (.symbol "define") (.pair none (.symbol "x") (.pair none (.number (.ofInt 1)) .nil))

/-- The session behind the definition. -/
def defined : Session :=
  ((Session.new 0 threeFiles).evalIn 9 (Session.new 0 threeFiles).root definition).2

theorem typed_as_run_threeValues :
    let values : List Datum := [.acknowledgement, .number (.ofInt 1), .string "b"]
    ∃ p t, (threeFiles "three.scm" = .ok threeValues.toUTF8.toList ∧
      decode? threeValues.toUTF8.toList = some threeValues.toList ∧ '\r' ∉ threeValues.toList ∧
      (∀ l ∈ threeValues.toList.splitOn '\n', Text.trim l ≠ ".exit".toList) ∧
      Program.ofChars threeValues.toList = .ok p ∧
      Session.Evaluates 9 (.new 0 threeFiles) p.data values none t) ∧
    PrintAlike (values.map Datum.text)
      ((Command.repl 1).transcript 9 threeFiles threeValues.toUTF8.toList "0.00s")
      ((Command.run "three.scm" true 4096).transcript 9 threeFiles [] "0.01s") := by
  intro values
  have hp : Program.ofChars threeValues.toList = .ok ⟨[⟨⟨0, 15⟩, definition⟩,
      ⟨⟨23, 24⟩, .symbol "x"⟩, ⟨⟨25, 28⟩, .string "b"⟩], [⟨16, 21⟩]⟩ := by with_unfolding_all rfl
  have htext : decode? threeValues.toUTF8.toList = some threeValues.toList := by cbv
  have hreturn : '\r' ∉ threeValues.toList := by decide
  have hexit : ∀ l ∈ threeValues.toList.splitOn '\n', Text.trim l ≠ ".exit".toList := by decide
  have hdefine : ((Session.new 0 threeFiles).evalIn 9 (Session.new 0 threeFiles).root
      definition).1 = .ok .acknowledgement := by cbv
  have hvariable : (defined.evalIn 9 defined.root (.symbol "x")).1 =
      .ok (.number (.ofInt 1)) := by cbv
  have hstring : ∀ s : Session, (s.evalIn 9 s.root (.string "b")).1 = .ok (.string "b") :=
    fun _ => rfl
  obtain ⟨t, heval⟩ : ∃ t, Session.Evaluates 9 (.new 0 threeFiles)
      [definition, .symbol "x", .string "b"] values none t :=
    ⟨_, evaluates_cons hdefine (evaluates_cons hvariable (evaluates_cons (hstring _) .done))⟩
  exact ⟨_, t, ⟨rfl, htext, hreturn, hexit, hp, heval⟩,
    typed_as_run rfl htext hreturn hexit hp heval 1 4096 [] "0.00s" "0.01s"⟩

end Agreement

end FrameLisp.Console
