import FrameLisp.Proofs.Source.Derivation

/-!
# What becomes of a text

Comments aside, the tokens of a text alone decide what it is read as. Tokens that the grammar
derives are read as the data that they are derived from, a proper beginning of such tokens fails at
the end of the text, and anything else at the first token that no program has there.
-/
namespace FrameLisp.Source

section Outcome

theorem Viable.take {tokens : List Token} {k : Nat} (h : Viable tokens) :
    Viable (tokens.take k) := by
  obtain ⟨rest, ds, hds⟩ := h
  refine ⟨tokens.drop k ++ rest, ds, ?_⟩
  rwa [← List.append_assoc, List.take_append_drop]

/-- What may be continued to a program can be read. -/
theorem Viable.exists_readAll {lexemes : List Lexeme}
    (h : Viable (lexemes.map Lexeme.token)) : ∃ r, Reading.start.readAll lexemes = .ok r := by
  obtain ⟨rest, ds, hds⟩ := h
  have hmap : (lexemes ++ rest.map fun t => (⟨t, .point 0⟩ : Lexeme)).map Lexeme.token =
      lexemes.map Lexeme.token ++ rest := by
    simp [Function.comp_def]
  obtain ⟨r, hr, -, -⟩ := hds.exists_readAll_top hmap Reading.start
  have hstart : Reading.start.atPlace .top = Reading.start := rfl
  rw [hstart] at hr
  cases hread : Reading.start.readAll lexemes with
  | ok r' => exact ⟨r', rfl⟩
  | error e =>
    rw [Reading.readAll, List.map_append, Reading.read_append, ← Reading.readAll, hread] at hr
    simp [Except.bind] at hr

/-- An error of syntax that a token causes where it stands. -/
inductive SyntaxFault.Blames : SyntaxFault → Token → Prop
  | unmatchedParen : Blames .unmatchedParen .rightParen
  | unexpectedDot : Blames .unexpectedDot .dot
  | unexpectedToken {token} : token ≠ .rightParen →
      Blames (.unexpectedToken token [Token.rightParen.literal]) token

theorem Place.blames_of_take_eq_error {place : Place} {lexeme : Lexeme} {e : SyntaxError}
    (hl : lexeme.isTaken = true) (h : place.take lexeme = .error e) :
    e.span = lexeme.span ∧ e.fault.Blames lexeme.token := by
  fun_cases Place.take lexeme place with
  | case1 start read tail within hparen => simp [Place.take, hparen] at h
  | case2 start read tail within hparen =>
    simp only [Place.take, hparen, if_false, Except.error.injEq] at h
    subst h
    exact ⟨rfl, .unexpectedToken hparen⟩
  | case3 within hparen => simp [Place.take, hparen] at h
  | case4 within hquote => simp [Place.take, hquote] at h
  | case5 start read within hparen => simp [Place.take, hparen] at h
  | case6 within hparen hnot =>
    simp only [Place.take, hparen, Except.error.injEq] at h
    subst h
    exact ⟨rfl, hparen ▸ .unmatchedParen⟩
  | case7 start d read within hdot => simp [Place.take, hdot] at h
  | case8 within hdot hnot =>
    simp only [Place.take, hdot, Except.error.injEq] at h
    subst h
    exact ⟨rfl, hdot ▸ .unexpectedDot⟩
  | case9 within d _ _ _ _ _ _ hatom => simp [Place.take, hatom] at h
  | case10 within _ _ _ _ _ _ hatom =>
    simp only [Lexeme.isTaken] at hl
    cases htoken : lexeme.token <;> simp_all [Place.atom?]

/-- An error that a token causes is there to stay. -/
theorem SyntaxFault.Blames.isIncomplete {e : SyntaxError} {token : Token}
    (h : e.fault.Blames token) : e.isIncomplete = false := by
  obtain ⟨fault, span⟩ := e
  cases h <;> rfl

/-- An item that cannot be read is a fault itself, the end of the text inside of a form, or a token
that cannot stand where it does. -/
theorem Reading.cases_of_step_eq_error {r : Reading} {item : Item} {e : SyntaxError}
    (h : r.step item = .error e) :
    (∃ le, item = .error le ∧ e = .ofLexical le) ∨
      (∃ span, item = .ok ⟨.endOfInput, span⟩ ∧ e = ⟨.unexpectedEnd, .point span.start⟩) ∨
      ∃ l, item = .ok l ∧ l.isTaken = true ∧ e.span = l.span ∧ e.fault.Blames l.token := by
  cases item with
  | error le =>
    cases h
    exact .inl ⟨le, rfl, rfl⟩
  | ok l =>
    obtain ⟨token, span⟩ := l
    by_cases hend : token = .endOfInput
    · subst hend
      have hplace : r.place ≠ .top := by
        intro htop
        rw [step_end, ending_of_top htop] at h
        cases h
      rw [step_end, ending_of_ne_top hplace] at h
      cases h
      exact .inr (.inl ⟨span, rfl, rfl⟩)
    by_cases hcomment : token = .comment
    · subst hcomment
      cases h
    have htaken : (Lexeme.mk token span).isTaken = true := by
      simp [Lexeme.isTaken, hcomment, hend]
    rw [step_ok_of_isTaken htaken] at h
    cases htake : r.place.take ⟨token, span⟩ with
    | ok step => simp [htake, Except.map] at h
    | error e' =>
      obtain rfl : e' = e := by simpa [htake, Except.map] using h
      exact .inr (.inr ⟨_, rfl, htaken, Place.blames_of_take_eq_error htaken htake⟩)

end Outcome

section Comments

variable {r : Reading}

/-- The same reading with other comments. -/
def Reading.commented (r : Reading) (comments : Array Span) : Reading := { r with comments }

theorem Reading.readAll_commented {lexemes : List Lexeme}
    (ht : ∀ l ∈ lexemes, l.isTaken = true) (comments : Array Span) :
    (r.commented comments).readAll lexemes =
      (r.readAll lexemes).map fun r => r.commented comments := by
  induction lexemes generalizing r with
  | nil => rfl
  | cons l lexemes ih =>
    obtain ⟨hl, hrest⟩ := List.forall_mem_cons.1 ht
    have hplace : (r.commented comments).place = r.place := rfl
    rw [readAll, readAll, List.map_cons, read_cons, read_cons, step_ok_of_isTaken hl,
      step_ok_of_isTaken hl, hplace]
    cases r.place.take l with
    | error e => rfl
    | ok step =>
      have hsettle : (r.commented comments).settle step = (r.settle step).commented comments := by
        cases step <;> rfl
      have := ih (r := r.settle step) hrest
      simpa [Except.map, Except.bind, hsettle, readAll] using this

/-- The lexeme that an item is, if a reading takes it. -/
def Item.taken? : Item → Option Lexeme
  | .ok lexeme => if lexeme.isTaken then some lexeme else none
  | .error _ => none

theorem isTaken_of_mem_taken {items : List Item} :
    ∀ l ∈ items.filterMap Item.taken?, l.isTaken = true := by
  intro l hl
  obtain ⟨item, -, hitem⟩ := List.mem_filterMap.1 hl
  match item with
  | .error e => simp [Item.taken?] at hitem
  | .ok lexeme =>
    simp only [Item.taken?] at hitem
    split at hitem
    · next htaken => exact Option.some.inj hitem ▸ htaken
    · simp at hitem

/-- Comments change nothing but the list of comments. -/
theorem Reading.read_eq_readAll {items : List Item}
    (hi : ∀ item ∈ items, item.isOk = true ∧ ¬item.isEnd = true) (r : Reading) :
    ∃ comments, r.read items =
      (r.readAll (items.filterMap Item.taken?)).map fun r => r.commented comments := by
  induction items generalizing r with
  | nil => exact ⟨r.comments, rfl⟩
  | cons item items ih =>
    obtain ⟨⟨hok, hend⟩, hrest⟩ := List.forall_mem_cons.1 hi
    match item, hok with
    | .ok lexeme, _ =>
      have hend : lexeme.token ≠ .endOfInput := by simpa [Item.isEnd] using hend
      by_cases hcomment : lexeme.token = .comment
      · have hstep : r.step (.ok lexeme) =
            .ok (r.commented (r.comments.push lexeme.span)) := by
          simp [step, advance, hcomment, commented]
        have htaken : Item.taken? (.ok lexeme) = none := by
          simp [Item.taken?, Lexeme.isTaken, hcomment]
        obtain ⟨comments, hread⟩ := ih hrest (r.commented (r.comments.push lexeme.span))
        refine ⟨comments, ?_⟩
        rw [read_cons, hstep, List.filterMap_cons_none htaken, Except.bind, hread,
          readAll_commented isTaken_of_mem_taken]
        cases r.readAll (items.filterMap Item.taken?) <;> rfl
      · have hl : lexeme.isTaken = true := by simp [Lexeme.isTaken, hcomment, hend]
        have htaken : Item.taken? (.ok lexeme) = some lexeme := by simp [Item.taken?, hl]
        rw [read_cons, List.filterMap_cons_some htaken, readAll, List.map_cons, read_cons,
          step_ok_of_isTaken hl]
        cases r.place.take lexeme with
        | error e => exact ⟨#[], rfl⟩
        | ok step => exact ih hrest (r.settle step)

end Comments

section Texts

/-- The lexemes of a text that a reading takes: neither comments nor the end of the text. -/
def Cursor.lexemes (c : Cursor) : List Lexeme := c.items.filterMap Item.taken?

def Cursor.tokens (c : Cursor) : List Token := c.lexemes.map Lexeme.token

/-- A text without lexical errors is read by its lexemes. -/
theorem Program.exists_ofCursor_eq {c : Cursor} (hc : ∀ item ∈ c.items, item.isOk = true) :
    ∃ comments offset, Program.ofCursor c =
      ((Reading.start.readAll c.lexemes).bind fun r =>
        (r.commented comments).ending offset).map Reading.toProgram := by
  obtain ⟨front, span, hitems, hfront⟩ := c.items_eq_append
  have hok : ∀ item ∈ front, item.isOk = true ∧ ¬item.isEnd = true := fun item hi =>
    ⟨hc item (by simp [hitems, hi]), hfront item hi⟩
  have htaken : Item.taken? (.ok ⟨.endOfInput, span⟩) = none := by
    simp [Item.taken?, Lexeme.isTaken]
  have hlexemes : c.lexemes = front.filterMap Item.taken? := by
    simp [Cursor.lexemes, hitems, htaken]
  obtain ⟨comments, hread⟩ := Reading.read_eq_readAll hok Reading.start
  refine ⟨comments, span.start, ?_⟩
  rw [Program.ofCursor_eq, hitems, Reading.read_append, hread, hlexemes]
  cases Reading.start.readAll (front.filterMap Item.taken?) with
  | error e => rfl
  | ok r =>
    simp only [Except.map, Except.bind, Reading.read_cons, Reading.read_nil, Reading.step_end]
    cases (r.commented comments).ending span.start <;> rfl

/-- The three ways in which the reading of a text without lexical errors can end. -/
inductive Outcome (lexemes : List Lexeme) : Except SyntaxError Program → Prop
  | program {p} : DerivesAll (lexemes.map Lexeme.token) p.data → Outcome lexemes (.ok p)
  | unfinished {offset} : Viable (lexemes.map Lexeme.token) →
      (∀ ds, ¬DerivesAll (lexemes.map Lexeme.token) ds) →
      Outcome lexemes (.error ⟨.unexpectedEnd, .point offset⟩)
  | misplaced {before l after fault} : lexemes = before ++ l :: after →
      Viable (before.map Lexeme.token) → ¬Viable ((before ++ [l]).map Lexeme.token) →
      fault.Blames l.token → Outcome lexemes (.error ⟨fault, l.span⟩)

/-- What derives is read to the end of a form. -/
theorem DerivesAll.place_eq_top {lexemes : List Lexeme} {ds : List Datum} {r : Reading}
    (h : DerivesAll (lexemes.map Lexeme.token) ds)
    (hread : Reading.start.readAll lexemes = .ok r) : r.place = .top := by
  obtain ⟨r', hr', hplace, -⟩ := h.exists_readAll_top rfl Reading.start
  have hstart : Reading.start.atPlace .top = Reading.start := rfl
  rw [hstart, hread] at hr'
  rwa [Except.ok.inj hr']

theorem Reading.misplaced {lexemes : List Lexeme} (ht : ∀ l ∈ lexemes, l.isTaken = true)
    {e : SyntaxError} (h : Reading.start.readAll lexemes = .error e) :
    Outcome lexemes (.error e) := by
  obtain ⟨before, item, after, r, hmap, hbefore, hitem⟩ := exists_of_read_eq_error h
  obtain ⟨before, rest, rfl, rfl, hrest⟩ := List.map_eq_append_iff.1 hmap
  obtain ⟨l, after, rfl, rfl, rfl⟩ := List.map_eq_cons_iff.1 hrest
  have htl : l.isTaken = true := ht l (by simp)
  have htbefore : ∀ l ∈ before, l.isTaken = true := fun l hl => ht l (by simp [hl])
  have hderived : r.DerivedBy (before.map Lexeme.token) := by
    simpa using Reading.derivedBy_start.readAll htbefore hbefore
  have htake : r.place.take l = .error e := by
    rw [step_ok_of_isTaken htl] at hitem
    cases htake : r.place.take l with
    | ok step => simp [htake, Except.map] at hitem
    | error e' => simpa [htake, Except.map] using hitem
  obtain ⟨hspan, hblames⟩ := Place.blames_of_take_eq_error htl htake
  have hnot : ¬Viable ((before ++ [l]).map Lexeme.token) := by
    intro hviable
    obtain ⟨r', hr'⟩ := hviable.exists_readAll
    have herror : Reading.start.readAll (before ++ [l]) = .error e := by
      rw [readAll_append_of_ok hbefore]
      simp [readAll, read_cons, hitem, Except.bind]
    simp [herror] at hr'
  obtain ⟨fault, span⟩ := e
  obtain rfl : span = l.span := hspan
  exact .misplaced rfl hderived.viable hnot hblames

theorem Program.outcome {c : Cursor} (hc : ∀ item ∈ c.items, item.isOk = true) :
    Outcome c.lexemes (Program.ofCursor c) := by
  obtain ⟨comments, offset, hprogram⟩ := Program.exists_ofCursor_eq hc
  have htaken : ∀ l ∈ c.lexemes, l.isTaken = true := isTaken_of_mem_taken
  rw [hprogram]
  cases hread : Reading.start.readAll c.lexemes with
  | error e => exact Reading.misplaced htaken hread
  | ok r =>
    have hderived : r.DerivedBy (c.lexemes.map Lexeme.token) := by
      simpa using Reading.derivedBy_start.readAll htaken hread
    by_cases hplace : r.place = .top
    · have hcommented : (r.commented comments).place = .top := hplace
      rw [Except.bind, Reading.ending_of_top hcommented]
      exact .program (hderived.derivesAll hplace)
    · have hcommented : (r.commented comments).place ≠ .top := hplace
      rw [Except.bind, Reading.ending_of_ne_top hcommented]
      exact .unfinished hderived.viable fun ds hds => hplace (hds.place_eq_top hread)

/-- No token sequence denotes two rows of data. -/
theorem DerivesAll.unique {tokens : List Token} {ds ds' : List Datum} (h : DerivesAll tokens ds)
    (h' : DerivesAll tokens ds') : ds = ds' := by
  have hmap : (tokens.map fun t => (⟨t, .point 0⟩ : Lexeme)).map Lexeme.token = tokens := by
    simp [Function.comp_def]
  obtain ⟨r, hr, -, hdata⟩ := h.exists_readAll_top hmap Reading.start
  obtain ⟨r', hr', -, hdata'⟩ := h'.exists_readAll_top hmap Reading.start
  obtain rfl : r = r' := by simpa [hr] using hr'
  simpa [Reading.data, Reading.start] using hdata.symm.trans hdata'

theorem Viable.iff_le {before : List Token} {t : Token} (h : Viable before)
    (hnot : ¬Viable (before ++ [t])) (after : List Token) (j : Nat) :
    Viable ((before ++ t :: after).take j) ↔ j ≤ before.length := by
  constructor
  · intro hviable
    by_contra hlt
    have htake : ((before ++ t :: after).take j).take (before.length + 1) = before ++ [t] := by
      rw [List.take_take, Nat.min_eq_left (by omega), List.take_append]
      simp
    exact hnot (htake ▸ hviable.take)
  · intro hle
    rw [List.take_append_of_le_length hle]
    exact h.take

/-- How the grammar decides what a text is read as. -/
structure ReadByGrammar (source : String) : Prop where
  /-- The text is a program exactly when its tokens derive data, and it is that of these data. -/
  program : ∀ ds, (∃ p, Program.ofString source = .ok p ∧ p.data = ds) ↔
    DerivesAll (Cursor.ofString source).tokens ds
  /-- The end of the text is at fault exactly when the tokens are a proper beginning. -/
  unfinished : (∃ e, Program.ofString source = .error e ∧ e.fault = .unexpectedEnd) ↔
    (∀ ds, ¬DerivesAll (Cursor.ofString source).tokens ds) ∧
      ∃ rest ds, rest ≠ [] ∧ DerivesAll ((Cursor.ofString source).tokens ++ rest) ds
  /-- Any other error stands at the first token that no program has there. -/
  misplaced : ∀ e, Program.ofString source = .error e → e.fault ≠ .unexpectedEnd →
    ∃ k l, (Cursor.ofString source).lexemes[k]? = some l ∧
      (∀ j, Viable ((Cursor.ofString source).tokens.take j) ↔ j ≤ k) ∧
      e.span = l.span ∧ e.fault.Blames l.token

/-- The grammar alone decides what becomes of a text without lexical errors. -/
theorem readByGrammar_of_lexed {source : String}
    (hc : ∀ item ∈ (Cursor.ofString source).items, item.isOk = true) : ReadByGrammar source := by
  have hprogram : Program.ofString source = Program.ofCursor (Cursor.ofString source) := rfl
  have houtcome := Program.outcome hc
  have htokens : (Cursor.ofString source).tokens =
      (Cursor.ofString source).lexemes.map Lexeme.token := rfl
  suffices h : _ ∧ _ ∧ _ from ⟨h.1, h.2.1, h.2.2⟩
  rw [htokens, hprogram]
  generalize (Cursor.ofString source).lexemes = lexemes at houtcome ⊢
  generalize Program.ofCursor (Cursor.ofString source) = result at houtcome ⊢
  cases houtcome with
  | program hderives =>
    refine ⟨fun ds => ⟨?_, fun hds => ⟨_, rfl, hderives.unique hds⟩⟩, ⟨?_, ?_⟩, ?_⟩
    · rintro ⟨_, ⟨⟩, rfl⟩
      exact hderives
    · rintro ⟨_, ⟨⟩, -⟩
    · rintro ⟨hnot, -⟩
      exact absurd hderives (hnot _)
    · rintro _ ⟨⟩
  | unfinished hviable hnot =>
    refine ⟨fun ds => ⟨?_, fun hds => absurd hds (hnot ds)⟩, ⟨?_, ?_⟩, ?_⟩
    · rintro ⟨_, ⟨⟩, -⟩
    · rintro -
      obtain ⟨rest, ds, hds⟩ := hviable
      refine ⟨hnot, rest, ds, ?_, hds⟩
      rintro rfl
      exact hnot ds (by simpa using hds)
    · rintro -
      exact ⟨_, rfl, rfl⟩
    · rintro _ ⟨⟩ hfault
      exact absurd rfl hfault
  | @misplaced before l after fault hsplit hviable hnot hblames =>
    have hmap : lexemes.map Lexeme.token =
        before.map Lexeme.token ++ l.token :: after.map Lexeme.token := by
      simp [hsplit]
    have htakes := hviable.iff_le (by simpa using hnot) (after.map Lexeme.token)
    rw [← hmap] at htakes
    have hbad : ¬Viable (lexemes.map Lexeme.token) := by
      intro hall
      have := (htakes (before.length + 1)).1 hall.take
      simp at this
    refine ⟨fun ds => ⟨?_, fun hds => absurd ⟨[], ds, by simpa using hds⟩ hbad⟩, ⟨?_, ?_⟩, ?_⟩
    · rintro ⟨_, ⟨⟩, -⟩
    · rintro ⟨_, ⟨⟩, rfl⟩
      cases hblames
    · rintro ⟨-, rest, ds, -, hds⟩
      exact absurd ⟨rest, ds, hds⟩ hbad
    · rintro _ ⟨⟩ -
      exact ⟨before.length, l, by simp [hsplit], by simpa using htakes, rfl, hblames⟩

/-- A list in which a second datum follows the dot. -/
def twoTails : String := "'(a . (b \"c\")) ; the end\n(1 . 2 3)"

theorem readByGrammar_twoTails :
    (∀ item ∈ (Cursor.ofString twoTails).items, item.isOk = true) ∧ ReadByGrammar twoTails :=
  have hc : ∀ item ∈ (Cursor.ofString twoTails).items, item.isOk = true := by decide +kernel
  ⟨hc, readByGrammar_of_lexed hc⟩

end Texts

end FrameLisp.Source
