import FrameLisp.Proofs.Source.Chunks
import FrameLisp.Proofs.Source.Outcome
import FrameLisp.Proofs.Source.Spelled

/-!
# Texts that can be completed

A text that ends within a form can be completed: by an empty list where a datum is still to come,
and by the parentheses that are missing. A string that is open at the end of the text can always be
closed, but that completes the text only where a string may stand. Behind the last datum of a dotted
list none may, so that there a string is unterminated and yet no further text can mend it.
-/
namespace FrameLisp.Source

section Strings

variable {start offset : Nat} {value : String} {cs : List Char}

/-- A character and a quote close an open string, also where it ends with a backslash. -/
theorem exists_scanString_closed
    (h : Item.isOpen (Cursor.scanString start value offset cs).1 = true) :
    ∃ v span offset', ∀ rest, Cursor.scanString start value offset (cs ++ 'n' :: '"' :: rest) =
      (.ok ⟨.string v, span⟩, ⟨offset', rest⟩) := by
  fun_induction Cursor.scanString start value offset cs with
  | case1 => exact ⟨_, _, _, fun rest => rfl⟩
  | case2 => simp [Item.isOpen] at h
  | case3 => exact ⟨_, _, _, fun rest => rfl⟩
  | case4 value offset c cs d hd ih =>
    obtain ⟨v, span, offset', hscan⟩ := ih h
    refine ⟨v, span, offset', fun rest => ?_⟩
    rw [List.cons_append, List.cons_append, Cursor.scanString, hd]
    exact hscan rest
  | case5 value offset c cs hc => simp [Item.isOpen] at h
  | case6 value offset c cs hquote hlast hescape ih =>
    have hbackslash := Cursor.ne_backslash hlast hescape
    obtain ⟨v, span, offset', hscan⟩ := ih h
    refine ⟨v, span, offset', fun rest => ?_⟩
    rw [List.cons_append, Cursor.scanString_cons start value offset hquote hbackslash]
    exact hscan rest

/-- A string that is open reaches to the end of the text. -/
theorem rest_scanString_of_isOpen
    (h : Item.isOpen (Cursor.scanString start value offset cs).1 = true) :
    (Cursor.scanString start value offset cs).2.rest = [] := by
  fun_induction Cursor.scanString start value offset cs with
  | case1 => rfl
  | case2 => simp [Item.isOpen] at h
  | case3 => rfl
  | case4 value offset c cs d hd ih => exact ih h
  | case5 value offset c cs hc => simp [Item.isOpen] at h
  | case6 value offset c cs _ _ _ ih => exact ih h

theorem Cursor.rest_scan_of_isOpen {c : Cursor} (h : Item.isOpen c.scan.1 = true) :
    c.scan.2.rest = [] := by
  obtain ⟨start, cs, -, -, hscan, -⟩ := exists_scan_eq_scanString h
  exact hscan ▸ rest_scanString_of_isOpen (hscan ▸ h)

/-- A string that ends is a string. -/
theorem exists_scanString_eq_ok {l : Lexeme}
    (h : (Cursor.scanString start value offset cs).1 = .ok l) : ∃ v, l.token = .string v := by
  fun_induction Cursor.scanString start value offset cs with
  | case1 => cases h
  | case2 value offset cs => exact ⟨value, by rw [← Except.ok.inj h]⟩
  | case3 => cases h
  | case4 value offset c cs d hd ih => exact ih h
  | case5 value offset c cs hc => cases h
  | case6 value offset c cs _ _ _ ih => exact ih h

end Strings

section Parentheses

/-- A text of parentheses, and its tokens. -/
def parens (j k : Nat) : List Char := List.replicate j '(' ++ List.replicate k ')'

def parenTokens (j k : Nat) : List Token :=
  List.replicate j .leftParen ++ List.replicate k .rightParen

theorem spells_parens (j k : Nat) : Spells (parens j k) (parenTokens j k) := by
  induction j with
  | zero =>
    induction k with
    | zero => exact spells_nil
    | succ k ih =>
      have hbreaks : Breaks (parens 0 k) := by
        cases k with
        | zero => simp [parens, Breaks]
        | succ k => exact breaks_cons rfl _
      exact spells_rightParen.append ih hbreaks
  | succ j ih => exact ih.leftParen

theorem isTaken_of_mem_parenTokens {j k : Nat} {l : Lexeme} (h : l.token ∈ parenTokens j k) :
    l.isTaken = true := by
  rcases List.mem_append.1 h with h | h
  · simp [Lexeme.isTaken, List.eq_of_mem_replicate h]
  · simp [Lexeme.isTaken, List.eq_of_mem_replicate h]

end Parentheses

section Readings

variable {r : Reading} {front : List Item}

/-- A text without lexical errors whose tokens derive data is a program. -/
theorem Program.exists_ofCursor_of_derivesAll {c : Cursor} {ds : List Datum}
    (hc : ∀ item ∈ c.items, item.isOk = true) (h : DerivesAll c.tokens ds) :
    ∃ p, Program.ofCursor c = .ok p := by
  obtain ⟨comments, offset, hprogram⟩ := Program.exists_ofCursor_eq hc
  obtain ⟨r, hr, hplace, -⟩ := h.exists_readAll_top rfl Reading.start
  have hread : Reading.start.readAll c.lexemes = .ok r := hr
  have hcommented : (r.commented comments).place = .top := hplace
  rw [hprogram, hread, Except.bind, Reading.ending_of_top hcommented]
  exact ⟨_, rfl⟩

/-- What was read was read by the lexemes that were taken. -/
theorem Reading.exists_readAll_of_read (hread : Reading.start.read front = .ok r)
    (hend : ∀ item ∈ front, ¬item.isEnd = true) :
    ∃ r', Reading.start.readAll (front.filterMap Item.taken?) = .ok r' ∧ r'.place = r.place := by
  have hfront : ∀ item ∈ front, item.isOk = true ∧ ¬item.isEnd = true := fun item hi =>
    ⟨Reading.isOk_of_read_eq_ok hread item hi, hend item hi⟩
  obtain ⟨comments, hcommented⟩ := Reading.read_eq_readAll hfront Reading.start
  rw [hread] at hcommented
  cases hall : Reading.start.readAll (front.filterMap Item.taken?) with
  | error e => simp [hall, Except.map] at hcommented
  | ok r' =>
    rw [hall] at hcommented
    obtain rfl := Except.ok.inj hcommented
    exact ⟨r', rfl, rfl⟩

theorem filterMap_taken_ok {lexemes : List Lexeme} (h : ∀ l ∈ lexemes, l.isTaken = true) :
    (lexemes.map Except.ok).filterMap Item.taken? = lexemes := by
  induction lexemes with
  | nil => rfl
  | cons l lexemes ih =>
    obtain ⟨hl, hrest⟩ := List.forall_mem_cons.1 h
    have htaken : Item.taken? (.ok l) = some l := if_pos hl
    rw [List.map_cons, List.filterMap_cons_some htaken, ih hrest]

/-- Behind what was read some parentheses complete the text. -/
theorem Program.exists_parens (hread : Reading.start.read front = .ok r)
    (hend : ∀ item ∈ front, ¬item.isEnd = true) : ∃ j k, ∀ (c : Cursor) offset cs,
      Spells cs (parenTokens j k) → c.items = front ++ (Cursor.mk offset cs).items →
        ∃ p, Program.ofCursor c = .ok p := by
  obtain ⟨r', hr', -⟩ := Reading.exists_readAll_of_read hread hend
  obtain ⟨j, k, ds, hds⟩ :=
    (Reading.derivedBy_start.readAll isTaken_of_mem_taken hr').exists_derivesAll
  refine ⟨j, k, fun c offset cs hcs hitems => ?_⟩
  obtain ⟨lexemes, offset', htokens, hspelled⟩ := hcs offset [] (by simp [Breaks])
  have hlast : (Cursor.mk offset' []).items = [.ok ⟨.endOfInput, .point offset'⟩] :=
    Cursor.items_of_isEnd rfl
  rw [List.append_nil, hlast] at hspelled
  rw [hspelled] at hitems
  have htaken : ∀ l ∈ lexemes, l.isTaken = true := fun l hl =>
    isTaken_of_mem_parenTokens (htokens ▸ List.mem_map_of_mem hl)
  have hlexemes : c.lexemes = front.filterMap Item.taken? ++ lexemes := by
    have hno : Item.taken? (.ok ⟨.endOfInput, .point offset'⟩) = none := rfl
    rw [Cursor.lexemes, hitems, List.filterMap_append, List.filterMap_append,
      filterMap_taken_ok htaken, List.filterMap_cons_none hno, List.filterMap_nil, List.append_nil]
  have hok : ∀ item ∈ c.items, item.isOk = true := by
    intro item hi
    rw [hitems] at hi
    rcases List.mem_append.1 hi with hi | hi
    · exact Reading.isOk_of_read_eq_ok hread item hi
    · rcases List.mem_append.1 hi with hi | hi
      · obtain ⟨l, -, rfl⟩ := List.mem_map.1 hi
        rfl
      · rw [List.mem_singleton.1 hi]
        rfl
  have hderives : DerivesAll c.tokens ds := by
    rw [Cursor.tokens, hlexemes, List.map_append, htokens]
    simpa [parenTokens] using hds
  exact Program.exists_ofCursor_of_derivesAll hok hderives

end Readings

section Places

/-- Tokens that may go on with a string. -/
def TakesString (tokens : List Token) : Prop := ∃ value, Viable (tokens ++ [.string value])

variable {r : Reading} {front : List Item} {l l' : Lexeme} {value value' : String}

theorem Lexeme.isTaken_of_string (hl : l.token = .string value) : l.isTaken = true := by
  simp [Lexeme.isTaken, hl]

/-- A place takes any string or none. -/
theorem Place.take_string {place : Place} {step : Place.Step} (hl : l.token = .string value)
    (hl' : l'.token = .string value') (h : place.take l = .ok step) :
    ∃ step', place.take l' = .ok step' := by
  cases place with
  | datum within =>
    have hatom : Place.atom? (.string value') = some (.string value') := rfl
    exact ⟨Place.finish l'.span (.string value') within, by simp only [Place.take, hl', hatom]⟩
  | closing => simp [Place.take, hl] at h

/-- Where a reading stands decides whether a string may follow. -/
theorem takesString_iff (hread : Reading.start.read front = .ok r)
    (hend : ∀ item ∈ front, ¬item.isEnd = true) (hl : l.token = .string value) :
    TakesString ((front.filterMap Item.taken?).map Lexeme.token) ↔
      ∃ r', r.step (.ok l) = .ok r' := by
  obtain ⟨r', hr', hplace⟩ := Reading.exists_readAll_of_read hread hend
  have hstep : r.step (.ok l) = (r'.place.take l).map r.settle := by
    rw [Reading.step_ok_of_isTaken (Lexeme.isTaken_of_string hl), hplace]
  rw [hstep]
  constructor
  · rintro ⟨v, hviable⟩
    obtain ⟨l', hl'⟩ : ∃ l' : Lexeme, l'.token = .string v := ⟨⟨.string v, .point 0⟩, rfl⟩
    have hlexemes : Viable ((front.filterMap Item.taken? ++ [l']).map Lexeme.token) := by
      simpa [hl'] using hviable
    obtain ⟨r'', hr''⟩ := hlexemes.exists_readAll
    rw [Reading.readAll_append_of_ok hr', Reading.readAll, List.map_singleton, Reading.read_cons,
      Reading.step_ok_of_isTaken (Lexeme.isTaken_of_string hl')] at hr''
    cases htake : r'.place.take l' with
    | error e => simp [htake, Except.map, Except.bind] at hr''
    | ok step =>
      obtain ⟨step', hstep'⟩ := Place.take_string hl' hl htake
      exact ⟨_, by rw [hstep']; rfl⟩
  · rintro ⟨r'', hr''⟩
    cases htake : r'.place.take l with
    | error e => simp [htake, Except.map] at hr''
    | ok step =>
      have hderived := (Reading.derivedBy_start.readAll isTaken_of_mem_taken hr').settle htake
      exact ⟨value, by simpa [hl] using hderived.viable⟩

/-- An incomplete text has run out: between tokens, or in a string. -/
theorem Reading.isEnd_or_isOpen {item : Item} {e : SyntaxError} (h : r.step item = .error e)
    (hinc : e.isIncomplete = true) :
    item.isEnd = true ∧ e.fault = .unexpectedEnd ∨
      item.isOpen = true ∧ e.fault ≠ .unexpectedEnd := by
  rcases cases_of_step_eq_error h with
    ⟨le, rfl, rfl⟩ | ⟨span, rfl, rfl⟩ | ⟨l, -, -, -, hblames⟩
  · exact .inr ⟨by simpa [SyntaxError.isIncomplete, SyntaxError.ofLexical, Item.isOpen] using hinc,
      by simp [SyntaxError.ofLexical]⟩
  · exact .inl ⟨rfl, rfl⟩
  · simp [hblames.isIncomplete] at hinc

end Places

section Completion

/-- A text that has run out between tokens can be completed. -/
theorem Program.exists_completion_of_isEnd {c c' : Cursor} {before : List Item} {r : Reading}
    (hreaches : c.Reaches before c') (hread : Reading.start.read before = .ok r)
    (hshort : ∀ i ∈ before, ¬i.isEnd = true ∧ ¬i.isOpen = true)
    (hend : c'.scan.1.isEnd = true) : ∃ t p, Program.ofCursor (c.append t) = .ok p := by
  obtain ⟨j, k, hcomplete⟩ := Program.exists_parens hread fun i hi => (hshort i hi).1
  have hblank : ∀ x ∈ c'.rest ++ ['\n'], Text.isBlank x = true := by
    intro x hx
    rcases List.mem_append.1 hx with hx | hx
    · exact Cursor.all_isBlank_of_isEnd hend x hx
    · rw [List.mem_singleton.1 hx]
      decide
  have hlong := hreaches.append (t := '\n' :: parens j k) (.inl (.inr (.inr rfl))) fun i hi =>
    (hshort i hi).2
  obtain ⟨p, hp⟩ := hcomplete _ c'.offset _ ((spells_parens j k).blank hblank) (by
    rw [hlong.items, Cursor.append, List.append_assoc]
    rfl)
  exact ⟨_, p, hp⟩

/-- A text that has run out in a string can be completed where a string may stand. -/
theorem Program.exists_completion_of_isOpen {c c' : Cursor} {before : List Item} {r : Reading}
    (hreaches : c.Reaches before c') (hread : Reading.start.read before = .ok r)
    (hshort : ∀ i ∈ before, ¬i.isEnd = true ∧ ¬i.isOpen = true)
    (hopen : Item.isOpen c'.scan.1 = true)
    (htakes : TakesString ((before.filterMap Item.taken?).map Lexeme.token)) :
    ∃ t p, Program.ofCursor (c.append t) = .ok p := by
  obtain ⟨start, cs, hsuffix, -, hscan, hlonger⟩ := Cursor.exists_scan_eq_scanString hopen
  have hne : c'.rest ≠ [] := List.ne_nil_of_mem (hsuffix.subset List.mem_cons_self)
  obtain ⟨v, span, offset', hclosed⟩ := exists_scanString_closed (hscan ▸ hopen)
  obtain ⟨r', hr'⟩ := (takesString_iff (l := ⟨.string v, span⟩) hread
    (fun i hi => (hshort i hi).1) rfl).1 htakes
  have hread' : Reading.start.read (before ++ [.ok ⟨.string v, span⟩]) = .ok r' := by
    rw [Reading.read_append_of_ok hread, Reading.read_cons, hr']
    rfl
  obtain ⟨j, k, hcomplete⟩ := Program.exists_parens hread' fun i hi => by
    rcases List.mem_append.1 hi with hi | hi
    · exact (hshort i hi).1
    · rw [List.mem_singleton.1 hi]
      simp [Item.isEnd]
  have hlong := hreaches.append (t := 'n' :: '"' :: parens j k) (.inr hne) fun i hi =>
    (hshort i hi).2
  have hstring : (c'.append ('n' :: '"' :: parens j k)).scan =
      (.ok ⟨.string v, span⟩, ⟨offset', parens j k⟩) := by rw [hlonger, hclosed]
  obtain ⟨p, hp⟩ := hcomplete _ offset' _ (spells_parens j k) (by
    rw [hlong.items, Cursor.items_of_not_isEnd (by rw [hstring]; simp [Item.isEnd]), hstring,
      List.append_assoc]
    rfl)
  exact ⟨_, p, hp⟩

/-- What completes a text that has run out in a string has closed the string where one may stand. -/
theorem Program.takesString_of_completion {c c' : Cursor} {before : List Item} {r : Reading}
    (hreaches : c.Reaches before c') (hread : Reading.start.read before = .ok r)
    (hshort : ∀ i ∈ before, ¬i.isEnd = true ∧ ¬i.isOpen = true)
    (hopen : Item.isOpen c'.scan.1 = true) {t : List Char} {p : Program}
    (hp : Program.ofCursor (c.append t) = .ok p) :
    TakesString ((before.filterMap Item.taken?).map Lexeme.token) := by
  obtain ⟨start, cs, hsuffix, -, -, hlonger⟩ := Cursor.exists_scan_eq_scanString hopen
  have hne : c'.rest ≠ [] := List.ne_nil_of_mem (hsuffix.subset List.mem_cons_self)
  have hlong := hreaches.append (t := t) (.inr hne) fun i hi => (hshort i hi).2
  obtain ⟨after, hscan⟩ := (c'.append t).exists_items_eq_cons
  have hstep : ∃ r', r.step (c'.append t).scan.1 = .ok r' := by
    rw [Program.ofCursor_eq, hlong.items, hscan, Reading.read_append_of_ok hread,
      Reading.read_cons] at hp
    cases hstep : r.step (c'.append t).scan.1 with
    | ok r' => exact ⟨r', rfl⟩
    | error e => simp [hstep, Except.bind, Except.map] at hp
  rw [hlonger] at hstep
  cases hitem : (Cursor.scanString start "" (start + 1) (cs ++ t)).1 with
  | error e =>
    obtain ⟨r', hr'⟩ := hstep
    simp [hitem, Reading.step, Reading.advance] at hr'
  | ok l =>
    obtain ⟨v, hl⟩ := exists_scanString_eq_ok hitem
    rw [hitem] at hstep
    exact (takesString_iff hread (fun i hi => (hshort i hi).1) hl).2 hstep

/-- Nothing is taken of a string that is open. -/
theorem Cursor.Reaches.lexemes_of_isOpen {c c' : Cursor} {before : List Item}
    (hreaches : c.Reaches before c') (hopen : Item.isOpen c'.scan.1 = true) :
    c.lexemes = before.filterMap Item.taken? := by
  have hrest := rest_scan_of_isOpen hopen
  obtain ⟨e, he⟩ : ∃ e, c'.scan.1 = .error e := by
    cases hitem : c'.scan.1 with
    | error e => exact ⟨e, rfl⟩
    | ok l => simp [hitem, Item.isOpen] at hopen
  have hlast : c'.scan.2.items = [.ok ⟨.endOfInput, .point c'.scan.2.offset⟩] := by
    generalize c'.scan.2 = last at hrest
    obtain ⟨offset, rest⟩ := last
    obtain rfl : rest = [] := hrest
    exact items_of_isEnd rfl
  have hitems : c'.items = [.error e, .ok ⟨.endOfInput, .point c'.scan.2.offset⟩] := by
    rw [items_of_not_isEnd (by simp [he, Item.isEnd]), he, hlast]
  rw [lexemes, hreaches.items, hitems, List.filterMap_append]
  simp [Item.taken?, Lexeme.isTaken]

variable {s t : String} {e : SyntaxError} {p : Program}

theorem Program.exists_reaches_of_isIncomplete (he : Program.ofString s = .error e)
    (hinc : e.isIncomplete = true) : ∃ before r c', (Cursor.ofString s).Reaches before c' ∧
      Reading.start.read before = .ok r ∧
      (∀ i ∈ before, ¬i.isEnd = true ∧ ¬i.isOpen = true) ∧
      (c'.scan.1.isEnd = true ∧ e.fault = .unexpectedEnd ∨
        Item.isOpen c'.scan.1 = true ∧ e.fault ≠ .unexpectedEnd) := by
  have hprogram : Program.ofCursor (Cursor.ofString s) = .error e := he
  obtain ⟨before, item, after, r, hitems, hbefore, hitem, hshort⟩ :=
    Program.exists_of_ofCursor_eq_error hprogram
  obtain ⟨c', hreaches, hback⟩ := Cursor.exists_reaches hitems fun i hi => (hshort i hi).1
  obtain ⟨after', hscan⟩ := c'.exists_items_eq_cons
  obtain ⟨rfl, -⟩ := List.cons.inj (hback.symm.trans hscan)
  exact ⟨before, r, c', hreaches, hbefore, hshort, Reading.isEnd_or_isOpen hitem hinc⟩

theorem Program.ofString_append (s : String) (t : List Char) :
    Program.ofString (s ++ String.ofList t) = Program.ofCursor ((Cursor.ofString s).append t) := by
  rw [Program.ofString, String.toList_append, String.toList_ofList]
  rfl

/-- A text that has run out in a string is completed only where a string may stand. -/
theorem Program.takesString_of_append (he : Program.ofString s = .error e)
    (hinc : e.isIncomplete = true) (hfault : e.fault ≠ .unexpectedEnd)
    (hp : Program.ofString (s ++ t) = .ok p) : TakesString (Cursor.ofString s).tokens := by
  obtain ⟨before, r, c', hreaches, hbefore, hshort, ⟨-, hend⟩ | ⟨hopen, -⟩⟩ :=
    Program.exists_reaches_of_isIncomplete he hinc
  · exact absurd hend hfault
  · rw [← String.ofList_toList (s := t), Program.ofString_append] at hp
    rw [Cursor.tokens, hreaches.lexemes_of_isOpen hopen]
    exact takesString_of_completion hreaches hbefore hshort hopen hp

/-- A text that has run out can be completed exactly if it has not run out in a string, or if a
string may stand there. -/
theorem Program.completable_iff (he : Program.ofString s = .error e)
    (hinc : e.isIncomplete = true) : (∃ t p, Program.ofString (s ++ t) = .ok p) ↔
      e.fault = .unexpectedEnd ∨ TakesString (Cursor.ofString s).tokens := by
  constructor
  · rintro ⟨t, p, hp⟩
    exact or_iff_not_imp_left.2 fun hfault => takesString_of_append he hinc hfault hp
  · intro h
    suffices ∃ t p, Program.ofCursor ((Cursor.ofString s).append t) = .ok p by
      obtain ⟨t, p, hp⟩ := this
      exact ⟨String.ofList t, p, by rw [ofString_append, hp]⟩
    obtain ⟨before, r, c', hreaches, hbefore, hshort, ⟨hend, -⟩ | ⟨hopen, hfault⟩⟩ :=
      Program.exists_reaches_of_isIncomplete he hinc
    · exact exists_completion_of_isEnd hreaches hbefore hshort hend
    · have htakes := h.resolve_left hfault
      rw [Cursor.tokens, hreaches.lexemes_of_isOpen hopen] at htakes
      exact exists_completion_of_isOpen hreaches hbefore hshort hopen htakes

/-- A string that ends with a backslash, as the last datum of a quoted dotted list. -/
def brokenTail : String := "'(a . \"b\\"

theorem completable_brokenTail : ∃ e, Program.ofString brokenTail = .error e ∧
    e.isIncomplete = true ∧ ((∃ t p, Program.ofString (brokenTail ++ t) = .ok p) ↔
      e.fault = .unexpectedEnd ∨ TakesString (Cursor.ofString brokenTail).tokens) := by
  have he : Program.ofString brokenTail =
      .error ⟨.lexical ⟨.unterminatedString, ⟨6, 9⟩⟩, ⟨6, 9⟩⟩ := by with_unfolding_all rfl
  exact ⟨_, he, rfl, Program.completable_iff he rfl⟩

/-- A string behind the last datum of a dotted list. -/
def behindTail : String := "(a . b \""

/-- The string is unterminated, which further text might mend, but no further text does. -/
theorem not_completable_behindTail : ∃ e, Program.ofString behindTail = .error e ∧
    e.isIncomplete = true ∧ ∀ t p, Program.ofString (behindTail ++ t) ≠ .ok p := by
  have he : Program.ofString behindTail =
      .error ⟨.lexical ⟨.unterminatedString, ⟨7, 8⟩⟩, ⟨7, 8⟩⟩ := by with_unfolding_all rfl
  refine ⟨_, he, rfl, fun t p hp => ?_⟩
  obtain ⟨v, hviable⟩ := Program.takesString_of_append he rfl (by simp) hp
  have htokens : (Cursor.ofString behindTail).tokens =
      [.leftParen, .symbol "a", .dot, .symbol "b"] := by with_unfolding_all rfl
  rw [htokens] at hviable
  have hlexemes : Viable ([⟨.leftParen, .point 0⟩, ⟨.symbol "a", .point 1⟩, ⟨.dot, .point 3⟩,
      ⟨.symbol "b", .point 5⟩, ⟨.string v, .point 7⟩].map Lexeme.token) := hviable
  obtain ⟨r, hr⟩ := hlexemes.exists_readAll
  cases hr

end Completion

end FrameLisp.Source
