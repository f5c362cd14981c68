import FrameLisp.Proofs.Source.Outcome
import FrameLisp.Proofs.Source.Shift
import FrameLisp.Proofs.Text.Decoding

/-!
# A text in chunks

Gathering lines until they can be read cuts a text where it can be read up to. So the chunks of a
text hold the forms of the whole of it, in order, and a text that cannot be read has one chunk that
cannot be read, behind chunks that hold the forms of a beginning of the text.
-/
namespace FrameLisp.Source

open Text

section Blank

theorem Cursor.isEnd_of_all_isBlank {c : Cursor} (h : ∀ x ∈ c.rest, isBlank x = true) :
    c.scan.1.isEnd = true := by
  have hrest : (c.skip isBlank).rest = [] := by
    rw [skip_eq]
    exact List.dropWhile_eq_nil_iff.2 h
  simp [scan, scanToken, hrest, Item.isEnd]

/-- White space is a program without forms. -/
theorem Program.ofChars_blank {cs : List Char} (h : ∀ x ∈ cs, isBlank x = true) :
    Program.ofChars cs = .ok ⟨[], []⟩ := by
  have hend : (Cursor.mk 0 cs).scan.1.isEnd = true := Cursor.isEnd_of_all_isBlank h
  obtain ⟨span, hspan⟩ := Cursor.Item.eq_of_isEnd hend
  rw [Program.ofChars, Program.ofCursor_eq, Cursor.items_of_isEnd hend, hspan, Reading.read_cons,
    Reading.step_end, Reading.ending_of_top rfl]
  rfl

theorem Program.ofChars_nil : Program.ofChars [] = .ok ⟨[], []⟩ := ofChars_blank (by simp)

@[simp] theorem Program.data_shift (k : Nat) (p : Program) : (p.shift k).data = p.data := by
  simp [Program.shift, Program.data, Form.shift]

@[simp] theorem Program.data_append (p q : Program) : (p.append q).data = p.data ++ q.data := by
  simp [Program.append, Program.data]

/-- The forms of a text that was read are those of the whole text up to there. -/
theorem Program.exists_ofChars_append {a t : List Char} {p q : Program} (hseam : Seam a t)
    (hp : Program.ofChars a = .ok p) (hq : Program.ofChars t = .ok q) :
    ∃ r, Program.ofChars (a ++ t) = .ok r ∧ r.data = p.data ++ q.data := by
  rw [Program.ofChars_append hseam hp, hq]
  exact ⟨_, rfl, by simp⟩

theorem Program.exists_ofChars_append_eq_error {a t : List Char} {p : Program} {e : SyntaxError}
    (hseam : Seam a t) (hp : Program.ofChars a = .ok p) (he : Program.ofChars t = .error e) :
    ∃ e', Program.ofChars (a ++ t) = .error e' := by
  rw [Program.ofChars_append hseam hp, he]
  exact ⟨_, rfl⟩

end Blank

section Newline

/-- How an open string that begins at `start` is at fault when its last line is ended, if `cs` are
its characters from `offset` on: it stays open, unless a backslash stands before the newline. -/
inductive LexicalError.Prolongs (start offset : Nat) (cs : List Char) : LexicalError → Prop
  | unterminated {stop} : Prolongs start offset cs ⟨.unterminatedString, ⟨start, stop⟩⟩
  | escape {front stop} : cs = front ++ ['\\'] →
      Prolongs start offset cs ⟨.unknownEscape '\n', ⟨offset + width front, stop⟩⟩

theorem LexicalError.Prolongs.cons {start offset : Nat} {c : Char} {cs : List Char}
    {e : LexicalError} (h : e.Prolongs start (offset + c.utf8Size) cs) :
    e.Prolongs start offset (c :: cs) := by
  cases h with
  | unterminated => exact .unterminated
  | @escape front stop hfront =>
    have hescape := @escape start offset (c :: cs) (c :: front) stop (by rw [hfront]; rfl)
    rwa [width_cons, ← Nat.add_assoc] at hescape

/-- A newline does not end a string that is open, and a backslash before it is a fault. -/
theorem Cursor.exists_scanString_newline {start : Nat} {value : String} {offset : Nat}
    {cs : List Char} (h : Item.isOpen (scanString start value offset cs).1 = true) :
    ∃ stop e, (scanString start value offset cs).1 = .error ⟨.unterminatedString, ⟨start, stop⟩⟩ ∧
      (scanString start value offset (cs ++ ['\n'])).1 = .error e ∧ e.Prolongs start offset cs := by
  fun_induction scanString start value offset cs with
  | case1 => exact ⟨_, _, rfl, rfl, .unterminated⟩
  | case2 => simp [Item.isOpen] at h
  | case3 => exact ⟨_, _, rfl, rfl, .escape (List.nil_append _).symm⟩
  | case4 value offset c cs d hd ih =>
    rw [List.cons_append, List.cons_append, scanString, hd]
    obtain ⟨stop, e, hopen, hlong, he⟩ := ih h
    refine ⟨stop, e, hopen, hlong, .cons (.cons ?_)⟩
    exact he
  | case5 value offset c cs hc => simp [Item.isOpen] at h
  | case6 value offset c cs hquote hlast hescape ih =>
    have hbackslash := ne_backslash hlast hescape
    rw [List.cons_append, scanString_cons start value offset hquote hbackslash]
    obtain ⟨stop, e, hopen, hlong, he⟩ := ih h
    exact ⟨stop, e, hopen, hlong, he.cons⟩

theorem not_unterminated_of_fraction? {cs cs' : List Char} :
    fraction? cs cs' ≠ .error .unterminatedString := by
  intro h
  simp only [fraction?] at h
  split at h
  · split at h
    · split at h
      · split at h <;> simp at h
      · simp at h
    · simp at h
  · simp at h

theorem not_unterminated_of_number? {cs : List Char} :
    number? cs ≠ .error .unterminatedString := by
  intro h
  simp only [number?] at h
  generalize (if cs.head? = some '+' then cs.drop 1 else cs) = unsigned at h
  split at h
  · exact not_unterminated_of_fraction? h
  · split at h <;> simp at h

/-- Nothing but a string is open at the end of a text. -/
theorem not_unterminated_of_classify {cs : List Char} :
    classify cs ≠ .error .unterminatedString := by
  intro h
  simp only [classify] at h
  split at h
  · simp at h
  · split at h <;> simp at h
  · split at h
    · split at h
      · next hnumber =>
        obtain rfl := Except.error.inj h
        exact not_unterminated_of_number? hnumber
      · simp at h
      · simp at h
    · simp at h

theorem Cursor.exists_rest_of_isOpen {c : Cursor} (h : Item.isOpen c.scanToken.1 = true) :
    ∃ cs, c.rest = '"' :: cs := by
  unfold scanToken at h
  split at h
  case h_1 => simp [Item.isOpen] at h
  case h_2 => simp [Item.isOpen] at h
  case h_3 => simp [Item.isOpen] at h
  case h_4 => simp [Item.isOpen] at h
  case h_5 => simp [Item.isOpen] at h
  case h_6 cs hrest => exact ⟨cs, hrest⟩
  case h_7 =>
    rw [scanAtom] at h
    split at h
    · simp [Item.isOpen] at h
    · next fault hfault =>
      obtain rfl : fault = .unterminatedString := by simpa [Item.isOpen] using h
      exact absurd hfault not_unterminated_of_classify

/-- A string that is open goes on through whatever is appended. -/
theorem Cursor.exists_scan_eq_scanString {c : Cursor} (h : Item.isOpen c.scan.1 = true) :
    ∃ start cs, '"' :: cs <:+ c.rest ∧ start + 1 + width cs = c.bound ∧
      c.scan = scanString start "" (start + 1) cs ∧
      ∀ t, (c.append t).scan = scanString start "" (start + 1) (cs ++ t) := by
  obtain ⟨cs, hrest⟩ := exists_rest_of_isOpen h
  have hsuffix : '"' :: cs <:+ c.rest := hrest ▸ skip_rest_suffix isBlank c
  have hmem : '"' ∈ c.rest := hsuffix.subset List.mem_cons_self
  have hbound := bound_skip isBlank c
  rw [bound, hrest, width_cons] at hbound
  have hscan : ∀ t, (c.append t).scan =
      scanString (c.skip isBlank).offset "" ((c.skip isBlank).offset + 1) (cs ++ t) := by
    intro t
    rw [scan, skip_append (.inl ⟨'"', hmem, by decide⟩)]
    simp [scanToken, append, hrest]
  refine ⟨_, cs, hsuffix, ?_, ?_, hscan⟩
  · rw [← hbound, Nat.add_assoc]
    rfl
  · simpa [append] using hscan []

theorem Cursor.exists_items_eq_cons (c : Cursor) : ∃ after, c.items = c.scan.1 :: after := by
  by_cases hend : c.scan.1.isEnd = true
  · exact ⟨[], items_of_isEnd hend⟩
  · exact ⟨_, items_of_not_isEnd hend⟩

/-- What becomes of an error when the last line of its text is ended: it stays, unless the text had
run out. A text that ran out between tokens runs out behind the newline, and one that ran out in a
string is at fault as the string is. -/
inductive SyntaxError.Prolongs (cs : List Char) : SyntaxError → SyntaxError → Prop
  | final {e} : e.isIncomplete = false → Prolongs cs e e
  | unexpectedEnd : Prolongs cs ⟨.unexpectedEnd, .point (width cs)⟩
      ⟨.unexpectedEnd, .point (width cs + 1)⟩
  | unterminated {start stop stop'} :
      Prolongs cs (.ofLexical ⟨.unterminatedString, ⟨start, stop⟩⟩)
        (.ofLexical ⟨.unterminatedString, ⟨start, stop'⟩⟩)
  | escape {start stop stop' front} : cs = front ++ ['\\'] →
      Prolongs cs (.ofLexical ⟨.unterminatedString, ⟨start, stop⟩⟩)
        (.ofLexical ⟨.unknownEscape '\n', ⟨width front, stop'⟩⟩)

section Steps

variable {r : Reading} {c : Cursor} {cs : List Char} {e : SyntaxError}

theorem Reading.exists_step_of_isOpen (hrest : c.rest <:+ cs) (hbound : c.bound = width cs)
    (hopen : Item.isOpen c.scan.1 = true) (h : r.step c.scan.1 = .error e) :
    ∃ e', r.step (c.append ['\n']).scan.1 = .error e' ∧ e.Prolongs cs e' := by
  obtain ⟨start, text, hsuffix, hwidth, hscan, hlong⟩ := Cursor.exists_scan_eq_scanString hopen
  obtain ⟨stop, le, hopen, hitem, hprolongs⟩ := Cursor.exists_scanString_newline (hscan ▸ hopen)
  rw [hscan, hopen] at h
  cases h
  rw [hlong, hitem]
  refine ⟨.ofLexical le, rfl, ?_⟩
  cases hprolongs with
  | unterminated => exact .unterminated
  | @escape front stop' hfront =>
    -- the backslash is the last character of the text, too
    obtain ⟨before, rfl⟩ := (hsuffix.trans hrest)
    subst hfront
    have hstart : start + 1 + width front = width (before ++ '"' :: front) := by
      rw [hbound] at hwidth
      simp only [width_append, width_cons, width_nil] at hwidth ⊢
      omega
    rw [hstart]
    exact .escape (by simp)

/-- An item at which a reading fails is followed by no newline that would mend it. -/
theorem Reading.exists_step_eq_error (hrest : c.rest <:+ cs) (hbound : c.bound = width cs)
    (hseam : Seam c.rest ['\n']) (h : r.step c.scan.1 = .error e) :
    ∃ e', r.step (c.append ['\n']).scan.1 = .error e' ∧ e.Prolongs cs e' := by
  by_cases hopen : Item.isOpen c.scan.1 = true
  · exact exists_step_of_isOpen hrest hbound hopen h
  rcases cases_of_step_eq_error h with
    ⟨le, hitem, rfl⟩ | ⟨span, hitem, rfl⟩ | ⟨l, hitem, htaken, -, hblames⟩
  · have hend : ¬c.scan.1.isEnd = true := by simp [hitem, Item.isEnd]
    rw [Cursor.scan_append hseam hend hopen]
    refine ⟨_, h, .final ?_⟩
    simpa [hitem, Item.isOpen, SyntaxError.isIncomplete, SyntaxError.ofLexical] using hopen
  · have hend : c.scan.1.isEnd = true := by rw [hitem]; rfl
    have hblank : ∀ x ∈ (c.append ['\n']).rest, isBlank x = true := by
      intro x hx
      rcases List.mem_append.1 hx with hx | hx
      · exact Cursor.all_isBlank_of_isEnd hend x hx
      · rw [List.mem_singleton.1 hx]
        decide
    have hlong := Cursor.scan_of_isEnd (Cursor.isEnd_of_all_isBlank hblank)
    have hplace : r.place ≠ .top := by
      intro hplace
      rw [hitem, step_end, ending_of_top hplace] at h
      cases h
    rw [Cursor.scan_of_isEnd hend] at hitem
    cases hitem
    have hwidth : (c.append ['\n']).bound = width cs + 1 := by
      rw [← hbound, Cursor.bound, Cursor.bound, Cursor.append, width_append, Nat.add_assoc]
      rfl
    rw [hlong, step_end, ending_of_ne_top hplace, hwidth, hbound]
    exact ⟨_, rfl, .unexpectedEnd⟩
  · have hend : ¬c.scan.1.isEnd = true := by
      rw [hitem]
      exact fun hend => by simp_all [Item.isEnd, Lexeme.isTaken]
    rw [Cursor.scan_append hseam hend hopen]
    exact ⟨e, h, .final hblames.isIncomplete⟩

end Steps

theorem Program.exists_ofChars_newline_eq_error {cs : List Char} {e : SyntaxError}
    (he : Program.ofChars cs = .error e) :
    ∃ e', Program.ofChars (cs ++ ['\n']) = .error e' ∧ e.Prolongs cs e' := by
  obtain ⟨before, item, after, r, hitems, hbefore, hitem, hfront⟩ :=
    Program.exists_of_ofCursor_eq_error he
  obtain ⟨c, hreaches, hback⟩ := Cursor.exists_reaches hitems fun i hi => (hfront i hi).1
  obtain ⟨after', hscan⟩ := c.exists_items_eq_cons
  obtain ⟨rfl, -⟩ := List.cons.inj (hback.symm.trans hscan)
  have hseam : Seam cs ['\n'] := .inr (.inr rfl)
  have hbound : c.bound = width cs := by rw [hreaches.bound, Cursor.bound, Nat.zero_add]
  obtain ⟨e', he', hprolongs⟩ := Reading.exists_step_eq_error hreaches.rest_suffix hbound
    (hseam.suffix hreaches.rest_suffix) hitem
  have hlong := hreaches.append (.inl hseam) fun i hi => (hfront i hi).2
  obtain ⟨after'', hscan'⟩ := (c.append ['\n']).exists_items_eq_cons
  have hitems' := hlong.items
  rw [hscan'] at hitems'
  exact ⟨e', Program.ofCursor_eq_error hitems' hbefore he', hprolongs⟩

/-- Whether a newline ends the last line makes no difference to the forms. -/
theorem Program.exists_ofChars_newline {cs : List Char} {p : Program}
    (hp : Program.ofChars cs = .ok p) :
    ∃ q, Program.ofChars (cs ++ ['\n']) = .ok q ∧ q.data = p.data := by
  have hblank : Program.ofChars ['\n'] = .ok ⟨[], []⟩ :=
    Program.ofChars_blank (List.forall_mem_singleton.2 (by decide))
  obtain ⟨q, hq, hdata⟩ := Program.exists_ofChars_append (.inr (.inr rfl)) hp hblank
  exact ⟨q, hq, by simpa [Program.data] using hdata⟩

end Newline

namespace Chunk

/-- How a text may be cut: into its forms, or into the forms of a beginning and a piece that cannot
be read. -/
inductive Cuts (text : List Char) : List Chunk → Prop
  | forms {p : Program} {pieces : List (List Datum)} : Program.ofChars text = .ok p →
      pieces.flatten = p.data → Cuts text (pieces.map .forms)
  | unreadable {e : SyntaxError} {front back : List Char} {p : Program}
      {pieces : List (List Datum)} {source : List Char} {e' : SyntaxError} :
      Program.ofChars text = .error e → text = front ++ back → Program.ofChars front = .ok p →
      pieces.flatten = p.data → Program.ofChars source = .error e' →
      Cuts text (pieces.map .forms ++ [.unreadable (String.ofList source) e'])

/-- How complete lines are gathered: into the forms of all of them, or into the forms of some first
lines and a piece of the lines behind these, which has the error of all of them. The piece is a
beginning of these lines, and all of them if further text might have mended it. -/
inductive Gathers (text : List Char) : List Chunk → Prop
  | forms {p : Program} {pieces : List (List Datum)} : Program.ofChars text = .ok p →
      pieces.flatten = p.data → Gathers text (pieces.map .forms)
  | unreadable {front rest : List Char} {p : Program} {pieces : List (List Datum)}
      {source : List Char} {e : SyntaxError} : text = front ++ rest → IsWhole front →
      Program.ofChars front = .ok p → pieces.flatten = p.data → source <+: rest →
      (e.isIncomplete = true → source = rest) → Program.ofChars source = .error e →
      Program.ofChars rest = .error e →
      Gathers text (pieces.map .forms ++ [.unreadable (String.ofList source) e])

/-- A whole text is gathered before it is read. -/
theorem Gathers.of_error {text : List Char} {e : SyntaxError}
    (he : Program.ofChars text = .error e) :
    Gathers text [.unreadable (String.ofList text) e] :=
  @unreadable text [] text _ [] text e rfl (.inl rfl) Program.ofChars_nil rfl List.prefix_rfl
    (fun _ => rfl) he he

/-- Lines that were read as a whole are gathered, blank ones without making a chunk. -/
theorem Gathers.append {a text : List Char} {p : Program} {pieces : List (List Datum)}
    {chunks : List Chunk} (ha : IsWhole a) (hp : Program.ofChars a = .ok p)
    (hpieces : pieces.flatten = p.data) (h : Gathers text chunks) :
    Gathers (a ++ text) (pieces.map .forms ++ chunks) := by
  have hseam : ∀ t, Seam a t := fun t => ha.imp_right .inl
  cases h with
  | @forms q pieces' hq hdata =>
    obtain ⟨r, hr, hforms⟩ := Program.exists_ofChars_append (hseam text) hp hq
    rw [← List.map_append]
    exact .forms hr (by rw [List.flatten_append, hpieces, hdata, hforms])
  | @unreadable front rest q pieces' source e hsplit hfront hq hdata hsource hlast he hrest =>
    obtain ⟨r, hr, hforms⟩ := Program.exists_ofChars_append (hseam front) hp hq
    rw [← List.append_assoc, ← List.map_append]
    exact .unreadable (by rw [hsplit, List.append_assoc]) (ha.append hfront) hr
      (by rw [List.flatten_append, hpieces, hdata, hforms]) hsource hlast he hrest

/-- Lines behind a gathered text, which cannot be read yet, are gathered together with it. -/
theorem gathers_ofLines {lines : List (List UInt8)} {ls : List (List Char)}
    (hlines : lines.map decode? = ls.map some) {pending : List Char}
    (hpending : pending = [] ∨ ∃ e, Program.ofChars pending = .error e) :
    Gathers (pending ++ unlines ls) (ofLines pending lines) := by
  induction ls generalizing lines pending with
  | nil =>
    obtain rfl : lines = [] := by simpa using hlines
    rw [ofLines, unlines, List.flatMap_nil, List.append_nil]
    rcases hpending with rfl | ⟨e, he⟩
    · rw [Program.ofChars_nil]
      exact @Gathers.forms [] _ [] Program.ofChars_nil rfl
    · rw [he]
      exact .of_error he
  | cons l ls ih =>
    obtain ⟨line, lines, rfl, hl, hls⟩ := List.map_eq_cons_iff.1 hlines
    have htext : pending ++ unlines (l :: ls) = pending ++ l ++ ['\n'] ++ unlines ls := by
      simp [unlines]
    have hwhole : IsWhole (pending ++ l ++ ['\n']) := .inr (by simp)
    rw [ofLines, hl, htext]
    dsimp only
    split
    · next hskip =>
      obtain ⟨hblank, hempty⟩ := Bool.and_eq_true_iff.1 hskip
      obtain rfl : pending = [] := by simpa using hempty
      have hlater := ih hls (.inl rfl)
      refine Gathers.append hwhole (Program.ofChars_blank fun x hx => ?_) List.flatten_nil hlater
      rcases List.mem_append.1 hx with hx | hx
      · exact List.all_eq_true.1 hblank x hx
      · rw [List.mem_singleton.1 hx]
        decide
    · cases hp : Program.ofChars (pending ++ l ++ ['\n']) with
      | ok p => exact .append hwhole hp (List.flatten_singleton ..) (ih hls (.inl rfl))
      | error e =>
        dsimp only
        split
        · exact ih hls (.inr ⟨e, hp⟩)
        · next hfinal =>
          have hrest := Program.ofChars_append_eq_error (t := unlines ls)
            (hwhole.imp_right .inl) hp (by simpa using hfinal)
          exact @Gathers.unreadable _ [] _ _ [] _ e rfl (.inl rfl) Program.ofChars_nil rfl
            (List.prefix_append _ _) (fun hopen => absurd hopen hfinal) hp hrest

/-- The lines of a valid file are gathered, the last one completed. -/
theorem gathers_ofBytes {bytes : List UInt8} {text : List Char} (htext : decode? bytes = some text)
    (hbreaks : ¬['\r', '\n'] <:+: text) : Gathers (ended text) (ofBytes bytes) := by
  obtain ⟨ls, hls, hended⟩ := exists_lines htext hbreaks
  rw [hended]
  exact gathers_ofLines hls (.inl rfl)

/-- What is gathered is cut. -/
theorem Gathers.cuts {text : List Char} {chunks : List Chunk} (h : Gathers text chunks) :
    Cuts text chunks := by
  cases h with
  | forms hp hpieces => exact .forms hp hpieces
  | unreadable hsplit hwhole hp hpieces _ _ hsource hrest =>
    obtain ⟨e', he'⟩ := Program.exists_ofChars_append_eq_error (hwhole.imp_right .inl) hp hrest
    exact .unreadable (hsplit ▸ he') hsplit hp hpieces hsource

/-- Whether a newline ends the last line makes no difference to the chunks of a text. -/
theorem Cuts.of_newline {text : List Char} {chunks : List Chunk}
    (h : Cuts (text ++ ['\n']) chunks) : Cuts text chunks := by
  cases hp : Program.ofChars text with
  | ok p =>
    obtain ⟨q, hq, hdata⟩ := Program.exists_ofChars_newline hp
    cases h with
    | forms hq' hpieces =>
      obtain rfl := Except.ok.inj (hq.symm.trans hq')
      exact .forms hp (hpieces.trans hdata)
    | unreadable he => cases hq.symm.trans he
  | error e =>
    obtain ⟨e', he', -⟩ := Program.exists_ofChars_newline_eq_error hp
    cases h with
    | forms hq => cases he'.symm.trans hq
    | @unreadable _ front back q pieces source _ _ hsplit hfront hpieces hsource =>
      -- the beginning that is read stops short of the newline, as the whole cannot be read
      have hback : back ≠ [] := by
        rintro rfl
        rw [List.append_nil] at hsplit
        rw [hsplit, hfront] at he'
        cases he'
      have hshort : text = front ++ back.dropLast := by
        have hdrop := congrArg List.dropLast hsplit
        rwa [List.dropLast_concat, List.dropLast_append_of_ne_nil hback] at hdrop
      exact .unreadable hp hshort hfront hpieces hsource

/-- The chunks of a valid file cut its text. -/
theorem cuts_ofBytes {bytes : List UInt8} {text : List Char} (htext : decode? bytes = some text)
    (hbreaks : ¬['\r', '\n'] <:+: text) : Cuts text (ofBytes bytes) := by
  have hcuts := (gathers_ofBytes htext hbreaks).cuts
  rcases ended_eq_or text with hwhole | hnewline
  · rwa [hwhole] at hcuts
  · rw [hnewline] at hcuts
    exact hcuts.of_newline

end Chunk

end FrameLisp.Source
