import FrameLisp.Proofs.Source.Lookahead
import FrameLisp.Proofs.Source.Shift

/-!
# What a scan covers

A scan divides the text before it: white space is passed over, then comes the text of the item, at
whose end the scan stops. Scanned on its own, the text of a token is that token again.

A fault in an escape has the span of the escape alone, so that the beginning of its string stands
before it, too.
-/
namespace FrameLisp.Source

/-- Where an item stands. -/
def Item.span : Item → Span
  | .ok l => l.span
  | .error e => e.span

namespace Cursor

section Consumed

/-- What a scan of a string passes over is scanned alike on its own. -/
theorem exists_scanString_alone (start : Nat) (value : String) (offset : Nat) (cs : List Char) :
    ∃ text, cs = text ++ (scanString start value offset cs).2.rest ∧
      scanString start value offset text =
        ((scanString start value offset cs).1,
          ⟨(scanString start value offset cs).2.offset, []⟩) := by
  fun_induction scanString start value offset cs with
  | case1 value offset => exact ⟨[], rfl, rfl⟩
  | case2 value offset cs => exact ⟨['"'], rfl, rfl⟩
  | case3 value offset => exact ⟨['\\'], rfl, rfl⟩
  | case4 value offset c cs d hd ih =>
    obtain ⟨text, hcs, halone⟩ := ih
    exact ⟨'\\' :: c :: text, by simpa using hcs, by simpa [scanString, hd] using halone⟩
  | case5 value offset c cs hc => exact ⟨['\\', c], rfl, by simp [scanString, hc]⟩
  | case6 value offset c cs hquote hlast hescape ih =>
    have hbackslash := ne_backslash hlast hescape
    obtain ⟨text, hcs, halone⟩ := ih
    refine ⟨c :: text, by simpa using hcs, ?_⟩
    rw [scanString_cons start value offset hquote hbackslash, halone]

theorem skip_alone (p : Char → Bool) (c : Cursor) :
    (mk c.offset (c.rest.takeWhile p)).skip p = ⟨(c.skip p).offset, []⟩ := by
  have hall : ∀ x ∈ c.rest.takeWhile p, p x = true := fun x hx => List.mem_takeWhile_imp hx
  rw [skip_eq, skip_eq, List.takeWhile_eq_self_iff.2 hall, List.dropWhile_eq_nil_iff.2 hall]

theorem scanAtom_alone (c : Cursor) :
    (mk c.offset (c.rest.takeWhile fun ch => !isDelimiter ch)).scanAtom =
      (c.scanAtom.1, ⟨c.scanAtom.2.offset, []⟩) := by
  rw [scanAtom, scanAtom, skip_alone, List.takeWhile_takeWhile]
  simp only [and_self, Bool.decide_eq_true]
  cases classify (c.rest.takeWhile fun ch => !isDelimiter ch) <;> rfl

/-- What a token or a fault takes of the text is scanned as the same one on its own. -/
theorem exists_scanToken_alone {c : Cursor}
    (hblank : ∀ ch ∈ c.rest.head?, Text.isBlank ch = false) :
    ∃ text, c.rest = text ++ c.scanToken.2.rest ∧
      (mk c.offset text).scanToken = (c.scanToken.1, ⟨c.scanToken.2.offset, []⟩) := by
  obtain ⟨offset, rest⟩ := c
  match rest with
  | [] => exact ⟨[], rfl, rfl⟩
  | ch :: cs =>
    by_cases hcomment : ch = ';'
    · subst hcomment
      refine ⟨(';' :: cs).takeWhile (· ≠ '\n'), ?_, ?_⟩
      · simp only [scanToken, skip_eq, List.takeWhile_append_dropWhile]
      · have halone := skip_alone (· ≠ '\n') ⟨offset, ';' :: cs⟩
        simp [scanToken] at halone ⊢
        simp [halone]
    by_cases hstring : ch = '"'
    · subst hstring
      obtain ⟨text, hcs, halone⟩ := exists_scanString_alone offset "" (offset + 1) cs
      exact ⟨'"' :: text, congrArg (List.cons '"') hcs, halone⟩
    by_cases hsingle : ch = '(' ∨ ch = ')' ∨ ch = '\''
    · rcases hsingle with rfl | rfl | rfl <;> exact ⟨[_], rfl, rfl⟩
    · have hplain : ch ∉ ['(', ')', '\'', ';', '"'] := by simp_all
      have hatom : isDelimiter ch = false := by
        have hch := hblank ch rfl
        simp_all [isDelimiter]
      have htext : (ch :: cs).takeWhile (fun ch => !isDelimiter ch) =
          ch :: cs.takeWhile fun ch => !isDelimiter ch :=
        List.takeWhile_cons_of_pos (by simp [hatom])
      refine ⟨(ch :: cs).takeWhile fun ch => !isDelimiter ch, ?_, ?_⟩
      · rw [scanToken_eq_scanAtom rfl hplain, scanAtom_snd, skip_eq,
          List.takeWhile_append_dropWhile]
      · rw [scanToken_eq_scanAtom htext hplain, scanToken_eq_scanAtom rfl hplain]
        exact scanAtom_alone _

end Consumed

section Spans

/-- Where a fault is found in an escape, the string is open before it. -/
theorem span_scanString (start : Nat) (value : String) (offset : Nat) (cs : List Char) :
    (scanString start value offset cs).1.span.stop = (scanString start value offset cs).2.offset ∧
    ((scanString start value offset cs).1.span.start = start ∨
      ∃ lead ch, cs = lead ++ ['\\', ch] ++ (scanString start value offset cs).2.rest ∧
        (scanString start value offset cs).1 = .error ⟨.unknownEscape ch,
          ⟨offset + width lead, (scanString start value offset cs).2.offset⟩⟩ ∧
        ∃ stop, (scanString start value offset lead).1 =
          .error ⟨.unterminatedString, ⟨start, stop⟩⟩) := by
  have hone : '\\'.utf8Size = 1 := rfl
  fun_induction scanString start value offset cs with
  | case1 value offset => exact ⟨rfl, .inl rfl⟩
  | case2 value offset cs => exact ⟨rfl, .inl rfl⟩
  | case3 value offset => exact ⟨rfl, .inl rfl⟩
  | case4 value offset c cs d hd ih =>
    refine ⟨ih.1, ih.2.imp_right ?_⟩
    rintro ⟨lead, ch, hcs, hfault, stop, hopen⟩
    refine ⟨'\\' :: c :: lead, ch, by simpa using hcs, ?_, stop, ?_⟩
    · rw [hfault]
      simp [hone, Nat.add_assoc]
    · simpa [scanString, hd] using hopen
  | case5 value offset c cs hc => exact ⟨rfl, .inr ⟨[], c, rfl, rfl, _, rfl⟩⟩
  | case6 value offset c cs hquote hlast hescape ih =>
    have hbackslash := ne_backslash hlast hescape
    refine ⟨ih.1, ih.2.imp_right ?_⟩
    rintro ⟨lead, ch, hcs, hfault, stop, hopen⟩
    refine ⟨c :: lead, ch, by simpa using hcs, ?_, stop, ?_⟩
    · rw [hfault]
      simp [Nat.add_assoc]
    · rwa [scanString_cons start value offset hquote hbackslash]

theorem span_scanAtom (c : Cursor) : c.scanAtom.1.span = ⟨c.offset, c.scanAtom.2.offset⟩ := by
  rw [scanAtom]
  split <;> rfl

theorem span_scanToken (c : Cursor) :
    c.scanToken.1.span.stop = c.scanToken.2.offset ∧
    (c.scanToken.1.span.start = c.offset ∨
      ∃ lead ch, c.rest = lead ++ ['\\', ch] ++ c.scanToken.2.rest ∧
        c.scanToken.1 = .error ⟨.unknownEscape ch,
          ⟨c.offset + width lead, c.scanToken.2.offset⟩⟩ ∧
        ∃ stop, (mk c.offset lead).scanToken.1 =
          .error ⟨.unterminatedString, ⟨c.offset, stop⟩⟩) := by
  obtain ⟨offset, rest⟩ := c
  match rest with
  | [] => exact ⟨rfl, .inl rfl⟩
  | ch :: cs =>
    by_cases hcomment : ch = ';'
    · subst hcomment
      exact ⟨rfl, .inl rfl⟩
    by_cases hstring : ch = '"'
    · subst hstring
      refine ⟨(span_scanString offset "" (offset + 1) cs).1,
        (span_scanString offset "" (offset + 1) cs).2.imp_right ?_⟩
      rintro ⟨lead, ch, hcs, hfault, stop, hopen⟩
      refine ⟨'"' :: lead, ch, congrArg (List.cons '"') hcs, ?_, stop, hopen⟩
      have hone : '"'.utf8Size = 1 := rfl
      rw [width_cons, hone, ← Nat.add_assoc]
      exact hfault
    by_cases hsingle : ch = '(' ∨ ch = ')' ∨ ch = '\''
    · rcases hsingle with rfl | rfl | rfl <;> exact ⟨rfl, .inl rfl⟩
    · have hplain : ch ∉ ['(', ')', '\'', ';', '"'] := by simp_all
      rw [scanToken_eq_scanAtom rfl hplain, span_scanAtom]
      exact ⟨rfl, .inl rfl⟩

end Spans

section Division

/-- How a scan divides the text from the cursor on: white space, the text of the item and what is
left. Where an escape is at fault, the string that it stands in has begun before it. -/
structure Divides (gap lead text : List Char) (c : Cursor) : Prop where
  rest : c.rest = gap ++ lead ++ text ++ c.scan.2.rest
  blank : ∀ ch ∈ gap, Text.isBlank ch = true
  start : c.scan.1.span.start = c.offset + width (gap ++ lead)
  stop : c.scan.1.span.stop = c.scan.2.offset
  led : lead = [] ∨ ∃ ch span opened, c.scan.1 = .error ⟨.unknownEscape ch, span⟩ ∧
    (mk c.offset (gap ++ lead)).scan.1 = .error ⟨.unterminatedString, opened⟩
  alone : ∀ l, c.scan.1 = .ok l → (mk c.scan.1.span.start text).scan =
    (c.scan.1, ⟨c.scan.2.offset, []⟩)

theorem head?_of_append {rest front back : List Char} (hrest : rest = front ++ back)
    (hblank : ∀ ch ∈ rest.head?, Text.isBlank ch = false) :
    ∀ ch ∈ front.head?, Text.isBlank ch = false := by
  subst hrest
  intro ch hch
  obtain ⟨front, rfl⟩ := List.head?_eq_some_iff.1 hch
  exact hblank ch rfl

theorem skip_append_of_blank {gap lead : List Char} (offset : Nat)
    (hgap : ∀ ch ∈ gap, Text.isBlank ch = true)
    (hlead : ∀ ch ∈ lead.head?, Text.isBlank ch = false) :
    (mk offset (gap ++ lead)).skip Text.isBlank = ⟨offset + width gap, lead⟩ := by
  have htake : lead.takeWhile Text.isBlank = [] ∧ lead.dropWhile Text.isBlank = lead := by
    cases lead with
    | nil => exact ⟨rfl, rfl⟩
    | cons ch lead => simp [hlead ch rfl]
  rw [skip_eq, List.takeWhile_append_of_pos hgap, List.dropWhile_append_of_pos hgap, htake.1,
    htake.2, List.append_nil]

theorem exists_divides (c : Cursor) : ∃ gap lead text, c.Divides gap lead text := by
  have hgap : ∀ ch ∈ c.rest.takeWhile Text.isBlank, Text.isBlank ch = true := fun ch hch =>
    List.mem_takeWhile_imp hch
  have hrest : c.rest = c.rest.takeWhile Text.isBlank ++ (c.skip Text.isBlank).rest := by
    rw [skip_eq, List.takeWhile_append_dropWhile]
  have hoffset : (c.skip Text.isBlank).offset =
      c.offset + width (c.rest.takeWhile Text.isBlank) := by
    rw [skip_eq]
  have hblank := head?_skip Text.isBlank c
  obtain ⟨hstop, hstart | ⟨lead, ch, hlead, hfault, stop, hopen⟩⟩ :=
    span_scanToken (c.skip Text.isBlank)
  · obtain ⟨text, htext, halone⟩ := exists_scanToken_alone hblank
    refine ⟨_, [], text, ?_, hgap, ?_, hstop, .inl rfl, fun l hl => ?_⟩
    · rw [List.append_nil, List.append_assoc]
      exact htext ▸ hrest
    · rw [List.append_nil, ← hoffset]
      exact hstart
    · rw [scan_eq_scanToken (head?_of_append htext hblank), scan, hstart]
      exact halone
  · have hprefix : (c.skip Text.isBlank).rest =
        lead ++ (['\\', ch] ++ (c.skip Text.isBlank).scanToken.2.rest) := by
      rwa [← List.append_assoc]
    refine ⟨_, lead, ['\\', ch], ?_, hgap, ?_, hstop, ?led, ?_⟩
    · rw [List.append_assoc, List.append_assoc]
      exact hprefix ▸ hrest
    · rw [width_append, ← Nat.add_assoc, ← hoffset, scan, hfault]
      rfl
    case led =>
      refine .inr ⟨ch, _, ⟨(c.skip Text.isBlank).offset, stop⟩, hfault, ?_⟩
      rw [scan, skip_append_of_blank _ hgap (head?_of_append hprefix hblank), ← hoffset]
      exact hopen
    · intro l hl
      rw [scan, hfault] at hl
      cases hl

variable {c : Cursor} {gap lead text : List Char}

/-- An item reaches from behind what stands before it as far as its text. -/
theorem Divides.offset (h : c.Divides gap lead text) :
    c.scan.2.offset = c.offset + width (gap ++ lead) + width text := by
  have hbound := bound_scan c
  rw [bound, bound, h.rest] at hbound
  simp only [width_append] at hbound ⊢
  omega

/-- A text that is one token is the same token where the text begins. -/
theorem scan_zero {k w : Nat} {text : List Char} {token : Token}
    (h : (mk k text).scan = (.ok ⟨token, ⟨k, k + w⟩⟩, ⟨k + w, []⟩)) :
    (mk 0 text).scan = (.ok ⟨token, ⟨0, w⟩⟩, ⟨w, []⟩) := by
  have hmoved : (mk 0 text).shift k = ⟨k, text⟩ := by rw [shift, Nat.zero_add]
  have hshift := scan_shift k ⟨0, text⟩
  rw [hmoved, h] at hshift
  generalize (mk 0 text).scan = scanned at hshift
  obtain ⟨item | ⟨token', start, stop⟩, offset, rest⟩ := scanned
  · cases (Prod.ext_iff.1 hshift).1
  · simp only [Item.shift, Lexeme.shift, Span.shift, shift, Prod.mk.injEq, Except.ok.injEq,
      Lexeme.mk.injEq, Span.mk.injEq, Cursor.mk.injEq] at hshift
    obtain ⟨⟨rfl, hstart, hstop⟩, hoffset, rfl⟩ := hshift
    obtain ⟨rfl, rfl, rfl⟩ : start = 0 ∧ stop = w ∧ offset = w := by omega
    rfl

/-- The beginning of a string is open wherever it stands. -/
theorem scan_zero_of_open {k : Nat} {text : List Char} {opened : Span}
    (h : (mk k text).scan.1 = .error ⟨.unterminatedString, opened⟩) :
    ∃ opened, (mk 0 text).scan.1 = .error ⟨.unterminatedString, opened⟩ := by
  have hmoved : (mk 0 text).shift k = ⟨k, text⟩ := by rw [shift, Nat.zero_add]
  rw [← hmoved, scan_shift] at h
  cases hscan : (mk 0 text).scan.1 with
  | error e =>
    obtain ⟨fault, span⟩ := e
    rw [hscan] at h
    simp only [Item.shift, LexicalError.shift, Except.error.injEq, LexicalError.mk.injEq] at h
    exact ⟨span, by rw [h.1]⟩
  | ok l =>
    rw [hscan] at h
    cases h

/-- The text of a token is scanned as the same token wherever it stands. -/
theorem Divides.scan_text (h : c.Divides gap lead text) {l : Lexeme} (hl : c.scan.1 = .ok l) :
    (Cursor.mk 0 text).scan = (.ok ⟨l.token, ⟨0, width text⟩⟩, ⟨width text, []⟩) := by
  have halone := h.alone l hl
  have hstart := h.start
  have hstop := h.stop
  have hoffset := h.offset
  obtain ⟨token, start, stop⟩ := l
  rw [hl] at hstart hstop halone
  simp only [Item.span] at hstart hstop halone
  have hwidth : c.scan.2.offset = start + width text := by omega
  rw [hstop, hwidth] at halone
  exact scan_zero halone

end Division

end Cursor

end FrameLisp.Source
