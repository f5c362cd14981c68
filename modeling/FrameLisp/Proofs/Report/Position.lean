import FrameLisp.Proofs.Source.Faults
import FrameLisp.Report.Diagnostic

/-!
# Lines and columns

The numbers of the line and of the column of a place in a text come from the characters before it:
how many newlines there are, and how many characters behind the last one. So they do not depend on
what comes behind the place, and whole lines in front of the text only add to the line.
-/
namespace FrameLisp

open Source Text

namespace Report.Snippet

/-- The last line of a text, up to its end. -/
def lastLine (cs : List Char) : List Char := cs.rtakeWhile (· ≠ '\n')

/-- The numbers of the line and of the column behind some characters. -/
def behind (cs : List Char) : Nat × Nat := (cs.count '\n' + 1, (lastLine cs).length + 1)

@[simp] theorem lastLine_nil : lastLine [] = [] := List.rtakeWhile_nil _

theorem lastLine_append_of_not_mem {cs : List Char} (h : '\n' ∉ cs) (front : List Char) :
    lastLine (front ++ cs) = lastLine front ++ cs := by
  induction cs using List.reverseRecOn with
  | nil => simp
  | append_singleton cs c ih =>
    obtain ⟨hcs, hc⟩ : '\n' ∉ cs ∧ c ≠ '\n' := by simpa [eq_comm] using h
    rw [← List.append_assoc, lastLine, List.rtakeWhile_concat_pos _ _ _ (by simpa using hc)]
    rw [← lastLine, ih hcs, List.append_assoc]

theorem lastLine_newline (cs : List Char) : lastLine (cs ++ ['\n']) = [] :=
  List.rtakeWhile_concat_neg _ _ _ (by simp)

theorem lastLine_append_of_isWhole {front : List Char} (h : IsWhole front) (cs : List Char) :
    lastLine (front ++ cs) = lastLine cs := by
  induction cs using List.reverseRecOn with
  | nil =>
    rcases h with rfl | h
    · rfl
    · obtain ⟨front, rfl⟩ := List.getLast?_eq_some_iff.1 h
      simp [lastLine_newline]
  | append_singleton cs c ih =>
    rw [← List.append_assoc]
    by_cases hc : c = '\n'
    · rw [hc, lastLine_newline, lastLine_newline]
    · have hnot : '\n' ∉ [c] := by simpa [eq_comm] using hc
      rw [lastLine_append_of_not_mem hnot, lastLine_append_of_not_mem hnot, ih]

/-- Whole lines in front are counted, and leave the column as it is. -/
theorem behind_append_of_isWhole {front : List Char} (h : IsWhole front) (cs : List Char) :
    behind (front ++ cs) = ((behind cs).1 + front.count '\n', (behind cs).2) := by
  rw [behind, behind, lastLine_append_of_isWhole h, List.count_append]
  refine Prod.ext ?_ rfl
  change front.count '\n' + cs.count '\n' + 1 = cs.count '\n' + 1 + front.count '\n'
  omega

section Lines

variable {index start offset : Nat} {line cs : List Char}

theorem le_start_of_mem_linesFrom (h : start ≤ offset) :
    ∀ l ∈ linesFrom index start offset line cs, start ≤ l.start := by
  induction cs generalizing index start offset line with
  | nil => simp [linesFrom]
  | cons c cs ih =>
    rw [linesFrom]
    split
    · refine List.forall_mem_cons.2 ⟨Nat.le_refl _, fun l hl => ?_⟩
      have hnext := ih (Nat.le_refl _) l hl
      omega
    · exact ih (Nat.le_add_right_of_le h)

/-- The first line goes on behind what was read of it, and the others begin behind that. -/
theorem exists_linesFrom_eq_cons (index start offset : Nat) (line cs : List Char) :
    ∃ later rest, linesFrom index start offset line cs =
      ⟨index, start, line.reverse ++ later⟩ :: rest ∧ ∀ l ∈ rest, offset < l.start := by
  induction cs generalizing offset line with
  | nil => exact ⟨[], [], by simp [linesFrom], by simp⟩
  | cons c cs ih =>
    have hpositive := c.utf8Size_pos
    rw [linesFrom]
    split
    · refine ⟨[c], _, by rw [List.reverse_cons], fun l hl => ?_⟩
      have hnext := le_start_of_mem_linesFrom (Nat.le_refl _) l hl
      omega
    · obtain ⟨later, rest, hlines, hrest⟩ := ih (offset + c.utf8Size) (c :: line)
      refine ⟨c :: later, rest, by rw [hlines]; simp, fun l hl => ?_⟩
      have hnext := hrest l hl
      omega

/-- A line that begins at or before an offset comes before the line of the offset. -/
theorem lineAt?_cons {l l' : Line} {ls : List Line} {n : Nat} (hl : l.start ≤ n)
    (h : lineAt? ls n = some l') : lineAt? (l :: ls) n = some l' := by
  rw [lineAt?] at h ⊢
  rw [List.takeWhile_cons_of_pos (by simpa using hl), List.getLast?_cons, h, Option.getD_some]

/-- The line behind some characters, of which `line` comes before the first one in its line, holds
what is behind the last newline among them. -/
theorem exists_lineAt? (before : List Char) (hoffset : offset = start + width line.reverse)
    (hline : '\n' ∉ line) (later : List Char) : ∃ l back,
      lineAt? (linesFrom index start offset line (before ++ later)) (offset + width before) =
        some l ∧ l.index = index + before.count '\n' ∧
      l.chars = lastLine (line.reverse ++ before) ++ back ∧
      l.start + width (lastLine (line.reverse ++ before)) = offset + width before := by
  induction before generalizing index start offset line with
  | nil =>
    obtain ⟨back, rest, hlines, hrest⟩ := exists_linesFrom_eq_cons index start offset line later
    have hlast : lastLine line.reverse = line.reverse := by
      have hreverse : '\n' ∉ line.reverse := by simpa using hline
      simpa using lastLine_append_of_not_mem hreverse []
    have hstop : rest.takeWhile (fun l => decide (l.start ≤ offset)) = [] := by
      cases rest with
      | nil => rfl
      | cons l rest =>
        have hl := hrest l List.mem_cons_self
        exact List.takeWhile_cons_of_neg (by simpa using hl)
    refine ⟨⟨index, start, line.reverse ++ back⟩, back, ?_, rfl, ?_, ?_⟩
    · rw [List.nil_append, width_nil, Nat.add_zero, hlines, lineAt?,
        List.takeWhile_cons_of_pos (by simp [hoffset]), hstop]
      rfl
    · simp [hlast]
    · simp [hlast, hoffset]
  | cons c before ih =>
    rw [List.cons_append, linesFrom]
    by_cases hc : c = '\n'
    · subst hc
      have hsize : '\n'.utf8Size = 1 := rfl
      obtain ⟨l, back, hl, hindex, hchars, hstart⟩ :=
        @ih (index + 1) (offset + 1) (offset + 1) [] rfl (by simp)
      have hwhole : lastLine (line.reverse ++ '\n' :: before) = lastLine before := by
        have hfront : IsWhole (line.reverse ++ ['\n']) := .inr (by simp)
        simpa using lastLine_append_of_isWhole hfront before
      rw [if_pos rfl, hsize, hwhole, width_cons, hsize, ← Nat.add_assoc]
      refine ⟨l, back, lineAt?_cons ?_ hl, ?_, hchars, hstart⟩
      · dsimp only
        omega
      · rw [hindex, List.count_cons_self]
        omega
    · have hnext : offset + c.utf8Size = start + width (c :: line).reverse := by
        rw [hoffset, List.reverse_cons, width_append]
        simp [Nat.add_assoc]
      obtain ⟨l, back, hl, hindex, hchars, hstart⟩ :=
        @ih index start _ _ hnext (by simp [hline, eq_comm, hc])
      have hchain : (c :: line).reverse ++ before = line.reverse ++ c :: before := by simp
      rw [hchain] at hchars hstart
      rw [if_neg hc, width_cons, ← Nat.add_assoc, List.count_cons_of_ne hc]
      exact ⟨l, back, hl, hindex, hchars, hstart⟩

end Lines

/-- All characters of some width end at or before it, and no others do. -/
theorem takeWhile_cellsFrom (offset column : Nat) (cs later : List Char) :
    ((cellsFrom offset column (cs ++ later)).takeWhile fun c =>
      c.stop ≤ offset + width cs).length = cs.length := by
  induction cs generalizing offset column with
  | nil =>
    cases later with
    | nil => rfl
    | cons c later =>
      have hpositive := c.utf8Size_pos
      rw [List.nil_append, cellsFrom, List.takeWhile_cons_of_neg]
      · rfl
      · simpa [Cell.stop] using hpositive.ne'
  | cons c cs ih =>
    rw [List.cons_append, cellsFrom, List.takeWhile_cons_of_pos (by simp [Cell.stop]), width_cons,
      ← Nat.add_assoc, List.length_cons, ih, List.length_cons]

theorem charsBefore_width {l : Line} {cs back : List Char} (h : l.chars = cs ++ back) :
    l.charsBefore (width cs) = cs.length := by
  have hcells := takeWhile_cellsFrom 0 0 cs back
  rwa [Nat.zero_add, ← h] at hcells

/-- The position of a place in a text is that behind the characters before it. -/
theorem position_of_toList {source : String} {front back : List Char}
    (h : source.toList = front ++ back) :
    position (lines source) (width front) = behind front := by
  obtain ⟨l, later, hl, hindex, hchars, hstart⟩ :=
    @exists_lineAt? 0 0 0 [] front rfl (by simp) back
  rw [Nat.zero_add] at hl hindex hstart
  rw [List.reverse_nil, List.nil_append] at hchars hstart
  have hcolumn : width front - l.start = width (lastLine front) := by omega
  rw [position, lines, h, hl]
  dsimp only
  rw [hindex, hcolumn, charsBefore_width hchars, behind]

example : position (lines "é\n λ") 4 = (2, 2) := by decide

end Report.Snippet

namespace Report

/-- Where the header of a diagnostic says that it belongs. -/
structure Spot where
  path : String
  line : Nat
  column : Nat
  deriving DecidableEq

namespace Spot

/-- Behind some characters of a file. -/
def behind (path : String) (cs : List Char) : Spot :=
  ⟨path, (Snippet.behind cs).1, (Snippet.behind cs).2⟩

/-- The same column some lines further down. -/
def down (n : Nat) (s : Spot) : Spot := { s with line := s.line + n }

theorem behind_append_of_isWhole {front : List Char} (h : IsWhole front) (path : String)
    (cs : List Char) : behind path (front ++ cs) = (behind path cs).down (front.count '\n') := by
  rw [behind, Snippet.behind_append_of_isWhole h]
  rfl

theorem behind_newline (path : String) (cs : List Char) :
    behind path (cs ++ ['\n']) = ⟨path, cs.count '\n' + 2, 1⟩ := by
  simp [behind, Snippet.behind, Snippet.lastLine_newline]

theorem eq_down_iff {s : Spot} {n : Nat} : s = s.down n ↔ n = 0 := by
  obtain ⟨path, line, column⟩ := s
  simp [down]

end Spot

/-- The place that the header of a labelled snippet has. -/
def Location.spot (l : Location) : Spot :=
  let (line, column) := Snippet.position (Snippet.lines l.source) l.span.start
  ⟨l.path, line, column⟩

theorem Location.spot_of_toList {l : Location} {front back : List Char}
    (hsource : l.source.toList = front ++ back) (hstart : l.span.start = width front) :
    l.spot = .behind l.path front := by
  rw [spot, hstart, Snippet.position_of_toList hsource]
  rfl

end Report

open Report

/-- Where the failure is reported, if at a place at all. -/
def Failure.spot? (f : Failure) : Option Spot := (Diagnostic.ofFailure f).location.map Location.spot

namespace Source.SyntaxError

variable {cs front : List Char} {e : SyntaxError}

/-- The characters of a text before the place where an error in it is shown. -/
structure ShownBehind (cs : List Char) (e : SyntaxError) (front : List Char) : Prop where
  before : front <+: cs
  start : e.fault ≠ .unexpectedEnd → e.span.start = width front
  whole : e.fault = .unexpectedEnd → front = cs

theorem StandsIn.exists_shownBehind (h : e.StandsIn cs) : ∃ front, e.ShownBehind cs front := by
  by_cases hend : e.fault = .unexpectedEnd
  · exact ⟨cs, List.prefix_rfl, fun hnot => absurd hend hnot, fun _ => rfl⟩
  · obtain ⟨front, text, back, hcs, hspan⟩ := h
    refine ⟨front, ⟨text ++ back, ?_⟩, fun _ => by rw [hspan], fun hend' => absurd hend' hend⟩
    rw [hcs, List.append_assoc]

theorem shownSpan_of_ne {source : String} (h : e.fault ≠ .unexpectedEnd) :
    shownSpan source e = e.span := by
  rw [shownSpan]
  split
  · next hend => exact absurd hend h
  · rfl

theorem shownSpan_of_eq {source : String} (h : e.fault = .unexpectedEnd) :
    shownSpan source e = .point source.utf8ByteSize := by
  rw [shownSpan, h]

theorem ShownBehind.spot? {source : String} (h : e.ShownBehind source.toList front)
    (path : String) : (Failure.unreadable path source e).spot? = some (.behind path front) := by
  obtain ⟨back, hback⟩ := h.before
  refine congrArg some (Location.spot_of_toList hback.symm ?_)
  by_cases hend : e.fault = .unexpectedEnd
  · change (shownSpan source e).start = _
    rw [shownSpan_of_eq hend, h.whole hend, ← utf8ByteSize_eq_width]
    rfl
  · change (shownSpan source e).start = _
    rw [shownSpan_of_ne hend, h.start hend]

/-- In a longer text an error is shown at the same place, unless it is shown at the end. -/
theorem ShownBehind.of_prefix {cs' : List Char} (h : e.ShownBehind cs front) (hcs : cs <+: cs')
    (hend : e.fault = .unexpectedEnd → cs = cs') : e.ShownBehind cs' front :=
  ⟨h.before.trans hcs, h.start, fun hfault => (h.whole hfault).trans (hend hfault)⟩

theorem shift_fault_eq_iff {k : Nat} :
    (e.shift k).fault = .unexpectedEnd ↔ e.fault = .unexpectedEnd := by
  obtain ⟨fault, span⟩ := e
  cases fault <;> simp [shift, SyntaxFault.shift]

theorem ShownBehind.shift (h : e.ShownBehind cs front) (a : List Char) :
    (e.shift (width a)).ShownBehind (a ++ cs) (a ++ front) := by
  refine ⟨(List.prefix_append_right_inj a).2 h.before, fun hnot => ?_, fun hend => ?_⟩
  · have hstart := h.start (shift_fault_eq_iff.not.1 hnot)
    rw [width_append, ← hstart, Nat.add_comm]
    rfl
  · rw [h.whole (shift_fault_eq_iff.1 hend)]

/-- Beginnings of a text are told apart by how wide they are. -/
theorem eq_of_width_eq {a b : List Char} (ha : a <+: cs) (hb : b <+: cs)
    (h : width a = width b) : a = b := by
  obtain ⟨t, rfl⟩ := isPrefix_of_width_le ha hb h.le
  rw [width_append] at h
  have ht : t = [] := eq_nil_of_width_eq_zero (by omega)
  rw [ht, List.append_nil]

theorem ShownBehind.unique {b : List Char} (h : e.ShownBehind cs front)
    (h' : e.ShownBehind cs b) : front = b := by
  by_cases hend : e.fault = .unexpectedEnd
  · rw [h.whole hend, h'.whole hend]
  · exact eq_of_width_eq h.before h'.before ((h.start hend).symm.trans (h'.start hend))

/-- How the place of an error moves when the last line of its text is completed. -/
theorem ShownBehind.cases_of_ended {e' : SyntaxError} {a b : List Char}
    (he : Program.ofChars cs = .error e) (he' : Program.ofChars (ended cs) = .error e')
    (ha : e.ShownBehind cs a) (hb : e'.ShownBehind (ended cs) b) :
    (IsWhole cs ∨ e.fault ≠ .unexpectedEnd) ∧ a = b ∨
      ¬IsWhole cs ∧ e.isIncomplete = true ∧
        (e.fault = .unexpectedEnd ∧ a = cs ∧ b = cs ++ ['\n'] ∨
          e.fault ≠ .unexpectedEnd ∧ cs = b ++ ['\\']) := by
  by_cases hwhole : IsWhole cs
  · rw [ended_of_isWhole hwhole] at he' hb
    obtain rfl := Except.error.inj (he.symm.trans he')
    exact .inl ⟨.inl hwhole, ha.unique hb⟩
  rw [ended_of_not_isWhole hwhole] at he' hb
  have ha' : a <+: cs ++ ['\n'] := ha.before.trans (List.prefix_append _ _)
  obtain ⟨e'', he'', hprolongs⟩ := Program.exists_ofChars_newline_eq_error he
  obtain rfl := Except.error.inj (he''.symm.trans he')
  cases hprolongs with
  | final hfinal =>
    have hend : e.fault ≠ .unexpectedEnd := by
      intro hend
      rw [isIncomplete, hend] at hfinal
      cases hfinal
    have hstart := (ha.start hend).symm.trans (hb.start hend)
    exact .inl ⟨.inr hend, eq_of_width_eq ha' hb.before hstart⟩
  | unexpectedEnd => exact .inr ⟨hwhole, rfl, .inl ⟨rfl, ha.whole rfl, hb.whole rfl⟩⟩
  | unterminated =>
    have hstart := (ha.start (by simp [ofLexical])).symm.trans (hb.start (by simp [ofLexical]))
    exact .inl ⟨.inr (by simp [ofLexical]), eq_of_width_eq ha' hb.before hstart⟩
  | @escape start stop stop' front hfront =>
    have hbefore : front <+: cs ++ ['\n'] := by
      rw [hfront, List.append_assoc]
      exact List.prefix_append _ _
    obtain rfl : front = b := eq_of_width_eq hbefore hb.before (hb.start (by simp [ofLexical]))
    exact .inr ⟨hwhole, rfl, .inr ⟨by simp [ofLexical], hfront⟩⟩

end Source.SyntaxError

end FrameLisp
