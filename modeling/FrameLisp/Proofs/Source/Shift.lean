import FrameLisp.Proofs.Source.Continuation
import FrameLisp.Proofs.Source.Derivation

/-!
# Texts behind one another

Where a text begins changes the spans of what is read and nothing else. So a text that was read
hands over to the text behind it, which is read as if it stood alone, further on.
-/
namespace FrameLisp.Source

section Shift

def Span.shift (k : Nat) (s : Span) : Span := ⟨s.start + k, s.stop + k⟩

def Lexeme.shift (k : Nat) (l : Lexeme) : Lexeme := { l with span := l.span.shift k }

def LexicalError.shift (k : Nat) (e : LexicalError) : LexicalError :=
  { e with span := e.span.shift k }

def Item.shift (k : Nat) : Item → Item
  | .ok l => .ok (l.shift k)
  | .error e => .error (e.shift k)

def SyntaxFault.shift (k : Nat) : SyntaxFault → SyntaxFault
  | .lexical e => .lexical (e.shift k)
  | fault => fault

def SyntaxError.shift (k : Nat) (e : SyntaxError) : SyntaxError := ⟨e.fault.shift k, e.span.shift k⟩

def Context.shift (k : Nat) : Context → Context
  | .quote span => .quote (span.shift k)
  | .element start read => .element (start + k) read
  | .tail start read => .tail (start + k) read

def Place.shift (k : Nat) : Place → Place
  | .datum within => .datum (within.map (Context.shift k))
  | .closing start read tail within =>
    .closing (start + k) read tail (within.map (Context.shift k))

def Place.Step.shift (k : Nat) : Place.Step → Place.Step
  | .more place => .more (place.shift k)
  | .form span d => .form (span.shift k) d

def Form.shift (k : Nat) (f : Form) : Form := { f with span := f.span.shift k }

def Program.shift (k : Nat) (p : Program) : Program :=
  ⟨p.forms.map (Form.shift k), p.comments.map (Span.shift k)⟩

/-- The cursor in a text that begins later. -/
def Cursor.shift (k : Nat) (c : Cursor) : Cursor := ⟨c.offset + k, c.rest⟩

end Shift

variable (k : Nat)

section Scanning

namespace Cursor

theorem skip_shift (p : Char → Bool) (c : Cursor) : (c.shift k).skip p = (c.skip p).shift k := by
  simp [skip_eq, shift, Nat.add_right_comm]

theorem scanAtom_shift (c : Cursor) :
    (c.shift k).scanAtom = (c.scanAtom.1.shift k, c.scanAtom.2.shift k) := by
  have hrest : (c.shift k).rest = c.rest := rfl
  rw [scanAtom, scanAtom, skip_shift, hrest]
  cases classify (c.rest.takeWhile fun ch => !isDelimiter ch) <;> rfl

theorem scanString_shift (start : Nat) (value : String) (offset : Nat) (cs : List Char) :
    scanString (start + k) value (offset + k) cs =
      (Item.shift k (scanString start value offset cs).1,
        (scanString start value offset cs).2.shift k) := by
  fun_induction scanString start value offset cs with
  | case1 => rfl
  | case2 value offset cs =>
    have hstop : offset + k + 1 = offset + 1 + k := by omega
    simp [scanString, Item.shift, Lexeme.shift, Span.shift, shift, hstop]
  | case3 value offset =>
    have hstop : offset + k + 1 = offset + 1 + k := by omega
    simp [scanString, Item.shift, LexicalError.shift, Span.shift, shift, hstop]
  | case4 value offset c cs d hd ih =>
    have hnext : offset + k + 1 + c.utf8Size = offset + 1 + c.utf8Size + k := by omega
    simp only [scanString, hd, hnext]
    exact ih
  | case5 value offset c cs hc =>
    have hstop : offset + k + 1 + c.utf8Size = offset + 1 + c.utf8Size + k := by omega
    simp [scanString, hc, Item.shift, LexicalError.shift, Span.shift, shift, hstop]
  | case6 value offset c cs hquote hlast hescape ih =>
    have hnext : offset + k + c.utf8Size = offset + c.utf8Size + k := by omega
    rw [scanString, hnext]
    · exact ih
    · exact hquote
    · exact hlast
    · exact hescape

theorem scanToken_shift (c : Cursor) :
    (c.shift k).scanToken = (Item.shift k c.scanToken.1, c.scanToken.2.shift k) := by
  obtain ⟨offset, rest⟩ := c
  have hstop : offset + k + 1 = offset + 1 + k := by omega
  match rest with
  | [] => rfl
  | ch :: cs =>
    by_cases hcomment : ch = ';'
    · subst hcomment
      have hskip := skip_shift k (· ≠ '\n') ⟨offset, ';' :: cs⟩
      simp only [shift, scanToken] at hskip ⊢
      rw [hskip]
      rfl
    by_cases hstring : ch = '"'
    · subst hstring
      have hscan := scanString_shift k offset "" (offset + 1) cs
      rwa [← hstop] at hscan
    by_cases hsingle : ch = '(' ∨ ch = ')' ∨ ch = '\''
    · rcases hsingle with rfl | rfl | rfl <;>
        simp [shift, scanToken, Item.shift, Lexeme.shift, Span.shift, hstop]
    · have hplain : ch ∉ ['(', ')', '\'', ';', '"'] := by simp_all
      have hrest : ((⟨offset, ch :: cs⟩ : Cursor).shift k).rest = ch :: cs := rfl
      rw [scanToken_eq_scanAtom hrest hplain, scanToken_eq_scanAtom rfl hplain]
      exact scanAtom_shift k _

theorem scan_shift (c : Cursor) :
    (c.shift k).scan = (Item.shift k c.scan.1, c.scan.2.shift k) := by
  rw [scan, skip_shift, scanToken_shift, scan]

theorem isEnd_shift (item : Item) : (Item.shift k item).isEnd = item.isEnd := by
  cases item <;> rfl

/-- A text has the same items wherever it begins. -/
theorem items_shift (c : Cursor) : (c.shift k).items = c.items.map (Item.shift k) := by
  induction c using inductionOnScan with
  | atEnd c hend =>
    have hshift : (c.shift k).scan.1.isEnd = true := by rwa [scan_shift, isEnd_shift]
    rw [items_of_isEnd hend, items_of_isEnd hshift, scan_shift, List.map_singleton]
  | step c hend ih =>
    have hshift : ¬(c.shift k).scan.1.isEnd = true := by rwa [scan_shift, isEnd_shift]
    rw [items_of_not_isEnd hend, items_of_not_isEnd hshift, scan_shift, List.map_cons, ih]

end Cursor

end Scanning

section Reading

namespace Place

theorem finish_shift (span : Span) (d : Datum) (within : List Context) :
    finish (span.shift k) d (within.map (Context.shift k)) = (finish span d within).shift k := by
  induction within generalizing span d with
  | nil => rfl
  | cons c within ih =>
    cases c with
    | quote q =>
      have hmerge : (q.shift k).merge (span.shift k) = (q.merge span).shift k := by
        simp only [Span.merge, Span.shift, Nat.add_min_add_right, Nat.add_max_add_right]
      simp only [List.map_cons, Context.shift, finish, hmerge]
      exact ih _ _
    | element start read => rfl
    | tail start read => rfl

theorem take_shift (l : Lexeme) (place : Place) :
    (place.shift k).take (l.shift k) =
      ((place.take l).map (Step.shift k)).mapError (SyntaxError.shift k) := by
  obtain ⟨token, span⟩ := l
  cases place with
  | closing start read tail within =>
    by_cases hparen : token = .rightParen
    · subst hparen
      exact congrArg Except.ok (finish_shift k ⟨start, span.stop⟩ _ within)
    · simp only [shift, Lexeme.shift, take, hparen, if_false]
      rfl
  | datum within =>
    cases token with
    | leftParen => rfl
    | quote => rfl
    | rightParen =>
      cases within with
      | nil => rfl
      | cons context within =>
        cases context with
        | quote span => rfl
        | tail start read => rfl
        | element start read =>
          exact congrArg Except.ok (finish_shift k ⟨start, span.stop⟩ _ within)
    | dot =>
      cases within with
      | nil => rfl
      | cons context within =>
        cases context with
        | quote span => rfl
        | tail start read => rfl
        | element start read => cases read <;> rfl
    | string value => exact congrArg Except.ok (finish_shift k span (.string value) within)
    | integer value =>
      exact congrArg Except.ok (finish_shift k span (.number (.ofInt value)) within)
    | rational value =>
      exact congrArg Except.ok (finish_shift k span (.number (.exact value)) within)
    | float value =>
      exact congrArg Except.ok (finish_shift k span (.number (.inexact value)) within)
    | boolean value => exact congrArg Except.ok (finish_shift k span (.boolean value) within)
    | symbol name => exact congrArg Except.ok (finish_shift k span (.symbol name) within)
    | comment => rfl
    | endOfInput => rfl

theorem atEnd_shift (offset : Nat) (place : Place) :
    (place.shift k).atEnd (offset + k) = (place.atEnd offset).map (SyntaxError.shift k) := by
  match place with
  | .datum [] => rfl
  | .datum (_ :: _) => rfl
  | .closing .. => rfl

end Place

namespace Reading

/-- The reading of a text that stands behind a program which was read. -/
def behind (p : Program) (k : Nat) (r : Reading) : Reading where
  place := r.place.shift k
  forms := (p.forms ++ r.forms.toList.map (Form.shift k)).toArray
  comments := (p.comments ++ r.comments.toList.map (Span.shift k)).toArray

theorem settle_behind (p : Program) (r : Reading) (step : Place.Step) :
    (r.behind p k).settle (step.shift k) = (r.settle step).behind p k := by
  cases step with
  | more place => rfl
  | form span d =>
    simp [settle, behind, Place.Step.shift, Form.shift, Place.top, Place.shift]

theorem step_behind (p : Program) (r : Reading) (item : Item) :
    (r.behind p k).step (item.shift k) =
      ((r.step item).map (behind p k)).mapError (SyntaxError.shift k) := by
  match item with
  | .error e => rfl
  | .ok l =>
    have hitem : Item.shift k (.ok l) = .ok (l.shift k) := rfl
    have hplace : (r.behind p k).place = r.place.shift k := rfl
    rw [hitem]
    by_cases hcomment : l.token = .comment
    · simp [step, advance, Lexeme.shift, hcomment, behind, Except.map, Except.mapError]
    by_cases hend : l.token = .endOfInput
    · obtain ⟨token, span⟩ := l
      obtain rfl : token = .endOfInput := hend
      have hshift : (Lexeme.shift k ⟨.endOfInput, span⟩) = ⟨.endOfInput, span.shift k⟩ := rfl
      have hstart : (span.shift k).start = span.start + k := rfl
      rw [hshift, step_end, step_end, ending, ending, hplace, hstart, Place.atEnd_shift]
      cases r.place.atEnd span.start <;> rfl
    · have htoken : (l.shift k).token = l.token := rfl
      rw [step_ok hcomment hend, step_ok (htoken ▸ hcomment) (htoken ▸ hend), hplace,
        Place.take_shift]
      cases r.place.take l with
      | error e => rfl
      | ok step => exact congrArg Except.ok (settle_behind k p r step)

/-- Behind a program that was read, a text is read as if it stood alone. -/
theorem read_behind (p : Program) (r : Reading) (items : List Item) :
    (r.behind p k).read (items.map (Item.shift k)) =
      ((r.read items).map (behind p k)).mapError (SyntaxError.shift k) := by
  induction items generalizing r with
  | nil => rfl
  | cons item items ih =>
    rw [List.map_cons, read_cons, read_cons, step_behind]
    cases r.step item with
    | error e => rfl
    | ok r' => exact ih r'

end Reading

end Reading

section Composition

/-- One program behind the other. -/
def Program.append (p q : Program) : Program := ⟨p.forms ++ q.forms, p.comments ++ q.comments⟩

namespace Cursor

theorem items_eq_of_skip_eq {c c' : Cursor} (h : c.skip Text.isBlank = c'.skip Text.isBlank) :
    c.items = c'.items := items_congr (by rw [scan, scan, h])

theorem isEnd_of_items_eq_singleton {c : Cursor} {item : Item} (h : c.items = [item]) :
    c.scan.1.isEnd = true := by
  by_contra hend
  obtain ⟨front, span, hitems, -⟩ := c.scan.2.items_eq_append
  simp [items_of_not_isEnd hend, hitems] at h

/-- Where a text ends, what is appended begins. -/
theorem items_append_of_isEnd {c : Cursor} (h : c.scan.1.isEnd = true) (t : List Char) :
    (c.append t).items = (Cursor.mk 0 t).items.map (Item.shift c.bound) := by
  have hblank := all_isBlank_of_isEnd h
  have htake : c.rest.takeWhile Text.isBlank = c.rest := by simpa using hblank
  have hdrop : c.rest.dropWhile Text.isBlank = [] := by simpa using hblank
  rw [← items_shift]
  refine items_eq_of_skip_eq ?_
  simp [skip_eq, append, shift, bound, List.takeWhile_append_of_pos hblank,
    List.dropWhile_append_of_pos hblank, Nat.add_assoc]

end Cursor

/-- A text is read up to its end. -/
theorem Program.exists_of_ofCursor_eq_ok {c : Cursor} {p : Program}
    (hp : Program.ofCursor c = .ok p) : ∃ front span r,
      c.items = front ++ [.ok ⟨.endOfInput, span⟩] ∧ Reading.start.read front = .ok r ∧
        r.place = .top ∧ r.toProgram = p := by
  obtain ⟨front, span, hitems, -⟩ := c.items_eq_append
  rw [Program.ofCursor_eq, hitems, Reading.read_append] at hp
  cases hread : Reading.start.read front with
  | error e => simp [hread, Except.bind, Except.map] at hp
  | ok r =>
    refine ⟨front, span, r, hitems, hread, ?_⟩
    rw [hread, Except.bind, Reading.read_cons, Reading.step_end] at hp
    by_cases hplace : r.place = .top
    · rw [Reading.ending_of_top hplace] at hp
      exact ⟨hplace, Except.ok.inj hp⟩
    · rw [Reading.ending_of_ne_top hplace] at hp
      cases hp

/-- A text that was read hands over to the text behind it. -/
theorem Program.ofChars_append {a t : List Char} {p : Program} (hseam : Seam a t)
    (hp : Program.ofChars a = .ok p) :
    Program.ofChars (a ++ t) =
      ((Program.ofChars t).map fun q => p.append (q.shift (width a))).mapError
        (SyntaxError.shift (width a)) := by
  obtain ⟨front, span, r, hitems, hfront, hplace, rfl⟩ := Program.exists_of_ofCursor_eq_ok hp
  have hshort : ∀ item ∈ front, ¬item.isEnd = true ∧ ¬item.isOpen = true := fun item hi =>
    ⟨Cursor.not_isEnd_of_items_eq hitems item hi,
      Item.not_isOpen_of_isOk (Reading.isOk_of_read_eq_ok hfront item hi)⟩
  obtain ⟨c', hback, happend, hbound, -⟩ := Cursor.exists_items_append hseam hitems hshort
  have hwidth : c'.bound = width a := by simpa [Cursor.bound] using hbound
  have hbehind : r = Reading.start.behind r.toProgram (width a) := by
    obtain ⟨place, forms, comments⟩ := r
    obtain rfl : place = .top := hplace
    simp [Reading.behind, Reading.start, Reading.toProgram, Place.top, Place.shift]
  have hread : Reading.start.read ((⟨0, a⟩ : Cursor).append t).items =
      ((Reading.start.read (⟨0, t⟩ : Cursor).items).map
        (Reading.behind r.toProgram (width a))).mapError (SyntaxError.shift (width a)) := by
    rw [happend, Cursor.items_append_of_isEnd (Cursor.isEnd_of_items_eq_singleton hback), hwidth,
      Reading.read_append_of_ok hfront, ← Reading.read_behind, ← hbehind]
  have hlonger : Program.ofChars (a ++ t) = Program.ofCursor ((⟨0, a⟩ : Cursor).append t) := rfl
  rw [hlonger, Program.ofCursor_eq, hread, Program.ofChars, Program.ofCursor_eq]
  cases Reading.start.read (⟨0, t⟩ : Cursor).items with
  | error e => rfl
  | ok r' =>
    simp [Except.map, Except.mapError, Reading.behind, Reading.toProgram, Program.append,
      Program.shift]

end Composition

end FrameLisp.Source
