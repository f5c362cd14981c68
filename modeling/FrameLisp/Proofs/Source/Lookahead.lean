import Mathlib
import FrameLisp.Proofs.Source.Scanning
import FrameLisp.Source.Lookahead

/-!
# Windows and cursors

A window moves as a cursor does, and scanning through it gives the same items, with their offsets
counted in 32 bits.
-/
namespace FrameLisp.Source

section Counting

/-- The span with its offsets counted in 32 bits. -/
def Span.counted (s : Span) : Span := ⟨s.start % 2 ^ 32, s.stop % 2 ^ 32⟩

def Lexeme.counted (l : Lexeme) : Lexeme := { l with span := l.span.counted }

def LexicalError.counted (e : LexicalError) : LexicalError := { e with span := e.span.counted }

/-- The item with its offsets counted in 32 bits. -/
def Item.counted : Item → Item
  | .ok l => .ok l.counted
  | .error e => .error e.counted

theorem Span.counted_eq_self {s : Span} (hstart : s.start < 2 ^ 32) (hstop : s.stop < 2 ^ 32) :
    s.counted = s := by
  rw [counted, Nat.mod_eq_of_lt hstart, Nat.mod_eq_of_lt hstop]

theorem Item.isEnd_counted (item : Item) : item.counted.isEnd = item.isEnd := by
  cases item <;> rfl

end Counting

namespace Cursor

/-- Forward by one character, short of the end of the text. -/
def next (c : Cursor) : Cursor :=
  match c.rest with
  | [] => c
  | ch :: cs => ⟨c.offset + ch.utf8Size, cs⟩

section Moves

theorem offset_next (c : Cursor) : c.next.offset = c.following := by
  obtain ⟨offset, _ | ⟨ch, cs⟩⟩ := c <;> simp [next, following]

theorem window_advance (c : Cursor) : c.window.advance = c.next.window := by
  obtain ⟨offset, rest⟩ := c
  match rest with
  | [] | [_] | [_, _] | _ :: _ :: _ :: _ =>
    simp [window, Window.advance, next, following, Window.indexed]

theorem window_ofString (s : String) : Window.ofString s = (Cursor.ofString s).window := by
  rw [Window.ofString, ofString]
  match s.toList with
  | [] | [_] | _ :: _ :: _ => simp [window, Window.advance, following, Window.indexed]

theorem window_current (c : Cursor) : c.window.current = c.rest.head? := by
  rw [window, List.head?_eq_getElem?]

theorem rest_of_current_eq_none {offset : Nat} {rest : List Char}
    (h : (mk offset rest).window.current = none) : rest = [] := by
  rwa [window_current, List.head?_eq_none_iff] at h

theorem exists_rest_of_current_eq_some {offset : Nat} {rest : List Char} {ch : Char}
    (h : (mk offset rest).window.current = some ch) : ∃ cs, rest = ch :: cs :=
  List.head?_eq_some_iff.1 ((window_current _).symm.trans h)

theorem window_takeWhile (p : Char → Bool) (read : List Char) (c : Cursor) :
    c.window.takeWhile p read = (read.reverse ++ c.rest.takeWhile p, (c.skip p).window) := by
  obtain ⟨offset, rest⟩ := c
  generalize hw : (mk offset rest).window = w
  fun_induction Window.takeWhile p read w generalizing offset rest with
  | case1 read w hcurrent =>
    subst hw
    obtain rfl := rest_of_current_eq_none hcurrent
    simp [skip, skipFrom]
  | case2 read w ch hcurrent hp ih =>
    subst hw
    obtain ⟨cs, rfl⟩ := exists_rest_of_current_eq_some hcurrent
    rw [ih _ _ (window_advance ⟨offset, ch :: cs⟩).symm]
    simp [skip, skipFrom, hp]
  | case3 read w ch hcurrent hp =>
    subst hw
    obtain ⟨cs, rfl⟩ := exists_rest_of_current_eq_some hcurrent
    simp [skip, skipFrom, hp]

theorem window_skip (p : Char → Bool) (c : Cursor) : c.window.skip p = (c.skip p).window := by
  rw [Window.skip, window_takeWhile]

end Moves

section Scans

theorem spanTo_window (c c' : Cursor) :
    c.window.spanTo c'.window = Span.counted ⟨c.offset, c'.offset⟩ := by
  simp only [Window.spanTo, window, UInt32.toNat_ofNat', Span.counted]

theorem window_scanString (start : Cursor) (value : String) (offset : Nat) (cs : List Char) :
    Window.scanString start.window value (mk offset cs).window =
      ((scanString start.offset value offset cs).1.counted,
        (scanString start.offset value offset cs).2.window) := by
  have hbackslash : '\\'.utf8Size = 1 := rfl
  generalize hw : (mk offset cs).window = w
  fun_induction Window.scanString start.window value w generalizing offset cs with
  | case1 value w hcurrent =>
    subst hw
    obtain rfl := rest_of_current_eq_none hcurrent
    rw [window_advance, spanTo_window]
    rfl
  | case2 value w hcurrent =>
    subst hw
    obtain ⟨cs, rfl⟩ := exists_rest_of_current_eq_some hcurrent
    rw [window_advance, spanTo_window]
    rfl
  | case3 value w hcurrent hnext =>
    subst hw
    obtain ⟨cs, rfl⟩ := exists_rest_of_current_eq_some hcurrent
    rw [window_advance] at hnext
    obtain rfl := rest_of_current_eq_none hnext
    rw [window_advance, window_advance, spanTo_window]
    rfl
  | case4 value w hcurrent c hnext d hd ih =>
    subst hw
    obtain ⟨cs, rfl⟩ := exists_rest_of_current_eq_some hcurrent
    rw [window_advance] at hnext
    obtain ⟨cs, rfl⟩ := exists_rest_of_current_eq_some hnext
    have hmoved : (mk offset ('\\' :: c :: cs)).window.advance.advance =
        (mk (offset + 1 + c.utf8Size) cs).window := by
      rw [window_advance, window_advance]
      rfl
    rw [ih _ _ hmoved.symm]
    simp [scanString, hd]
  | case5 value w hcurrent c hnext hc =>
    subst hw
    obtain ⟨cs, rfl⟩ := exists_rest_of_current_eq_some hcurrent
    rw [window_advance] at hnext
    obtain ⟨cs, rfl⟩ := exists_rest_of_current_eq_some hnext
    rw [window_advance, window_advance, spanTo_window]
    simp [scanString, hc, next, hbackslash, Item.counted, LexicalError.counted]
  | case6 value w c hne hne' hcurrent ih =>
    subst hw
    obtain ⟨cs, rfl⟩ := exists_rest_of_current_eq_some hcurrent
    rw [ih (offset + c.utf8Size) cs (window_advance ⟨offset, c :: cs⟩).symm,
      scanString_cons start.offset value offset hne hne']

theorem window_scanAtom (c : Cursor) :
    c.window.scanAtom = (c.scanAtom.1.counted, c.scanAtom.2.window) := by
  rw [Window.scanAtom, window_takeWhile, scanAtom]
  simp only [List.reverse_nil, List.nil_append, spanTo_window]
  cases classify (c.rest.takeWhile fun ch => !isDelimiter ch) <;> rfl

theorem window_scanToken (c : Cursor) :
    c.window.scanToken = (c.scanToken.1.counted, c.scanToken.2.window) := by
  obtain ⟨offset, rest⟩ := c
  match rest with
  | [] =>
    simp only [Window.scanToken, window_current, List.head?_nil, scanToken, spanTo_window]
    rfl
  | ch :: cs =>
    by_cases hcomment : ch = ';'
    · subst hcomment
      simp only [Window.scanToken, window_current, List.head?_cons, window_skip, spanTo_window,
        scanToken, Item.counted, Lexeme.counted]
    by_cases hstring : ch = '"'
    · subst hstring
      simp only [Window.scanToken, window_current, List.head?_cons, window_advance, scanToken]
      exact window_scanString _ "" (offset + 1) cs
    by_cases hsingle : ch = '(' ∨ ch = ')' ∨ ch = '\''
    · rcases hsingle with rfl | rfl | rfl <;>
        simp only [Window.scanToken, window_current, List.head?_cons, window_advance,
          spanTo_window, scanToken] <;> rfl
    · have hplain : ch ∉ ['(', ')', '\'', ';', '"'] := by simp_all
      rw [scanToken_eq_scanAtom rfl hplain, ← window_scanAtom]
      simp_all [Window.scanToken, window_current]

/-- A window scans as its cursor does. -/
theorem window_scan (c : Cursor) : c.window.scan = (c.scan.1.counted, c.scan.2.window) := by
  rw [Window.scan, window_skip, window_scanToken, scan]

end Scans

end Cursor

end FrameLisp.Source
