import FrameLisp.Proofs.Source.Coverage

/-!
# Nothing of a text is lost

Scanning item by item goes forward through a text until its end, where it stays. The counter of a
window is the offset of its character all the way. The spans of the items follow one another with
white space in between, and under the span of a token stands the text of that token and no more.

The one thing that has no item is the beginning of a string in which an unknown escape was found.
-/
namespace FrameLisp.Source

section Offsets

/-- The slice of a text between two byte offsets. -/
def slice (s : String) (start stop : Nat) : String := String.Pos.Raw.extract s ⟨start⟩ ⟨stop⟩

/-- Whether a character of a text begins at an offset, or the text ends there. -/
def IsBoundary (s : String) (offset : Nat) : Prop := String.Pos.Raw.IsValid s ⟨offset⟩

theorem utf8Len_eq_width (cs : List Char) : String.utf8Len cs = width cs := by
  induction cs with
  | nil => rfl
  | cons c cs ih => rw [String.utf8Len_cons, width_cons, ih, Nat.add_comm]

theorem utf8ByteSize_eq_width (s : String) : s.utf8ByteSize = width s.toList := by
  rw [← utf8Len_eq_width, ← String.utf8ByteSize_ofList, String.ofList_toList]

theorem slice_of_toList {s : String} {front text back : List Char}
    (h : s.toList = front ++ text ++ back) :
    slice s (width front) (width front + width text) = String.ofList text := by
  have hslice := String.extract_of_valid front text back
  rwa [← h, String.ofList_toList, utf8Len_eq_width, utf8Len_eq_width] at hslice

theorem isBoundary_of_toList {s : String} {front back : List Char}
    (h : s.toList = front ++ back) : IsBoundary s (width front) := by
  refine String.Pos.Raw.isValid_iff_exists_append.2 ⟨String.ofList front, String.ofList back, ?_, ?_⟩
  · rw [← String.ofList_append, ← h, String.ofList_toList]
  · rw [← utf8Len_eq_width, ← String.utf8ByteSize_ofList]
    rfl

end Offsets

section Places

/-- The cursor before the character with an index. -/
def Cursor.before (s : String) (k : Nat) : Cursor := ⟨width (s.toList.take k), s.toList.drop k⟩

/-- Whether a window looks at the character with an index and the one after it, and has their
offsets. -/
structure Window.Before (s : String) (k : Nat) (w : Window) : Prop where
  position : w.position.toNat = width (s.toList.take k)
  following : w.following.toNat = width (s.toList.take (k + 1))
  current : w.current = s.toList[k]?
  next : w.next = s.toList[k + 1]?

variable {s : String}

namespace Cursor

theorem width_take_add_drop (cs : List Char) (k : Nat) :
    width (cs.take k) + width (cs.drop k) = width cs := by
  rw [← width_append, List.take_append_drop]

theorem bound_before (s : String) (k : Nat) : (before s k).bound = s.utf8ByteSize := by
  rw [utf8ByteSize_eq_width]
  exact width_take_add_drop _ k

theorem next_before (s : String) (k : Nat) : (before s k).next = before s (k + 1) := by
  by_cases hk : k < s.toList.length
  · have hdrop := List.drop_eq_getElem_cons hk
    have htake := List.take_succ_eq_append_getElem hk
    have hbefore : before s k =
        ⟨width (s.toList.take k), s.toList[k] :: s.toList.drop (k + 1)⟩ := by
      rw [before, hdrop]
    have hafter : before s (k + 1) =
        ⟨width (s.toList.take k) + s.toList[k].utf8Size, s.toList.drop (k + 1)⟩ := by
      rw [before, htake, width_append, width_cons, width_nil, Nat.add_zero]
    rw [hbefore, hafter]
    rfl
  · have hlength : s.toList.length ≤ k := Nat.le_of_not_lt hk
    have hdrop := List.drop_of_length_le hlength
    have htake := List.take_of_length_le hlength
    have hdrop' := List.drop_of_length_le (Nat.le_succ_of_le hlength)
    have htake' := List.take_of_length_le (Nat.le_succ_of_le hlength)
    simp [before, next, hdrop, htake, hdrop', htake']

/-- A scan goes from one character to another. -/
theorem exists_scan_before (s : String) (k : Nat) : ∃ k', (before s k).scan.2 = before s k' := by
  have hsuffix := (scan_rest_suffix (before s k)).trans (List.drop_suffix k s.toList)
  have hbound := bound_scan (before s k)
  generalize (before s k).scan.2 = c at hsuffix hbound ⊢
  obtain ⟨offset, rest⟩ := c
  obtain ⟨front, hfront⟩ := hsuffix
  have hdrop : s.toList.drop front.length = rest := by rw [← hfront, List.drop_left]
  have htake : s.toList.take front.length = front := by rw [← hfront, List.take_left]
  have hoffset : offset = width front := by
    rw [bound_before, utf8ByteSize_eq_width, ← hfront, width_append] at hbound
    exact Nat.add_right_cancel hbound
  exact ⟨front.length, by rw [before, hdrop, htake, hoffset]⟩

theorem width_take_le (s : String) (k : Nat) : width (s.toList.take k) ≤ s.utf8ByteSize := by
  rw [utf8ByteSize_eq_width, ← width_take_add_drop s.toList k]
  exact Nat.le_add_right _ _

theorem window_before (hs : s.utf8ByteSize < 2 ^ 32) (k : Nat) :
    (before s k).window.Before s k where
  position := UInt32.toNat_ofNat_of_lt' ((width_take_le s k).trans_lt hs)
  following := by
    rw [window, ← offset_next, next_before]
    exact UInt32.toNat_ofNat_of_lt' ((width_take_le s (k + 1)).trans_lt hs)
  current := by simp [window, before]
  next := by simp [window, before]

theorem iterate_advance (s : String) (k : Nat) :
    Window.advance^[k] (.ofString s) = (before s k).window := by
  induction k with
  | zero => exact window_ofString s
  | succ k ih => rw [Function.iterate_succ_apply', ih, window_advance, next_before]

end Cursor

end Places

section Sequences

/-- The cursor behind the first items of a text. -/
def Cursor.behind (s : String) (n : Nat) : Cursor := (fun c => c.scan.2)^[n] (.ofString s)

/-- The window behind the first items of a text. -/
def Window.behind (s : String) (n : Nat) : Window := (fun w => w.scan.2)^[n] (.ofString s)

/-- The items that a window comes by; behind the last one the text ends over and over. -/
def Window.item (s : String) (n : Nat) : Item := (behind s n).scan.1

/-- Where the items before an item end. -/
def Window.reached (s : String) : Nat → Nat
  | 0 => 0
  | n + 1 => (item s n).span.stop

variable {s : String}

theorem Item.counted_eq_self {item : Item} (hstart : item.span.start < 2 ^ 32)
    (hstop : item.span.stop < 2 ^ 32) : item.counted = item := by
  have hspan := Span.counted_eq_self hstart hstop
  cases item with
  | ok l => rw [counted, Lexeme.counted, show l.span.counted = l.span from hspan]
  | error e => rw [counted, LexicalError.counted, show e.span.counted = e.span from hspan]

namespace Cursor

theorem behind_succ (s : String) (n : Nat) : behind s (n + 1) = (behind s n).scan.2 :=
  Function.iterate_succ_apply' _ _ _

theorem bound_behind (s : String) (n : Nat) : (behind s n).bound = s.utf8ByteSize := by
  induction n with
  | zero => exact bound_before s 0
  | succ n ih => rw [behind_succ, bound_scan, ih]

theorem exists_behind_eq_before (s : String) (n : Nat) : ∃ k, behind s n = before s k := by
  induction n with
  | zero => exact ⟨0, rfl⟩
  | succ n ih =>
    obtain ⟨k, hk⟩ := ih
    rw [behind_succ, hk]
    exact exists_scan_before s k

theorem window_behind (s : String) (n : Nat) : Window.behind s n = (behind s n).window := by
  induction n with
  | zero => exact window_ofString s
  | succ n ih =>
    rw [Window.behind, Function.iterate_succ_apply', ← Window.behind, ih, window_scan,
      behind_succ]

theorem item_eq_counted (s : String) (n : Nat) :
    Window.item s n = (behind s n).scan.1.counted := by
  rw [Window.item, window_behind, window_scan]

/-- Where all offsets fit in 32 bits, nothing is lost by counting in these. -/
theorem counted_scan {c : Cursor} (hbound : c.bound < 2 ^ 32) : c.scan.1.counted = c.scan.1 := by
  obtain ⟨gap, lead, text, h⟩ := c.exists_divides
  have hafter := bound_scan c
  rw [bound] at hafter
  have hstart := h.start
  have hstop := h.stop
  have hoffset := h.offset
  refine Item.counted_eq_self ?_ ?_ <;> omega

theorem item_eq_scan (hs : s.utf8ByteSize < 2 ^ 32) (n : Nat) :
    Window.item s n = (behind s n).scan.1 := by
  rw [item_eq_counted, counted_scan (by rwa [bound_behind])]

/-- Items end where the next one is looked for. -/
theorem reached_eq_offset (hs : s.utf8ByteSize < 2 ^ 32) (n : Nat) :
    Window.reached s n = (behind s n).offset := by
  cases n with
  | zero => rfl
  | succ n =>
    obtain ⟨gap, lead, text, h⟩ := (behind s n).exists_divides
    rw [Window.reached, item_eq_scan hs, h.stop, behind_succ]

theorem position_behind (hs : s.utf8ByteSize < 2 ^ 32) (n : Nat) :
    (Window.behind s n).position.toNat = (behind s n).offset := by
  obtain ⟨k, hk⟩ := exists_behind_eq_before s n
  rw [window_behind, hk]
  exact (window_before hs k).position

/-- How the item with an index stands in its text. -/
theorem exists_toList_eq (s : String) (n : Nat) : ∃ front gap lead text back,
    (behind s n).Divides gap lead text ∧ s.toList = front ++ (gap ++ lead) ++ text ++ back ∧
      (behind s n).offset = width front := by
  obtain ⟨k, hk⟩ := exists_behind_eq_before s n
  obtain ⟨gap, lead, text, h⟩ := (behind s n).exists_divides
  refine ⟨s.toList.take k, gap, lead, text, (behind s n).scan.2.rest, h, ?_, by rw [hk]; rfl⟩
  have hrest : s.toList.drop k = gap ++ lead ++ text ++ (behind s n).scan.2.rest := by
    rw [← h.rest, hk]
    rfl
  rw [List.append_assoc _ text, List.append_assoc, ← List.append_assoc (gap ++ lead), ← hrest,
    List.take_append_drop]

/-- The first item of some characters, and what comes behind it. -/
theorem item_ofList {cs : List Char} (hcs : width cs < 2 ^ 32) :
    Window.item (String.ofList cs) 0 = (mk 0 cs).scan.1 ∧
      Window.item (String.ofList cs) 1 = (mk 0 cs).scan.2.scan.1 := by
  have hs : (String.ofList cs).utf8ByteSize < 2 ^ 32 := by
    rwa [utf8ByteSize_eq_width, String.toList_ofList]
  have hbegin : ofString (String.ofList cs) = ⟨0, cs⟩ := by rw [ofString, String.toList_ofList]
  rw [item_eq_scan hs, item_eq_scan hs, behind_succ, ← hbegin]
  exact ⟨rfl, rfl⟩

theorem offset_lt_of_not_isEnd {c : Cursor} (h : ¬c.scan.1.isEnd = true) :
    c.offset < c.scan.2.offset := by
  have hlength := scan_rest_length_lt h
  have hbound := bound_scan c
  obtain ⟨front, hfront⟩ := scan_rest_suffix c
  rw [bound, bound, ← hfront, width_append] at hbound
  cases front with
  | nil =>
    rw [← hfront, List.nil_append] at hlength
    exact absurd hlength (Nat.lt_irrefl _)
  | cons ch front =>
    have hpositive := ch.utf8Size_pos
    rw [width_cons] at hbound
    omega

theorem exists_isEnd (c : Cursor) : ∃ n, ((fun c : Cursor => c.scan.2)^[n] c).scan.1.isEnd = true := by
  induction c using inductionOnScan with
  | atEnd c hend => exact ⟨0, hend⟩
  | step c hend ih =>
    obtain ⟨n, hn⟩ := ih
    exact ⟨n + 1, hn⟩

/-- Once a text has ended, it ends over and over. -/
theorem scan_behind_of_isEnd {n m : Nat} (h : (behind s n).scan.1.isEnd = true) (hle : n ≤ m) :
    (behind s m).scan =
      (.ok ⟨.endOfInput, .point s.utf8ByteSize⟩, ⟨s.utf8ByteSize, []⟩) := by
  induction m, hle using Nat.le_induction with
  | base => rw [scan_of_isEnd h, bound_behind]
  | succ m hle ih =>
    rw [behind_succ, ih]
    rfl

end Cursor

end Sequences

section Main

open Window

/-- What scanning does with the characters of a text. -/
structure Lossless (s : String) : Prop where
  /-- Before every character, and at the end, both offsets are exact. -/
  counted : ∀ k, (advance^[k] (ofString s)).Before s k
  /-- Between items a window stands before a character, or at the end. -/
  moved : ∀ n, ∃ k, behind s n = advance^[k] (ofString s)
  /-- The text ends. -/
  ends : ∃ n, (item s n).isEnd = true
  /-- It ends at its length, from then on. -/
  ended : ∀ n, (item s n).isEnd = true → ∀ m, n ≤ m →
    item s m = .ok ⟨.endOfInput, .point s.utf8ByteSize⟩ ∧
      (behind s (m + 1)).position.toNat = s.utf8ByteSize
  /-- Short of the end every token and every fault is a step forward. -/
  forward : ∀ n, ¬(item s n).isEnd = true → (behind s n).position < (behind s (n + 1)).position
  ordered : ∀ n, (item s n).span.start ≤ (item s n).span.stop ∧
    (item s n).span.stop ≤ (item s (n + 1)).span.start
  bounded : ∀ n, IsBoundary s (item s n).span.start ∧ IsBoundary s (item s n).span.stop
  /-- Between items stands white space, except that a fault in an escape comes behind the beginning
  of a string. -/
  between : ∀ n, (slice s (reached s n) (item s n).span.start).toList.all Text.isBlank = true ∨
    ∃ ch span opened, item s n = .error ⟨.unknownEscape ch, span⟩ ∧
      item (slice s (reached s n) span.start) 0 = .error ⟨.unterminatedString, opened⟩
  /-- The slice under a token is that token. -/
  alone : ∀ n token span, item s n = .ok ⟨token, span⟩ →
    item (slice s span.start span.stop) 0 = .ok ⟨token, ⟨0, span.stop - span.start⟩⟩ ∧
      item (slice s span.start span.stop) 1 =
        .ok ⟨.endOfInput, .point (span.stop - span.start)⟩

variable {s : String}

theorem bounded_item (hs : s.utf8ByteSize < 2 ^ 32) (n : Nat) :
    IsBoundary s (item s n).span.start ∧ IsBoundary s (item s n).span.stop := by
  obtain ⟨front, gap, lead, text, back, h, htext, hoffset⟩ := Cursor.exists_toList_eq s n
  have hstart : (item s n).span.start = width (front ++ (gap ++ lead)) := by
    rw [Cursor.item_eq_scan hs, h.start, hoffset, ← width_append]
  have hstop : (item s n).span.stop = width (front ++ (gap ++ lead) ++ text) := by
    rw [Cursor.item_eq_scan hs, h.stop, h.offset, hoffset, ← width_append, ← width_append]
  rw [hstart, hstop]
  exact ⟨isBoundary_of_toList (htext.trans (List.append_assoc _ _ _)), isBoundary_of_toList htext⟩

theorem between_items (hs : s.utf8ByteSize < 2 ^ 32) (n : Nat) :
    (slice s (reached s n) (item s n).span.start).toList.all Text.isBlank = true ∨
    ∃ ch span opened, item s n = .error ⟨.unknownEscape ch, span⟩ ∧
      item (slice s (reached s n) span.start) 0 = .error ⟨.unterminatedString, opened⟩ := by
  obtain ⟨front, gap, lead, text, back, h, htext, hoffset⟩ := Cursor.exists_toList_eq s n
  have hslice : slice s (reached s n) (item s n).span.start = String.ofList (gap ++ lead) := by
    rw [Cursor.reached_eq_offset hs, Cursor.item_eq_scan hs, h.start, hoffset]
    exact slice_of_toList (htext.trans (List.append_assoc _ _ _))
  rcases h.led with rfl | ⟨ch, span, opened, hfault, hopen⟩
  · left
    rw [hslice, String.toList_ofList, List.append_nil, List.all_eq_true]
    exact h.blank
  · right
    have hitem : item s n = .error ⟨.unknownEscape ch, span⟩ := by
      rw [Cursor.item_eq_scan hs, hfault]
    have hwidth : width (gap ++ lead) < 2 ^ 32 := by
      rw [utf8ByteSize_eq_width, htext] at hs
      simp only [width_append] at hs ⊢
      omega
    obtain ⟨opened', hopen'⟩ := Cursor.scan_zero_of_open hopen
    rw [hitem] at hslice
    exact ⟨ch, span, opened', hitem, hslice ▸ (Cursor.item_ofList hwidth).1.trans hopen'⟩

theorem token_alone (hs : s.utf8ByteSize < 2 ^ 32) {n : Nat} {token : Token} {span : Span}
    (h : item s n = .ok ⟨token, span⟩) :
    item (slice s span.start span.stop) 0 = .ok ⟨token, ⟨0, span.stop - span.start⟩⟩ ∧
      item (slice s span.start span.stop) 1 =
        .ok ⟨.endOfInput, .point (span.stop - span.start)⟩ := by
  obtain ⟨front, gap, lead, text, back, hdivides, htext, hoffset⟩ := Cursor.exists_toList_eq s n
  have hitem : (Cursor.behind s n).scan.1 = .ok ⟨token, span⟩ := by rw [← Cursor.item_eq_scan hs, h]
  have hstart : span.start = width (front ++ (gap ++ lead)) := by
    have hstart := hdivides.start
    rwa [hitem, hoffset, ← width_append] at hstart
  have hstop : span.stop = span.start + width text := by
    have hstop := hdivides.stop
    rwa [hitem, hdivides.offset, hoffset, ← width_append, ← hstart] at hstop
  have hslice : slice s span.start span.stop = String.ofList text := by
    rw [hstop, hstart]
    exact slice_of_toList htext
  have hwidth : width text < 2 ^ 32 := by
    rw [utf8ByteSize_eq_width, htext] at hs
    simp only [width_append] at hs
    omega
  obtain ⟨hfirst, hsecond⟩ := Cursor.item_ofList hwidth
  rw [hdivides.scan_text hitem] at hfirst hsecond
  have hsize : span.stop - span.start = width text := by omega
  rw [hslice, hsize]
  exact ⟨hfirst, hsecond⟩

/-- Scanning loses nothing of a text whose offsets fit in 32 bits, and always moves forward. -/
theorem lossless (hs : s.utf8ByteSize < 2 ^ 32) : Lossless s where
  counted k := by
    rw [Cursor.iterate_advance]
    exact Cursor.window_before hs k
  moved n := by
    obtain ⟨k, hk⟩ := Cursor.exists_behind_eq_before s n
    exact ⟨k, by rw [Cursor.window_behind, hk, Cursor.iterate_advance]⟩
  ends := by
    obtain ⟨n, hn⟩ := Cursor.exists_isEnd (.ofString s)
    exact ⟨n, by rwa [Cursor.item_eq_scan hs]⟩
  ended n hend m hle := by
    rw [Cursor.item_eq_scan hs] at hend
    have hscan := Cursor.scan_behind_of_isEnd hend hle
    rw [Cursor.item_eq_scan hs, Cursor.position_behind hs, Cursor.behind_succ, hscan]
    exact ⟨rfl, rfl⟩
  forward n hend := by
    rw [Cursor.item_eq_scan hs] at hend
    rw [UInt32.lt_iff_toNat_lt, Cursor.position_behind hs, Cursor.position_behind hs,
      Cursor.behind_succ]
    exact Cursor.offset_lt_of_not_isEnd hend
  ordered n := by
    obtain ⟨gap, lead, text, h⟩ := (Cursor.behind s n).exists_divides
    obtain ⟨gap', lead', text', h'⟩ := (Cursor.behind s (n + 1)).exists_divides
    have hstart := h.start
    have hstop := h.stop
    have hoffset := h.offset
    have hnext := h'.start
    rw [Cursor.behind_succ] at hnext
    rw [Cursor.item_eq_scan hs, Cursor.item_eq_scan hs, Cursor.behind_succ]
    omega
  bounded n := bounded_item hs n
  between n := between_items hs n
  alone n _ _ h := token_alone hs h

theorem lossless_accented : "(é \"ü\") ; ω".utf8ByteSize < 2 ^ 32 ∧ Lossless "(é \"ü\") ; ω" :=
  ⟨by decide, lossless (by decide)⟩

/-- Before an unknown escape stands a quotation mark, also where nothing was wrong before. -/
theorem quote_before_escape :
    ¬∀ s : String, s.utf8ByteSize < 2 ^ 32 → ∀ n, (∀ m < n, (item s m).isOk = true) →
      (slice s (reached s n) (item s n).span.start).toList.all Text.isBlank = true := by
  intro hblank
  have hs : "a \"\\q\"".utf8ByteSize < 2 ^ 32 := by decide
  have hfirst : item "a \"\\q\"" 0 = .ok ⟨.symbol "a", ⟨0, 1⟩⟩ := by
    rw [Cursor.item_eq_scan hs]
    decide
  have hsecond : item "a \"\\q\"" 1 = .error ⟨.unknownEscape 'q', ⟨3, 5⟩⟩ := by
    rw [Cursor.item_eq_scan hs]
    decide
  have hbetween := hblank _ hs 1 fun m hm => by
    rw [Nat.lt_one_iff.1 hm, hfirst]
    rfl
  rw [reached, hfirst, hsecond] at hbetween
  exact absurd hbetween (by decide)

end Main

end FrameLisp.Source
