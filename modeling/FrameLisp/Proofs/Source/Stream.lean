import FrameLisp.Proofs.Source.Chunks
import FrameLisp.Proofs.Source.Coverage
import FrameLisp.Proofs.Source.Outcome
import FrameLisp.Source.Stream

/-!
# A file that is decoded while it is scanned

The scanner of a file meets the same items as that of the characters before the first fault, and
ends where that one ends: it does not get past the first place where there is no character. The
number of characters that it asked for by then is known from how it ends, and the faults among them
are those that were met.
-/
namespace FrameLisp.Source

open Text

section Leading

/-- Behind the characters before the first fault there is no character. -/
theorem exists_leading_append (input : List Decoded) : ∃ later,
    input = (Decoded.leading input).map .char ++ later ∧ ∀ e ∈ later.head?, e.char? = none := by
  induction input with
  | nil => exact ⟨[], rfl, by simp⟩
  | cons event input ih =>
    cases event with
    | char c =>
      obtain ⟨later, hinput, hlater⟩ := ih
      exact ⟨later, congrArg (.char c :: ·) hinput, hlater⟩
    | _ => exact ⟨_, rfl, by simp [Decoded.char?]⟩

theorem filterMap_take_succ {α β : Type} (f : α → Option β) (l : List α) (n : Nat) :
    (l.take (n + 1)).filterMap f = (l.take n).filterMap f ++ (l[n]?.bind f).toList := by
  rw [List.take_add_one, List.filterMap_append]
  cases l[n]? with
  | none => rfl
  | some a => cases h : f a <;> simp [h]

end Leading

namespace CharStream

section Moves

/-- What it does to a file to ask for a character. -/
structure Moves (s t : CharStream) : Prop where
  position : t.position = s.following
  current : t.current = s.next
  input : t.input = s.input.tail
  next : t.next = s.input.head?.bind Decoded.char?
  decoded : t.decoded = t.next.toList ++ s.decoded
  offset : t.offset = s.offset + width t.next.toList
  fault : t.fault = (s.input.head?.bind Program.faultOf?).or s.fault
  found : ∀ c ∈ t.next, t.following = s.offset
  missing : t.next = none → t.following = s.following + width s.next.toList

theorem moves_advance (s : CharStream) : s.Moves s.advance := by
  obtain ⟨position, following, current, next, input, decoded, offset, fault⟩ := s
  have hsize : (next.map Char.utf8Size).getD 0 = width next.toList := by cases next <;> simp
  rcases input with _ | ⟨c | _ | _, input⟩
  case cons.char =>
    exact ⟨rfl, rfl, rfl, rfl, rfl, by simp [advance], rfl, fun _ _ => rfl, by simp [advance]⟩
  all_goals
    exact ⟨rfl, rfl, rfl, rfl, rfl, rfl, rfl, by simp [advance], fun _ => by simp [advance, hsize]⟩

end Moves

section Asked

/-- The file when some characters were asked for. -/
def asked (input : List Decoded) (n : Nat) : CharStream := advance^[n] (unread input)

theorem asked_succ (input : List Decoded) (n : Nat) :
    asked input (n + 1) = (asked input n).advance := Function.iterate_succ_apply' _ _ _

theorem moves_asked (input : List Decoded) (n : Nat) :
    (asked input n).Moves (asked input (n + 1)) := asked_succ input n ▸ moves_advance _

theorem input_asked (input : List Decoded) (n : Nat) :
    (asked input n).input = input.drop n := by
  induction n with
  | zero => rfl
  | succ n ih => rw [(moves_asked input n).input, ih, List.tail_drop]

theorem head?_input_asked (input : List Decoded) (n : Nat) :
    (asked input n).input.head? = input[n]? := by
  rw [input_asked, List.head?_drop]

theorem next_asked (input : List Decoded) (n : Nat) :
    (asked input (n + 1)).next = input[n]?.bind Decoded.char? := by
  rw [(moves_asked input n).next, head?_input_asked]

theorem decoded_asked (input : List Decoded) (n : Nat) :
    (asked input n).decoded.reverse = (input.take n).filterMap Decoded.char? := by
  induction n with
  | zero => rfl
  | succ n ih =>
    rw [(moves_asked input n).decoded, next_asked, List.reverse_append, ih, filterMap_take_succ]
    cases input[n]?.bind Decoded.char? <;> rfl

theorem fault_asked (input : List Decoded) (n : Nat) :
    (asked input n).fault = ((input.take n).filterMap Program.faultOf?).getLast? := by
  induction n with
  | zero => rfl
  | succ n ih =>
    rw [(moves_asked input n).fault, head?_input_asked, ih, filterMap_take_succ,
      List.getLast?_append]
    cases input[n]?.bind Program.faultOf? <;> rfl

theorem offset_asked (input : List Decoded) (n : Nat) :
    (asked input n).offset = width ((input.take n).filterMap Decoded.char?) := by
  induction n with
  | zero => rfl
  | succ n ih =>
    rw [(moves_asked input n).offset, next_asked, ih, filterMap_take_succ, width_append]

end Asked

section Text

variable {cs : List Char} {later : List Decoded} {n : Nat}

/-- A character before the first fault, or none right behind them. -/
theorem getElem?_leading (hlater : ∀ e ∈ later.head?, e.char? = none) (hn : n ≤ cs.length) :
    (cs.map .char ++ later)[n]?.bind Decoded.char? = cs[n]? := by
  have hlength : (cs.map Decoded.char).length = cs.length := List.length_map _
  rcases Nat.lt_or_eq_of_le hn with hlt | rfl
  · rw [List.getElem?_append_left (hlength ▸ hlt), List.getElem?_map,
      List.getElem?_eq_getElem hlt]
    rfl
  · rw [List.getElem?_append_right hlength.le, hlength, Nat.sub_self, ← List.head?_eq_getElem?,
      List.getElem?_eq_none (Nat.le_refl _)]
    cases hhead : later.head? with
    | none => rfl
    | some e => exact hlater e hhead

theorem filterMap_take_leading (hlater : ∀ e ∈ later.head?, e.char? = none)
    (hn : n ≤ cs.length + 1) :
    ((cs.map Decoded.char ++ later).take n).filterMap Decoded.char? = cs.take n := by
  induction n with
  | zero => rfl
  | succ n ih =>
    have hle : n ≤ cs.length := Nat.le_of_succ_le_succ hn
    rw [filterMap_take_succ, ih (Nat.le_succ_of_le hle), getElem?_leading hlater hle,
      List.take_add_one]

theorem current_asked (hlater : ∀ e ∈ later.head?, e.char? = none) (hn : n ≤ cs.length) :
    (asked (cs.map .char ++ later) (n + 2)).current = cs[n]? := by
  rw [(moves_asked _ (n + 1)).current, next_asked, getElem?_leading hlater hn]

/-- Characters behind the first fault begin where it is. -/
theorem following_asked (hlater : ∀ e ∈ later.head?, e.char? = none) (hn : n ≤ cs.length + 1) :
    (asked (cs.map .char ++ later) (n + 1)).following = width (cs.take n) := by
  induction n with
  | zero =>
    have hmoves := moves_asked (cs.map .char ++ later) 0
    cases hnext : (asked (cs.map .char ++ later) 1).next with
    | none => exact hmoves.missing hnext
    | some c => exact hmoves.found c hnext
  | succ n ih =>
    have hmoves := moves_asked (cs.map .char ++ later) (n + 1)
    cases hnext : (asked (cs.map .char ++ later) (n + 1 + 1)).next with
    | none =>
      have hle : n ≤ cs.length := Nat.le_of_succ_le_succ hn
      rw [hmoves.missing hnext, ih (Nat.le_succ_of_le hle), next_asked,
        getElem?_leading hlater hle, List.take_add_one, width_append]
    | some c => rw [hmoves.found c hnext, offset_asked, filterMap_take_leading hlater hn]

theorem position_asked (hlater : ∀ e ∈ later.head?, e.char? = none) (hn : n ≤ cs.length + 1) :
    (asked (cs.map .char ++ later) (n + 2)).position = width (cs.take n) := by
  rw [(moves_asked _ (n + 1)).position, following_asked hlater hn]

end Text

section Places

/-- Whether a file stands where a cursor stands in its characters before the first fault. -/
def Beside (cs : List Char) (later : List Decoded) (c : Cursor) (s : CharStream) : Prop :=
  ∃ n ≤ cs.length, c = ⟨width (cs.take n), cs.drop n⟩ ∧ s = asked (cs.map .char ++ later) (n + 2)

variable {cs : List Char} {later : List Decoded} (hlater : ∀ e ∈ later.head?, e.char? = none)
  {c : Cursor} {s : CharStream}

theorem beside_start (cs : List Char) (later : List Decoded) :
    Beside cs later ⟨0, cs⟩ (start (cs.map .char ++ later)) := ⟨0, Nat.zero_le _, rfl, rfl⟩

namespace Beside

include hlater

theorem current (h : Beside cs later c s) : s.current = c.rest.head? := by
  obtain ⟨n, hn, rfl, rfl⟩ := h
  rw [current_asked hlater hn, List.head?_drop]

theorem position (h : Beside cs later c s) : s.position = c.offset := by
  obtain ⟨n, hn, rfl, rfl⟩ := h
  exact position_asked hlater (Nat.le_succ_of_le hn)

theorem rest_eq_nil {offset : Nat} {rest : List Char} (h : Beside cs later ⟨offset, rest⟩ s)
    (hcurrent : s.current = none) : rest = [] :=
  List.head?_eq_none_iff.1 ((h.current hlater).symm.trans hcurrent)

theorem exists_rest {offset : Nat} {rest : List Char} {ch : Char}
    (h : Beside cs later ⟨offset, rest⟩ s) (hcurrent : s.current = some ch) :
    ∃ cs, rest = ch :: cs :=
  List.head?_eq_some_iff.1 ((h.current hlater).symm.trans hcurrent)

omit hlater in
theorem advance {offset : Nat} {ch : Char} {rest : List Char}
    (h : Beside cs later ⟨offset, ch :: rest⟩ s) :
    Beside cs later ⟨offset + ch.utf8Size, rest⟩ s.advance := by
  obtain ⟨n, hn, hc, rfl⟩ := h
  obtain ⟨rfl, hdrop⟩ := Cursor.mk.inj hc
  have hget : cs[n]? = some ch := by rw [← List.head?_drop, ← hdrop, List.head?_cons]
  have hlt : n < cs.length := (List.getElem?_eq_some_iff.1 hget).1
  refine ⟨n + 1, hlt, ?_, (asked_succ _ _).symm⟩
  rw [List.take_add_one, hget, width_append, ← List.tail_drop, ← hdrop]
  rfl

omit hlater in
theorem eq_of_rest_eq_nil (h : Beside cs later c s) (hrest : c.rest = []) :
    s = asked (cs.map .char ++ later) (cs.length + 2) := by
  obtain ⟨n, hn, rfl, rfl⟩ := h
  obtain rfl : n = cs.length := hn.antisymm (List.drop_eq_nil_iff.1 hrest)
  rfl

/-- Behind the characters nothing moves any more but the file itself. -/
theorem advance_nil {offset : Nat} (h : Beside cs later ⟨offset, []⟩ s) :
    s.advance = asked (cs.map .char ++ later) (cs.length + 3) ∧ s.advance.position = offset := by
  obtain rfl := h.eq_of_rest_eq_nil rfl
  obtain ⟨n, hn, hc, -⟩ := h
  obtain ⟨rfl, hdrop⟩ := Cursor.mk.inj hc
  have hlength : cs.length ≤ n := List.drop_eq_nil_iff.1 hdrop.symm
  rw [← asked_succ]
  refine ⟨rfl, ?_⟩
  rw [position_asked hlater (Nat.le_refl _), List.take_of_length_le (Nat.le_succ _),
    List.take_of_length_le hlength]

theorem takeWhile (h : Beside cs later c s) (p : Char → Bool) (read : List Char) :
    (s.takeWhile p read).1 = read.reverse ++ c.rest.takeWhile p ∧
      Beside cs later (c.skip p) (s.takeWhile p read).2 := by
  obtain ⟨offset, rest⟩ := c
  fun_induction CharStream.takeWhile p read s generalizing offset rest with
  | case1 read s hcurrent =>
    obtain rfl := h.rest_eq_nil hlater hcurrent
    exact ⟨by simp, h⟩
  | case2 read s ch hcurrent hp ih =>
    obtain ⟨rest, rfl⟩ := h.exists_rest hlater hcurrent
    have hskip : Cursor.skip p ⟨offset, ch :: rest⟩ =
        Cursor.skip p ⟨offset + ch.utf8Size, rest⟩ := by
      simp only [Cursor.skip, Cursor.skipFrom, hp, if_true]
    obtain ⟨htext, hbeside⟩ := ih _ _ h.advance
    refine ⟨?_, hskip ▸ hbeside⟩
    rw [htext, List.takeWhile_cons_of_pos hp, List.reverse_cons, List.append_assoc,
      List.singleton_append]
  | case3 read s ch hcurrent hp =>
    obtain ⟨rest, rfl⟩ := h.exists_rest hlater hcurrent
    have hskip : Cursor.skip p ⟨offset, ch :: rest⟩ = ⟨offset, ch :: rest⟩ := by
      simp only [Cursor.skip, Cursor.skipFrom, hp]
      rfl
    rw [hskip, List.takeWhile_cons_of_neg hp, List.append_nil]
    exact ⟨rfl, h⟩

theorem skip (h : Beside cs later c s) (p : Char → Bool) :
    Beside cs later (c.skip p) (s.skip p) := (h.takeWhile hlater p []).2

end Beside

/-- Whether a file was scanned as its characters before the first fault were. In search of the end
of a string one character more is asked for. -/
structure ScannedAlike (cs : List Char) (later : List Decoded) (x : Item × Cursor)
    (y : Item × CharStream) : Prop where
  item : y.1 = x.1
  closed : ¬x.1.isOpen = true → Beside cs later x.2 y.2
  opened : x.1.isOpen = true → y.2 = asked (cs.map .char ++ later) (cs.length + 3)

theorem ScannedAlike.of_not_isOpen {item : Item} (hitem : ¬item.isOpen = true)
    (h : Beside cs later c s) : ScannedAlike cs later (item, c) (item, s) :=
  ⟨rfl, fun _ => h, fun hopen => absurd hopen hitem⟩

include hlater

theorem scanString_alike {start offset : Nat} {rest : List Char}
    (h : Beside cs later ⟨offset, rest⟩ s) (value : String) : ScannedAlike cs later
      (Cursor.scanString start value offset rest) (scanString start value s) := by
  fun_induction scanString start value s generalizing offset rest with
  | case1 value s hcurrent =>
    -- the scanner steps past the end in search of the quote, which moves no position
    obtain rfl := h.rest_eq_nil hlater hcurrent
    obtain ⟨hasked, hposition⟩ := h.advance_nil hlater
    rw [hposition]
    exact ⟨rfl, fun hclosed => absurd rfl hclosed, fun _ => hasked⟩
  | case2 value s hcurrent =>
    obtain ⟨rest, rfl⟩ := h.exists_rest hlater hcurrent
    rw [h.advance.position hlater]
    exact .of_not_isOpen (by simp [Item.isOpen]) h.advance
  | case3 value s hcurrent hnext =>
    obtain ⟨rest, rfl⟩ := h.exists_rest hlater hcurrent
    obtain rfl := h.advance.rest_eq_nil hlater hnext
    obtain ⟨hasked, hposition⟩ := h.advance.advance_nil hlater
    rw [hposition]
    exact ⟨rfl, fun hclosed => absurd rfl hclosed, fun _ => hasked⟩
  | case4 value s hcurrent c hnext d hd ih =>
    obtain ⟨rest, rfl⟩ := h.exists_rest hlater hcurrent
    obtain ⟨rest, rfl⟩ := h.advance.exists_rest hlater hnext
    rw [Cursor.scanString, hd]
    exact ih h.advance.advance
  | case5 value s hcurrent c hnext hc =>
    obtain ⟨rest, rfl⟩ := h.exists_rest hlater hcurrent
    obtain ⟨rest, rfl⟩ := h.advance.exists_rest hlater hnext
    rw [Cursor.scanString, hc, h.position hlater, h.advance.advance.position hlater]
    exact .of_not_isOpen (by simp [Item.isOpen]) h.advance.advance
  | case6 value s c hne hne' hcurrent ih =>
    obtain ⟨rest, rfl⟩ := h.exists_rest hlater hcurrent
    rw [Cursor.scanString_cons start value offset hne hne']
    exact ih h.advance

theorem scanAtom_alike (h : Beside cs later c s) :
    ScannedAlike cs later c.scanAtom s.scanAtom := by
  obtain ⟨htext, hbeside⟩ := h.takeWhile hlater (fun ch => !isDelimiter ch) []
  rw [CharStream.scanAtom, Cursor.scanAtom]
  generalize s.takeWhile (fun ch => !isDelimiter ch) [] = taken at htext hbeside
  obtain ⟨text, after⟩ := taken
  obtain rfl : text = c.rest.takeWhile fun ch => !isDelimiter ch := htext
  dsimp only
  rw [h.position hlater, hbeside.position hlater]
  cases hclass : classify (c.rest.takeWhile fun ch => !isDelimiter ch) with
  | ok token => exact .of_not_isOpen (by simp [Item.isOpen]) hbeside
  | error fault =>
    refine .of_not_isOpen (fun hopen => ?_) hbeside
    obtain rfl : fault = .unterminatedString := by simpa [Item.isOpen] using hopen
    exact not_unterminated_of_classify hclass

theorem scanToken_alike (h : Beside cs later c s) :
    ScannedAlike cs later c.scanToken s.scanToken := by
  obtain ⟨offset, rest⟩ := c
  have hcurrent := h.current hlater
  match rest with
  | [] =>
    simp only [CharStream.scanToken, hcurrent, List.head?_nil, Cursor.scanToken]
    rw [h.position hlater]
    exact .of_not_isOpen (by simp [Item.isOpen]) h
  | ch :: rest =>
    have hnext := h.advance.position hlater
    by_cases hcomment : ch = ';'
    · subst hcomment
      have hskip := h.skip hlater (· ≠ '\n')
      simp only [CharStream.scanToken, hcurrent, List.head?_cons, Cursor.scanToken]
      rw [h.position hlater, hskip.position hlater]
      exact .of_not_isOpen (by simp [Item.isOpen]) hskip
    by_cases hstring : ch = '"'
    · subst hstring
      simp only [CharStream.scanToken, hcurrent, List.head?_cons, Cursor.scanToken]
      rw [h.position hlater]
      exact scanString_alike hlater h.advance ""
    by_cases hsingle : ch = '(' ∨ ch = ')' ∨ ch = '\''
    · rcases hsingle with rfl | rfl | rfl
      all_goals
        simp only [CharStream.scanToken, hcurrent, List.head?_cons, Cursor.scanToken]
        rw [h.position hlater, hnext]
        exact .of_not_isOpen (by simp [Item.isOpen]) h.advance
    · have hplain : ch ∉ ['(', ')', '\'', ';', '"'] := by simp_all
      have hatom : s.scanToken = s.scanAtom := by
        simp_all [CharStream.scanToken]
      rw [Cursor.scanToken_eq_scanAtom rfl hplain, hatom]
      exact scanAtom_alike hlater h

theorem scan_alike (h : Beside cs later c s) : ScannedAlike cs later c.scan s.scan :=
  scanToken_alike hlater (h.skip hlater isBlank)

end Places

section Readings

variable {cs : List Char} {later : List Decoded} {c : Cursor} {s : CharStream} {r r' : Reading}
  {item : Item} {e : SyntaxError}

theorem charsBefore_width {n : Nat} (hn : n ≤ cs.length) :
    Program.charsBefore (width (cs.take n)) cs = n := by
  induction n generalizing cs with
  | zero => cases cs <;> rfl
  | succ n ih =>
    cases cs with
    | nil => simp at hn
    | cons ch cs =>
      have hpos := ch.utf8Size_pos
      rw [List.take_succ_cons, width_cons, Program.charsBefore, if_neg (by omega),
        Nat.add_sub_cancel_left, ih (Nat.le_of_succ_le_succ hn)]

/-- No reading goes on behind an open string. -/
theorem not_isOpen_of_step_eq_ok (h : r.step item = .ok r') : ¬item.isOpen = true := by
  cases item with
  | ok l => simp [Item.isOpen]
  | error e => cases h

theorem requested_of_isOpen (hopen : item.isOpen = true) (h : r.step item = .error e) :
    Program.requested cs (.error e) = cs.length + 3 := by
  cases item with
  | ok l => simp [Item.isOpen] at hopen
  | error le =>
    obtain ⟨fault, span⟩ := le
    obtain rfl : fault = .unterminatedString := by simpa [Item.isOpen] using hopen
    cases h
    rfl

theorem requested_of_closed (h : ∀ span, e.fault ≠ .lexical ⟨.unterminatedString, span⟩) :
    Program.requested cs (.error e) = Program.charsBefore e.span.stop cs + 2 := by
  rw [Program.requested]
  split
  · next span hfault => exact absurd hfault (h span)
  · rfl

/-- Up to an error that is not that of an open string two characters are taken in advance. -/
theorem take_requested_of_closed {front back : List Char}
    (h : ∀ span, e.fault ≠ .lexical ⟨.unterminatedString, span⟩) (hstop : e.span.stop = width front) :
    (front ++ back).take (Program.requested (front ++ back) (.error e)) =
      front ++ back.take 2 := by
  have hlength : front.length ≤ (front ++ back).length := by simp
  have hbefore := charsBefore_width hlength
  rw [List.take_left] at hbefore
  rw [requested_of_closed h, hstop, hbefore, List.take_length_add_append]

/-- An error ends where its item does. -/
theorem stop_of_step_eq_error (h : r.step c.scan.1 = .error e) :
    e.span.stop = c.scan.2.offset := by
  have hstop : c.scan.1.span.stop = c.scan.2.offset := (Cursor.span_scanToken _).1
  rcases Reading.cases_of_step_eq_error h with
    ⟨le, hitem, rfl⟩ | ⟨span, hitem, rfl⟩ | ⟨l, hitem, -, hspan, -⟩
  · rwa [hitem] at hstop
  · -- at the end of the text a datum is missing, and that is reported at the point itself
    have hend : c.scan.1.isEnd = true := by rw [hitem]; rfl
    rw [Cursor.scan_of_isEnd hend] at hitem ⊢
    cases hitem
    rfl
  · rw [hspan, ← hstop, hitem]
    rfl

/-- Only a string that is open is unterminated. -/
theorem fault_ne_of_step_eq_error (hclosed : ¬item.isOpen = true) (h : r.step item = .error e) :
    ∀ span, e.fault ≠ .lexical ⟨.unterminatedString, span⟩ := by
  intro span hfault
  rcases Reading.cases_of_step_eq_error h with
    ⟨le, rfl, rfl⟩ | ⟨stop, rfl, rfl⟩ | ⟨l, rfl, -, -, hblames⟩
  · rw [SyntaxFault.lexical.inj hfault] at hclosed
    exact hclosed rfl
  · cases hfault
  · rw [hfault] at hblames
    cases hblames

/-- What is known of a file behind its last item, if this is what was read by then. -/
def Finished (cs : List Char) (later : List Decoded) (result : Except SyntaxError Reading)
    (x : Except SyntaxError Reading × CharStream) : Prop :=
  x.1 = result ∧ x.2 = asked (cs.map .char ++ later)
    (Program.requested cs (result.map Reading.toProgram))

theorem finished_read (hlater : ∀ e ∈ later.head?, e.char? = none) (h : Beside cs later c s)
    (r : Reading) : Finished cs later (r.read c.items) (read r s) := by
  -- the text is scanned beside the file, as long as the reading goes on
  fun_induction read r s generalizing c with
  | case1 r s r' hmore ih =>
    have hscan := scan_alike hlater h
    rw [hscan.item] at hmore
    have hend : ¬c.scan.1.isEnd = true := not_isEnd_of_advance_eq_more hmore
    have hstep : r.step c.scan.1 = .ok r' := by rw [Reading.step, hmore]
    rw [Cursor.items_of_not_isEnd hend, Reading.read_cons, hstep]
    exact ih (hscan.closed (not_isOpen_of_step_eq_ok hstep))
  | case2 r s hstop =>
    have hscan := scan_alike hlater h
    rw [hscan.item] at hstop
    have hend : c.scan.1.isEnd = true := Reading.isEnd_of_advance_eq_stop hstop
    have hstep : r.step c.scan.1 = .ok r := by rw [Reading.step, hstop]
    have hbeside := hscan.closed (not_isOpen_of_step_eq_ok hstep)
    rw [Cursor.items_of_isEnd hend, Reading.read_cons, hstep]
    exact ⟨rfl, hbeside.eq_of_rest_eq_nil (by rw [Cursor.scan_of_isEnd hend])⟩
  | case3 r s e hstop =>
    have hscan := scan_alike hlater h
    rw [hscan.item] at hstop
    obtain ⟨after, hitems⟩ := c.exists_items_eq_cons
    have hstep : r.step c.scan.1 = .error e := by rw [Reading.step, hstop]
    rw [hitems, Reading.read_cons, hstep]
    refine ⟨rfl, ?_⟩
    change s.scan.2 = asked _ (Program.requested cs (.error e))
    by_cases hopen : c.scan.1.isOpen = true
    · rw [hscan.opened hopen, requested_of_isOpen hopen hstep]
    · obtain ⟨n, hn, hc, hs⟩ := hscan.closed hopen
      rw [requested_of_closed (fault_ne_of_step_eq_error hopen hstep),
        stop_of_step_eq_error hstep, hc, charsBefore_width hn, hs]

end Readings

section Programs

variable {cs : List Char} {later : List Decoded}

/-- What stands behind the characters before the first fault is met as soon as it is asked for. -/
theorem eq_nil_of_fault_asked_eq_none (hlater : ∀ e ∈ later.head?, e.char? = none) {n : Nat}
    (hn : cs.length + 1 ≤ n) (hnone : (asked (cs.map .char ++ later) n).fault = none) :
    later = [] := by
  rw [fault_asked, List.getLast?_eq_none_iff] at hnone
  cases later with
  | nil => rfl
  | cons event later =>
    have hmem : event ∈ (cs.map Decoded.char ++ event :: later).take n := by
      obtain ⟨k, rfl⟩ := Nat.exists_eq_add_of_le hn
      rw [Nat.add_assoc, Nat.add_comm 1 k, ← List.length_map (f := Decoded.char),
        List.take_length_add_append]
      simp
    have hfault := List.filterMap_eq_nil_iff.1 hnone event hmem
    have hchar := hlater event rfl
    cases event <;> simp_all [Program.faultOf?, Decoded.char?]

/-- Where no fault was met there were no characters but those before the first fault. -/
theorem decoded_asked_of_fault_eq_none (hlater : ∀ e ∈ later.head?, e.char? = none) {n : Nat}
    (hnone : (asked (cs.map .char ++ later) n).fault = none) :
    (asked (cs.map .char ++ later) n).decoded.reverse = cs.take n := by
  rw [decoded_asked]
  rcases Nat.le_total n (cs.length + 1) with hn | hn
  · exact filterMap_take_leading hlater hn
  · obtain rfl := eq_nil_of_fault_asked_eq_none hlater hn hnone
    rw [List.append_nil, ← List.map_take, List.filterMap_map]
    exact List.filterMap_some

/-- What becomes of a file, from the program in its characters before the first fault. -/
theorem program_append (hlater : ∀ e ∈ later.head?, e.char? = none) :
    program (cs.map .char ++ later) =
      let result := Program.ofChars cs
      let s := asked (cs.map .char ++ later) (Program.requested cs result)
      match s.fault, result with
      | some f, _ => .error (.fault f)
      | none, .ok p => .ok p
      | none, .error e => .error (.unreadable (String.ofList s.decoded.reverse) e) := by
  obtain ⟨hvalue, hs⟩ := finished_read hlater (beside_start cs later) .start
  rw [program, Program.ofChars, Program.ofCursor_eq]
  generalize Reading.start.read (Cursor.mk 0 cs).items = result at hvalue hs ⊢
  generalize read .start (start (cs.map .char ++ later)) = x at hvalue hs ⊢
  obtain ⟨value, s⟩ := x
  obtain rfl : value = result := hvalue
  obtain rfl : s = asked (cs.map .char ++ later) _ := hs
  dsimp only
  generalize (asked (cs.map .char ++ later) _).fault = fault
  cases fault with
  | some f => rfl
  | none => cases value <;> rfl

/-- Decoding while scanning comes to what the closed form says. -/
theorem program_decode (bytes : List UInt8) : program (decode bytes) = Program.ofStream bytes := by
  rw [Program.ofStream]
  generalize decode bytes = input
  obtain ⟨later, hinput, hlater⟩ := exists_leading_append input
  generalize Decoded.leading input = cs at hinput
  subst hinput
  rw [program_append hlater]
  dsimp only
  rw [← fault_asked]
  cases hfault : (asked (cs.map .char ++ later)
      (Program.requested cs (Program.ofChars cs))).fault with
  | some f => rfl
  | none =>
    rw [decoded_asked_of_fault_eq_none hlater hfault]
    cases Program.ofChars cs <;> rfl

/-- A file is a program only if it has no fault anywhere, however much of it can be read. -/
theorem program_eq_ok_iff {input : List Decoded} {p : Program} : program input = .ok p ↔
    ∃ text, input = text.map .char ∧ Program.ofChars text = .ok p := by
  constructor
  · intro h
    obtain ⟨later, hinput, hlater⟩ := exists_leading_append input
    generalize Decoded.leading input = cs at hinput
    subst hinput
    rw [program_append hlater] at h
    dsimp only at h
    cases hfault : (asked (cs.map .char ++ later)
        (Program.requested cs (Program.ofChars cs))).fault with
    | some f =>
      rw [hfault] at h
      cases h
    | none =>
      rw [hfault] at h
      cases hp : Program.ofChars cs with
      | error e =>
        rw [hp] at h
        cases h
      | ok p' =>
        rw [hp] at h hfault
        obtain rfl : p' = p := Except.ok.inj h
        obtain rfl := eq_nil_of_fault_asked_eq_none hlater (Nat.le_succ _) hfault
        exact ⟨cs, List.append_nil _, hp⟩
  · rintro ⟨text, rfl, hp⟩
    have hfault : ∀ n, (asked (text.map .char) n).fault = none := by
      intro n
      rw [fault_asked, ← List.map_take, List.filterMap_map]
      simp [Program.faultOf?]
    have happend : program (text.map .char ++ []) = _ := program_append (by simp)
    rw [List.append_nil] at happend
    rw [happend, hp]
    dsimp only
    rw [hfault]

end Programs

end CharStream

end FrameLisp.Source
