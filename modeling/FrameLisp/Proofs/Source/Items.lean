import FrameLisp.Source.Reading

/-!
# The items of a text

Scanning a text from a cursor on gives its items, of which the last one is the end of the text. A
program is what a reading is after all of them, so that reading a row of items is reading its
pieces one after the other.
-/
namespace FrameLisp.Source

namespace Cursor

/-- Induction along the items of a text. -/
@[elab_as_elim]
theorem inductionOnScan {motive : Cursor → Prop} (c : Cursor)
    (atEnd : ∀ c : Cursor, c.scan.1.isEnd = true → motive c)
    (step : ∀ c : Cursor, ¬c.scan.1.isEnd = true → motive c.scan.2 → motive c) : motive c :=
  if h : c.scan.1.isEnd = true then atEnd c h
  else step c h (inductionOnScan c.scan.2 atEnd step)
  termination_by c.rest.length
  decreasing_by exact scan_rest_length_lt h

/-- The items of the text from the cursor on; the last one is the end of the text. -/
def items (c : Cursor) : List Item := ((scanAll #[] c).map Prod.snd).toList

theorem toList_scanAll (read : Array (Cursor × Item)) (c : Cursor) :
    (scanAll read c).toList = read.toList ++ (scanAll #[] c).toList := by
  induction c using inductionOnScan generalizing read with
  | atEnd c hend =>
    rw [scanAll, if_pos hend, scanAll, if_pos hend]
    simp
  | step c hend ih =>
    have hempty := ih (#[].push (c, c.scan.1))
    rw [scanAll, if_neg hend, ih, scanAll.eq_1 #[] c, if_neg hend, hempty]
    simp

theorem items_of_isEnd {c : Cursor} (h : c.scan.1.isEnd = true) : c.items = [c.scan.1] := by
  rw [items, scanAll, if_pos h]
  simp

theorem items_of_not_isEnd {c : Cursor} (h : ¬c.scan.1.isEnd = true) :
    c.items = c.scan.1 :: c.scan.2.items := by
  rw [items, scanAll, if_neg h, Array.toList_map, toList_scanAll]
  simp [items]

/-- The next item and the place behind it decide about all items. -/
theorem items_congr {c c' : Cursor} (h : c.scan = c'.scan) : c.items = c'.items := by
  by_cases hend : c.scan.1.isEnd = true
  · rw [items_of_isEnd hend, h, ← items_of_isEnd (h ▸ hend)]
  · rw [items_of_not_isEnd hend, h, ← items_of_not_isEnd (h ▸ hend)]

theorem Item.eq_of_isEnd {item : Item} (h : item.isEnd = true) :
    ∃ span, item = .ok ⟨.endOfInput, span⟩ := by
  match item, h with
  | .ok ⟨token, span⟩, h =>
    obtain rfl : token = .endOfInput := by simpa [Item.isEnd] using h
    exact ⟨span, rfl⟩

/-- The end of the text is the last item and no other one. -/
theorem items_eq_append (c : Cursor) : ∃ front span,
    c.items = front ++ [.ok ⟨.endOfInput, span⟩] ∧ ∀ item ∈ front, ¬item.isEnd = true := by
  induction c using inductionOnScan with
  | atEnd c hend =>
    obtain ⟨span, hspan⟩ := Item.eq_of_isEnd hend
    exact ⟨[], span, by rw [items_of_isEnd hend, hspan]; rfl, by simp⟩
  | step c hend ih =>
    obtain ⟨front, span, hitems, hfront⟩ := ih
    refine ⟨c.scan.1 :: front, span, by rw [items_of_not_isEnd hend, hitems]; rfl, ?_⟩
    exact List.forall_mem_cons.2 ⟨hend, hfront⟩

end Cursor

namespace Reading

/-- The reading after one item, where the end of the text between forms changes nothing. -/
def step (r : Reading) (item : Item) : Except SyntaxError Reading :=
  match r.advance item with
  | .more r => .ok r
  | .stop none => .ok r
  | .stop (some e) => .error e

/-- The reading after some items. -/
def read (r : Reading) (items : List Item) : Except SyntaxError Reading := items.foldlM step r

theorem read_nil (r : Reading) : r.read [] = .ok r := rfl

theorem read_cons (r : Reading) (item : Item) (items : List Item) :
    r.read (item :: items) = (r.step item).bind fun r => r.read items := rfl

theorem read_append (r : Reading) (items items' : List Item) :
    r.read (items ++ items') = (r.read items).bind fun r => r.read items' :=
  List.foldlM_append

theorem read_append_of_ok {r r' : Reading} {items : List Item} (h : r.read items = .ok r')
    (items' : List Item) : r.read (items ++ items') = r'.read items' := by
  rw [read_append, h]
  rfl

/-- An error comes from one of the items, and those before it can be read. -/
theorem exists_of_read_eq_error {r : Reading} {items : List Item} {e : SyntaxError}
    (h : r.read items = .error e) : ∃ before item after r',
    items = before ++ item :: after ∧ r.read before = .ok r' ∧ r'.step item = .error e := by
  induction items generalizing r with
  | nil => simp [read_nil] at h
  | cons item items ih =>
    rw [read_cons] at h
    cases hstep : r.step item with
    | error e' =>
      obtain rfl : e' = e := by simpa [hstep, Except.bind] using h
      exact ⟨[], item, items, r, rfl, rfl, hstep⟩
    | ok r₁ =>
      rw [hstep] at h
      obtain ⟨before, item', after, r', rfl, hbefore, hitem⟩ := ih h
      refine ⟨item :: before, item', after, r', rfl, ?_, hitem⟩
      rw [read_cons, hstep]
      exact hbefore

theorem read_of_step_eq_error {r r' : Reading} {before after : List Item} {item : Item}
    {e : SyntaxError} (hbefore : r.read before = .ok r') (hitem : r'.step item = .error e) :
    r.read (before ++ item :: after) = .error e := by
  rw [read_append_of_ok hbefore, read_cons, hitem]
  rfl

/-- What the end of the text makes of a reading. -/
def ending (offset : Nat) (r : Reading) : Except SyntaxError Reading :=
  match r.place.atEnd offset with
  | none => .ok r
  | some e => .error e

theorem step_end (r : Reading) (span : Span) :
    r.step (.ok ⟨.endOfInput, span⟩) = r.ending span.start := by
  simp only [step, advance, ending]
  cases r.place.atEnd span.start <;> rfl

theorem ending_of_top {r : Reading} (h : r.place = .top) (offset : Nat) :
    r.ending offset = .ok r := by
  rw [ending, h]
  rfl

theorem ending_of_ne_top {r : Reading} (h : r.place ≠ .top) (offset : Nat) :
    r.ending offset = .error ⟨.unexpectedEnd, .point offset⟩ := by
  have hend : r.place.atEnd offset = some ⟨.unexpectedEnd, .point offset⟩ := by
    match hplace : r.place with
    | .datum [] => exact absurd hplace h
    | .datum (_ :: _) => rfl
    | .closing .. => rfl
  rw [ending, hend]

/-- The forms and comments of a reading. -/
def toProgram (r : Reading) : Program := ⟨r.forms.toList, r.comments.toList⟩

/-- Only the end of the text stops a reading without an error. -/
theorem isEnd_of_advance_eq_stop {r : Reading} {item : Item} (h : r.advance item = .stop none) :
    item.isEnd = true := by
  match item with
  | .error e => simp [advance] at h
  | .ok lexeme =>
    simp only [advance] at h
    split at h
    · simp at h
    · next hend => simp [Item.isEnd, hend]
    · split at h <;> simp at h

/-- A reading of a text runs to the end of the text or up to the first error. -/
theorem run_eq (last : Nat) (r : Reading) (front : List Item) (span : Span)
    (hfront : ∀ item ∈ front, ¬item.isEnd = true) :
    (match r.run (fun _ => false) last (front ++ [.ok ⟨.endOfInput, span⟩]) with
      | (none, r, _) => .ok r.toProgram
      | (some e, _, _) => .error e) =
    (r.read (front ++ [.ok ⟨.endOfInput, span⟩])).map toProgram := by
  induction front generalizing r with
  | nil =>
    have hadvance : r.advance (.ok ⟨.endOfInput, span⟩) = .stop (r.place.atEnd span.start) := rfl
    simp only [List.nil_append, run, read_cons, step, hadvance]
    cases r.place.atEnd span.start <;> rfl
  | cons item front ih =>
    obtain ⟨hitem, hrest⟩ := List.forall_mem_cons.1 hfront
    simp only [List.cons_append, run, read_cons, step]
    cases hadvance : r.advance item with
    | more r' => exact ih r' hrest
    | stop error =>
      cases error with
      | none => exact absurd (isEnd_of_advance_eq_stop hadvance) hitem
      | some e => rfl

end Reading

theorem Program.ofCursor_eq (c : Cursor) :
    Program.ofCursor c = (Reading.start.read c.items).map Reading.toProgram := by
  obtain ⟨front, span, hitems, hfront⟩ := c.items_eq_append
  have h := Reading.run_eq 0 Reading.start front span hfront
  rw [← hitems] at h
  exact h

end FrameLisp.Source
