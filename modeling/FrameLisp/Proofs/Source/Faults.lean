import FrameLisp.Proofs.Source.Spans
import FrameLisp.Proofs.Source.Stream

/-!
# Where errors of syntax stand

An error stands under a stretch of the text: that of the token or of the fault that it comes from,
or the empty one at the end of the text where something is still open. The source that goes with
the error of a stream reaches behind this stretch, as two characters are read in advance.
-/
namespace FrameLisp.Source

open Text

/-- Whether the span of an error is that of a stretch of some characters. -/
def SyntaxError.StandsIn (cs : List Char) (e : SyntaxError) : Prop :=
  ∃ front text back, cs = front ++ text ++ back ∧
    e.span = ⟨width front, width front + width text⟩

section Texts

variable {cs : List Char} {c : Cursor} {r : Reading} {e : SyntaxError}

/-- Under the span of an item stands a stretch of the text. -/
theorem Cursor.In.exists_span (hc : c.In cs) : ∃ front text back, cs = front ++ text ++ back ∧
    c.scan.1.span = ⟨width front, width front + width text⟩ := by
  obtain ⟨front, hcs, hoffset⟩ := hc
  obtain ⟨gap, lead, text, h⟩ := c.exists_divides
  refine ⟨front ++ (gap ++ lead), text, c.scan.2.rest, ?_, ?_⟩
  · rw [hcs, h.rest]
    simp
  · calc c.scan.1.span
        = ⟨c.scan.1.span.start, c.scan.1.span.stop⟩ := rfl
      _ = ⟨width (front ++ (gap ++ lead)), width (front ++ (gap ++ lead)) + width text⟩ := by
        rw [h.start, h.stop, h.offset, hoffset, width_append front]

theorem standsIn_of_step_eq_error (hc : c.In cs) (h : r.step c.scan.1 = .error e) :
    e.StandsIn cs := by
  rcases Reading.cases_of_step_eq_error h with
    ⟨le, hitem, rfl⟩ | ⟨span, hitem, rfl⟩ | ⟨l, hitem, -, hspan, -⟩
  · obtain ⟨front, text, back, hcs, hspan⟩ := hc.exists_span
    refine ⟨front, text, back, hcs, ?_⟩
    rw [← hspan, hitem]
    rfl
  · obtain ⟨front, hcs, hoffset⟩ := hc
    have hend : c.scan.1.isEnd = true := by rw [hitem]; rfl
    have hbound : c.bound = width cs := by rw [Cursor.bound, hcs, width_append, hoffset]
    have hscan := Cursor.scan_of_isEnd hend
    rw [hscan, hbound] at hitem
    obtain rfl : .point (width cs) = span := (Lexeme.mk.inj (Except.ok.inj hitem)).2
    exact ⟨cs, [], [], by simp, rfl⟩
  · obtain ⟨front, text, back, hcs, hitemSpan⟩ := hc.exists_span
    refine ⟨front, text, back, hcs, ?_⟩
    rw [hspan, ← hitemSpan, hitem]
    rfl

/-- A text that cannot be read has a place at which the reading fails. -/
theorem Program.exists_step_eq_error (he : Program.ofChars cs = .error e) :
    ∃ (before : List Item) (c : Cursor) (r : Reading), Cursor.Reaches ⟨0, cs⟩ before c ∧ c.In cs ∧
      Reading.start.read before = .ok r ∧ r.step c.scan.1 = .error e ∧
      ∀ item ∈ before, ¬item.isOpen = true := by
  obtain ⟨before, item, after, r, hitems, hbefore, hitem, hfront⟩ :=
    Program.exists_of_ofCursor_eq_error he
  obtain ⟨c, hreaches, hback⟩ := Cursor.exists_reaches hitems fun i hi => (hfront i hi).1
  obtain ⟨after', hscan⟩ := c.exists_items_eq_cons
  obtain ⟨rfl, -⟩ := List.cons.inj (hback.symm.trans hscan)
  have hstart : Cursor.In cs ⟨0, cs⟩ := ⟨[], rfl, rfl⟩
  exact ⟨before, c, r, hreaches, hstart.of_bound hreaches.rest_suffix hreaches.bound, hbefore,
    hitem, fun i hi => (hfront i hi).2⟩

/-- Errors stand in their text. -/
theorem Program.standsIn_of_error (he : Program.ofChars cs = .error e) : e.StandsIn cs := by
  obtain ⟨before, c, r, -, hc, -, hstep, -⟩ := Program.exists_step_eq_error he
  exact standsIn_of_step_eq_error hc hstep

/-- What is asked for up to an error holds the stretch that the error stands under. -/
theorem SyntaxError.StandsIn.requested (h : e.StandsIn cs) :
    e.StandsIn (cs.take (Program.requested cs (.error e))) := by
  by_cases hopen : ∃ span, e.fault = .lexical ⟨.unterminatedString, span⟩
  · obtain ⟨span, hfault⟩ := hopen
    have hall : cs.length ≤ Program.requested cs (.error e) := by
      rw [Program.requested, hfault]
      exact Nat.le_add_right _ _
    rwa [List.take_of_length_le hall]
  · obtain ⟨front, text, back, rfl, hspan⟩ := h
    have hstop : e.span.stop = width (front ++ text) := by rw [hspan, width_append]
    rw [CharStream.take_requested_of_closed (not_exists.1 hopen) hstop]
    exact ⟨front, text, back.take 2, rfl, hspan⟩

/-- The error of a stream stands in the source that goes with it. -/
theorem Program.standsIn_of_ofStream {bytes : List UInt8} {source : String}
    (h : Program.ofStream bytes = .error (.unreadable source e)) : e.StandsIn source.toList := by
  rw [Program.ofStream] at h
  generalize Decoded.leading (decode bytes) = cs at h
  cases hp : Program.ofChars cs with
  | ok p =>
    rw [hp] at h
    split at h <;> cases h
  | error e' =>
    rw [hp] at h
    split at h
    · cases h
    · obtain ⟨rfl, rfl⟩ := StreamError.unreadable.inj (Except.error.inj h)
      rw [String.toList_ofList]
      exact (Program.standsIn_of_error hp).requested

end Texts

end FrameLisp.Source
