import FrameLisp.Proofs.Source.Completion
import FrameLisp.Proofs.Source.Faults

/-!
# Texts that are cut behind their error

What stands behind an error has no part in it: each beginning of a text that reaches as far as its
error has the same error. What was asked for of a stream is such a beginning, with two characters
more than it takes.
-/
namespace FrameLisp.Source

variable {c : Cursor} {r : Reading} {e : SyntaxError} {text a t : List Char}

/-- Nothing is left over of a text that has run out. -/
theorem Reading.rest_eq_nil_of_isIncomplete (h : r.step c.scan.1 = .error e)
    (hinc : e.isIncomplete = true) : c.scan.2.rest = [] := by
  rcases isEnd_or_isOpen h hinc with ⟨hend, -⟩ | ⟨hopen, -⟩
  · rw [Cursor.scan_of_isEnd hend]
  · exact Cursor.rest_scan_of_isOpen hopen

namespace Program

/-- A beginning of a text that reaches as far as the error of the text has this error, too. -/
theorem ofChars_of_append_eq_error (he : ofChars (a ++ t) = .error e)
    (hstop : e.span.stop ≤ width a) : ofChars a = .error e := by
  obtain ⟨before, c, r, hreaches, hin, hbefore, hstep, -⟩ := exists_step_eq_error he
  obtain ⟨passed, hpassed, hoffset⟩ := hin.scan
  rw [CharStream.stop_of_step_eq_error hstep, hoffset] at hstop
  obtain ⟨more, rfl⟩ := isPrefix_of_width_le ⟨_, hpassed.symm⟩ ⟨t, rfl⟩ hstop
  have hmore : c.scan.2.rest = more ++ t := by
    rw [List.append_assoc] at hpassed
    exact (List.append_cancel_left hpassed).symm
  by_cases hinc : e.isIncomplete = true
  · have hnil := Reading.rest_eq_nil_of_isIncomplete hstep hinc
    rw [hmore, List.append_eq_nil_iff] at hnil
    rwa [hnil.2, List.append_nil] at he
  · -- all items up to the error end before the cut
    obtain ⟨hend, hclosed⟩ := Reading.not_isEnd_and_not_isOpen hstep (Bool.eq_false_iff.2 hinc)
    obtain ⟨taken, htaken⟩ := Cursor.scan_rest_suffix c
    rw [hmore, ← List.append_assoc] at htaken
    have hshort := Cursor.Reaches.of_append (c := ⟨0, passed ++ more⟩) hreaches
      (Reading.isOk_of_read_eq_ok hbefore) htaken.symm
    have hlong : (Cursor.mk c.offset (taken ++ more)).append t = c := by
      rw [Cursor.append, htaken]
    have hscan := Cursor.scan_of_append (c := ⟨c.offset, taken ++ more⟩) (by rwa [hlong])
      (by rwa [hlong]) (by rw [hlong, hmore])
    rw [hlong] at hscan
    obtain ⟨after, hafter⟩ := (Cursor.mk c.offset (taken ++ more)).exists_items_eq_cons
    refine ofCursor_eq_error (hafter ▸ hshort.items) hbefore ?_
    rwa [hscan]

/-- What is asked for of a text with an error: all of it up to where the error ends, and two
characters more, as far as there are any. -/
theorem exists_take_requested (he : ofChars text = .error e) : ∃ passed back,
    text = passed ++ back ∧ width passed = e.span.stop ∧
      text.take (requested text (.error e)) = passed ++ back.take 2 ∧
      (e.isIncomplete = true → back = []) := by
  obtain ⟨-, c, r, -, hin, -, hstep, -⟩ := exists_step_eq_error he
  obtain ⟨passed, rfl, hoffset⟩ := hin.scan
  have hstop := (CharStream.stop_of_step_eq_error hstep).trans hoffset
  refine ⟨passed, c.scan.2.rest, rfl, hstop.symm, ?_, Reading.rest_eq_nil_of_isIncomplete hstep⟩
  by_cases hopen : Item.isOpen c.scan.1 = true
  · -- in search of a closing quote the text is read to its end
    rw [CharStream.requested_of_isOpen hopen hstep, Cursor.rest_scan_of_isOpen hopen]
    exact List.take_of_length_le (Nat.le_add_right _ _)
  · have hclosed := CharStream.fault_ne_of_step_eq_error hopen hstep
    exact CharStream.take_requested_of_closed hclosed hstop

end Program

end FrameLisp.Source
