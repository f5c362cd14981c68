import FrameLisp.Proofs.Source.Chunks
import FrameLisp.Proofs.Source.Lossless

/-!
# Texts joined by a newline

A newline between two texts keeps them apart, also where the first one ends in an atom or in a
comment. So the joined text holds the forms of both, those of the second one further on by the
first text and the newline; and what is wrong with the second one is wrong with the joined text, as
far on.
-/
namespace FrameLisp.Source

section Shifts

variable (k m : Nat)

@[simp] theorem Span.shift_shift (s : Span) : (s.shift k).shift m = s.shift (k + m) := by
  simp [shift, Nat.add_assoc]

@[simp] theorem Form.shift_shift (f : Form) : (f.shift k).shift m = f.shift (k + m) := by
  simp [shift]

@[simp] theorem LexicalError.shift_shift (e : LexicalError) :
    (e.shift k).shift m = e.shift (k + m) := by
  simp [shift]

@[simp] theorem SyntaxFault.shift_shift (fault : SyntaxFault) :
    (fault.shift k).shift m = fault.shift (k + m) := by
  cases fault <;> simp [shift]

@[simp] theorem SyntaxError.shift_shift (e : SyntaxError) :
    (e.shift k).shift m = e.shift (k + m) := by
  simp [shift]

@[simp] theorem Program.shift_shift (p : Program) : (p.shift k).shift m = p.shift (k + m) := by
  simp [shift, Function.comp_def]

end Shifts

namespace Program

@[simp] theorem empty_append (p : Program) : append ⟨[], []⟩ p = p := rfl

/-- Behind a newline a text is read as if it stood alone, further on. -/
theorem ofChars_newline_cons (cs : List Char) :
    ofChars ('\n' :: cs) = ((ofChars cs).map (shift 1)).mapError (SyntaxError.shift 1) := by
  have hblank : ofChars ['\n'] = .ok ⟨[], []⟩ :=
    ofChars_blank (List.forall_mem_singleton.2 (by decide))
  have hwidth : width ['\n'] = 1 := rfl
  have hjoined := ofChars_append (t := cs) (.inr (.inl rfl)) hblank
  simpa only [List.singleton_append, hwidth, empty_append] using hjoined

/-- What a text holds behind one that was read and a newline. -/
theorem ofChars_append_newline {a : List Char} {p : Program} (ha : ofChars a = .ok p)
    (b : List Char) : ofChars (a ++ '\n' :: b) =
      ((ofChars b).map fun q => p.append (q.shift (1 + width a))).mapError
        (SyntaxError.shift (1 + width a)) := by
  rw [ofChars_append (.inr (.inr rfl)) ha, ofChars_newline_cons]
  cases ofChars b with
  | ok q => simp [Except.map, Except.mapError]
  | error e => simp [Except.map, Except.mapError]

theorem ofString_append_newline (a b : String) :
    ofString (a ++ "\n" ++ b) = ofChars (a.toList ++ '\n' :: b.toList) := by
  have hnewline : "\n".toList = ['\n'] := rfl
  rw [ofString, String.toList_append, String.toList_append, hnewline, List.append_assoc,
    List.singleton_append]

/-- Behind a text that was read and a newline, a text is read as it is alone, or is wrong as it is
alone; all that is said of places in it is further on by what stands before. -/
theorem ofString_joined {a b : String} {p : Program} (ha : ofString a = .ok p) :
    (∀ q, ofString b = .ok q →
      ofString (a ++ "\n" ++ b) = .ok (p.append (q.shift (a.utf8ByteSize + 1)))) ∧
    ∀ e, ofString b = .error e →
      ofString (a ++ "\n" ++ b) = .error (e.shift (a.utf8ByteSize + 1)) := by
  have hjoined := ofChars_append_newline ha b.toList
  rw [← ofString_append_newline, ← utf8ByteSize_eq_width, Nat.add_comm] at hjoined
  refine ⟨fun q hq => ?_, fun e he => ?_⟩
  · rw [hjoined, ← ofString, hq]
    rfl
  · rw [hjoined, ← ofString, he]
    rfl

/-- A quoted name and a comment up to the end of the text. -/
def commented : String := "'é ; (end"

/-- What follows the comment is read, or refused for its zero denominator, ten bytes further on. -/
theorem ofString_joined_commented :
    ofString commented = .ok ⟨[⟨⟨0, 3⟩, .ofList [.symbol "quote", .symbol "é"]⟩], [⟨4, 10⟩]⟩ ∧
    ofString "(b)" = .ok ⟨[⟨⟨0, 3⟩, .ofList [.symbol "b"]⟩], []⟩ ∧
    ofString "(1/0" = .error ⟨.lexical ⟨.zeroDenominator, ⟨1, 4⟩⟩, ⟨1, 4⟩⟩ ∧
    ofString (commented ++ "\n" ++ "(b)") =
      .ok ⟨[⟨⟨0, 3⟩, .ofList [.symbol "quote", .symbol "é"]⟩, ⟨⟨11, 14⟩, .ofList [.symbol "b"]⟩],
        [⟨4, 10⟩]⟩ ∧
    ofString (commented ++ "\n" ++ "(1/0") =
      .error ⟨.lexical ⟨.zeroDenominator, ⟨12, 15⟩⟩, ⟨12, 15⟩⟩ :=
  have ha : ofString commented =
      .ok ⟨[⟨⟨0, 3⟩, .ofList [.symbol "quote", .symbol "é"]⟩], [⟨4, 10⟩]⟩ := by
    with_unfolding_all rfl
  have hb : ofString "(b)" = .ok ⟨[⟨⟨0, 3⟩, .ofList [.symbol "b"]⟩], []⟩ := by
    with_unfolding_all rfl
  have he : ofString "(1/0" = .error ⟨.lexical ⟨.zeroDenominator, ⟨1, 4⟩⟩, ⟨1, 4⟩⟩ := by
    with_unfolding_all rfl
  ⟨ha, hb, he, (ofString_joined ha).1 _ hb, (ofString_joined ha).2 _ he⟩

end Program

end FrameLisp.Source
