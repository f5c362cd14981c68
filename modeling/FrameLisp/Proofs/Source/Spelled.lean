import FrameLisp.Proofs.Source.Atoms
import FrameLisp.Proofs.Source.Items
import FrameLisp.Proofs.Source.Scanning

/-!
# Texts and their tokens

A text spells some tokens when it is scanned as these wherever it stands, in front of a delimiter or
of the end. Texts are put together with white space or delimiters between atoms, and a string is
spelled by its quoted text.
-/
namespace FrameLisp.Source

/-- Whether an atom ends where this text begins. -/
def Breaks (cs : List Char) : Prop := ∀ c ∈ cs.head?, isDelimiter c = true

theorem breaks_cons {c : Char} (hc : isDelimiter c = true) (cs : List Char) : Breaks (c :: cs) := by
  intro x hx
  rwa [Option.some.inj hx] at hc

theorem Breaks.append {cs cs' : List Char} (h : Breaks cs) (h' : Breaks cs') :
    Breaks (cs ++ cs') := by
  match cs with
  | [] => exact h'
  | _ :: _ => exact h

theorem isDelimiter_of_isBlank {c : Char} (h : Text.isBlank c = true) : isDelimiter c = true := by
  simp [isDelimiter, h]

/-- The tokens that a text is scanned as, whatever the offset and whatever follows. -/
def Spells (cs : List Char) (tokens : List Token) : Prop :=
  ∀ offset rest, Breaks rest → ∃ (lexemes : List Lexeme) (offset' : Nat),
    lexemes.map Lexeme.token = tokens ∧
      (Cursor.mk offset (cs ++ rest)).items =
        lexemes.map .ok ++ (Cursor.mk offset' rest).items

variable {cs cs' gap : List Char} {token : Token} {tokens tokens' : List Token}

theorem spells_nil : Spells [] [] := fun offset _ _ => ⟨[], offset, rfl, rfl⟩

theorem Spells.append (h : Spells cs tokens) (h' : Spells cs' tokens') (hbreaks : Breaks cs') :
    Spells (cs ++ cs') (tokens ++ tokens') := by
  intro offset rest hrest
  obtain ⟨lexemes, offset', rfl, hitems⟩ := h offset (cs' ++ rest) (hbreaks.append hrest)
  obtain ⟨lexemes', offset'', rfl, hitems'⟩ := h' offset' rest hrest
  refine ⟨lexemes ++ lexemes', offset'', by simp, ?_⟩
  rw [List.append_assoc, hitems, hitems', List.map_append, List.append_assoc]

section Blanks

theorem Cursor.scan_blank (h : ∀ c ∈ gap, Text.isBlank c = true) (offset : Nat)
    (cs : List Char) :
    (Cursor.mk offset (gap ++ cs)).scan = (Cursor.mk (offset + width gap) cs).scan := by
  rw [scan, scan, skip_eq, skip_eq, List.takeWhile_append_of_pos h, List.dropWhile_append_of_pos h,
    width_append, Nat.add_assoc]

/-- White space in front spells nothing. -/
theorem Spells.blank (h : Spells cs tokens) (hgap : ∀ c ∈ gap, Text.isBlank c = true) :
    Spells (gap ++ cs) tokens := by
  intro offset rest hrest
  obtain ⟨lexemes, offset', htokens, hitems⟩ := h (offset + width gap) rest hrest
  refine ⟨lexemes, offset', htokens, ?_⟩
  rw [List.append_assoc, Cursor.items_congr (Cursor.scan_blank hgap offset _), hitems]

end Blanks

section Tokens

/-- A token whose scan goes on behind it. -/
theorem spells_of_scan (hend : token ≠ .endOfInput) (h : ∀ offset rest, Breaks rest →
    ∃ span offset', (Cursor.mk offset (cs ++ rest)).scan = (.ok ⟨token, span⟩, ⟨offset', rest⟩)) :
    Spells cs [token] := by
  intro offset rest hrest
  obtain ⟨span, offset', hscan⟩ := h offset rest hrest
  have hnot : ¬(Cursor.mk offset (cs ++ rest)).scan.1.isEnd = true := by
    rw [hscan]
    simpa [Item.isEnd] using hend
  refine ⟨[⟨token, span⟩], offset', rfl, ?_⟩
  rw [Cursor.items_of_not_isEnd hnot, hscan]
  rfl

theorem spells_rightParen : Spells [')'] [.rightParen] := by
  refine spells_of_scan (by simp) fun offset rest _ => ?_
  have hscan : (Cursor.mk offset (')' :: rest)).scan =
      (.ok ⟨.rightParen, ⟨offset, offset + 1⟩⟩, ⟨offset + 1, rest⟩) :=
    Cursor.scan_cons rfl offset _
  exact ⟨_, _, hscan⟩

/-- An opening parenthesis is a token of its own whatever follows. -/
theorem Spells.leftParen (h : Spells cs tokens) : Spells ('(' :: cs) (.leftParen :: tokens) := by
  intro offset rest hrest
  have hscan : (Cursor.mk offset ('(' :: (cs ++ rest))).scan =
      (.ok ⟨.leftParen, ⟨offset, offset + 1⟩⟩, ⟨offset + 1, cs ++ rest⟩) :=
    Cursor.scan_cons rfl offset _
  have hnot : ¬(Cursor.mk offset ('(' :: (cs ++ rest))).scan.1.isEnd = true := by
    rw [hscan]
    simp [Item.isEnd]
  obtain ⟨lexemes, offset', htokens, hitems⟩ := h (offset + 1) rest hrest
  refine ⟨⟨.leftParen, ⟨offset, offset + 1⟩⟩ :: lexemes, offset', ?_, ?_⟩
  · rw [List.map_cons, htokens]
  · rw [List.cons_append, Cursor.items_of_not_isEnd hnot, hscan, hitems]
    rfl

/-- The item with what an atom was found to be. -/
def Item.of (span : Span) : Except LexicalFault Token → Item
  | .ok token => .ok ⟨token, span⟩
  | .error fault => .error ⟨fault, span⟩

/-- What is not delimited and not empty is scanned as a whole. -/
theorem Cursor.scan_undelimited {rest : List Char} (hne : cs ≠ [])
    (hcs : ∀ c ∈ cs, isDelimiter c = false) (hrest : Breaks rest) (offset : Nat) :
    (Cursor.mk offset (cs ++ rest)).scan =
      (.of ⟨offset, offset + width cs⟩ (classify cs), ⟨offset + width cs, rest⟩) := by
  have hundelimited : ∀ c ∈ cs, (!isDelimiter c) = true := fun c hc => by simp [hcs c hc]
  have hstop : ∀ c ∈ rest.head?, (!isDelimiter c) = false := fun c hc => by simp [hrest c hc]
  obtain ⟨htake, hdrop⟩ := takeWhile_front hundelimited hstop
  obtain ⟨c, cs, rfl⟩ := List.exists_cons_of_ne_nil hne
  have hc : isDelimiter c = false := hcs c List.mem_cons_self
  have hblank : Text.isBlank c = false := by
    simp only [isDelimiter, Bool.or_eq_false_iff] at hc
    exact hc.1.1.1.1.1
  have hplain : c ∉ ['(', ')', '\'', ';', '"'] := by
    simp only [isDelimiter, Bool.or_eq_false_iff, beq_eq_false_iff_ne] at hc
    simp [hc]
  have hscan : (Cursor.mk offset (c :: cs ++ rest)).scanAtom =
      (.of ⟨offset, offset + width (c :: cs)⟩ (classify (c :: cs)),
        ⟨offset + width (c :: cs), rest⟩) := by
    rw [Cursor.scanAtom, Cursor.skip_eq, htake, hdrop]
    cases classify (c :: cs) <;> rfl
  rw [← hscan, List.cons_append, Cursor.scan_cons hblank, Cursor.scanToken_eq_scanAtom rfl hplain]

theorem spells_of_classify (hne : cs ≠ []) (hcs : ∀ c ∈ cs, isDelimiter c = false)
    (h : classify cs = .ok token) : Spells cs [token] := by
  have hend : token ≠ .endOfInput := by
    rintro rfl
    rcases isAtom_of_classify h with hdot | ⟨d, hd⟩
    · cases hdot
    · cases hd
  refine spells_of_scan hend fun offset rest hrest => ?_
  have hscan := Cursor.scan_undelimited hne hcs hrest offset
  rw [h] at hscan
  exact ⟨_, _, hscan⟩

theorem spells_dot : Spells ['.'] [.dot] := by
  have hdot : isDelimiter '.' = false := rfl
  exact spells_of_classify (by simp) (by simpa using hdot) rfl

end Tokens

section Strings

theorem toList_quote (s : String) :
    (Text.quote s).toList = '"' :: (s.toList.flatMap Text.escapeChar ++ ['"']) := by
  have hpush : ∀ (cs : List Char) (out : String),
      (cs.foldl String.push out).toList = out.toList ++ cs := by
    intro cs
    induction cs with
    | nil => simp
    | cons c cs ih => simp [ih]
  have hfold : ∀ (cs : List Char) (out : String),
      (cs.foldl (fun out c => (Text.escapeChar c).foldl String.push out) out).toList =
        out.toList ++ cs.flatMap Text.escapeChar := by
    intro cs
    induction cs with
    | nil => simp
    | cons c cs ih =>
      intro out
      rw [List.foldl_cons, ih, hpush, List.flatMap_cons, List.append_assoc]
  rw [Text.quote, String.toList_push, String.foldl_eq_foldl_toList, hfold]
  rfl

/-- The characters of a string are read back one by one. -/
theorem scanString_escaped (start : Nat) (cs : List Char) (value : String) (offset : Nat)
    (rest : List Char) : ∃ span offset',
    Cursor.scanString start value offset (cs.flatMap Text.escapeChar ++ '"' :: rest) =
      (.ok ⟨.string (value ++ String.ofList cs), span⟩, ⟨offset', rest⟩) := by
  induction cs generalizing value offset with
  | nil => exact ⟨⟨start, offset + 1⟩, offset + 1, by simp [Cursor.scanString]⟩
  | cons c cs ih =>
    rw [List.flatMap_cons, List.append_assoc]
    have hpush : ∀ offset, ∃ span offset', Cursor.scanString start (value.push c) offset
        (cs.flatMap Text.escapeChar ++ '"' :: rest) =
          (.ok ⟨.string (value ++ String.ofList (c :: cs)), span⟩, ⟨offset', rest⟩) := by
      intro offset
      obtain ⟨span, offset', h⟩ := ih (value.push c) offset
      have hvalue : value.push c ++ String.ofList cs = value ++ String.ofList (c :: cs) := by
        rw [← String.toList_inj]
        simp
      exact ⟨span, offset', hvalue ▸ h⟩
    rw [Text.escapeChar.eq_def]
    split
    · exact hpush (offset + 2)
    · exact hpush (offset + 2)
    · exact hpush (offset + 2)
    · exact hpush (offset + 2)
    · next hquote hbackslash _ _ =>
      rw [List.singleton_append, Cursor.scanString_cons start value offset hquote hbackslash]
      exact hpush _

theorem spells_quote (s : String) : Spells (Text.quote s).toList [.string s] := by
  refine spells_of_scan (by simp) fun offset rest _ => ?_
  obtain ⟨span, offset', hscan⟩ := scanString_escaped offset s.toList "" (offset + 1) rest
  refine ⟨span, offset', ?_⟩
  rw [toList_quote, List.cons_append, List.append_assoc, Cursor.scan_cons rfl]
  refine hscan.trans ?_
  simp

end Strings

end FrameLisp.Source
