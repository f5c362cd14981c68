import FrameLisp.Proofs.Source.Items
import FrameLisp.Proofs.Source.Scanning

/-!
# Texts that go on

What was scanned before a seam of two texts is scanned likewise in the longer one. So an error that
stands in lines of which the last one is complete stands in every text that goes on with them,
unless it is one that further lines may mend.
-/
namespace FrameLisp.Source

namespace Cursor

/-- Scanning from one cursor on leads to another behind some items, all short of the end. -/
inductive Reaches : Cursor → List Item → Cursor → Prop
  | refl (c : Cursor) : Reaches c [] c
  | scan {c c' : Cursor} {items : List Item} : ¬c.scan.1.isEnd = true →
      Reaches c.scan.2 items c' → Reaches c (c.scan.1 :: items) c'

variable {c c' : Cursor} {front back : List Item} {t : List Char}

theorem exists_reaches (hitems : c.items = front ++ back)
    (hfront : ∀ item ∈ front, ¬item.isEnd = true) : ∃ c', c.Reaches front c' ∧ c'.items = back := by
  induction front generalizing c with
  | nil => exact ⟨c, .refl c, hitems⟩
  | cons item front ih =>
    obtain ⟨hend, hrest⟩ := List.forall_mem_cons.1 hfront
    have hscan : ¬c.scan.1.isEnd = true := by
      intro hscan
      rw [items_of_isEnd hscan, List.cons_append] at hitems
      exact hend ((List.cons.inj hitems).1 ▸ hscan)
    rw [items_of_not_isEnd hscan, List.cons_append] at hitems
    obtain ⟨rfl, htail⟩ := List.cons.inj hitems
    obtain ⟨c', hreaches, hback⟩ := ih htail hrest
    exact ⟨c', .scan hscan hreaches, hback⟩

theorem Reaches.items (h : c.Reaches front c') : c.items = front ++ c'.items := by
  induction h with
  | refl => rfl
  | scan hend _ ih => rw [items_of_not_isEnd hend, ih, List.cons_append]

theorem Reaches.bound (h : c.Reaches front c') : c'.bound = c.bound := by
  induction h with
  | refl => rfl
  | scan _ _ ih => exact ih.trans (bound_scan _)

theorem Reaches.rest_suffix (h : c.Reaches front c') : c'.rest <:+ c.rest := by
  induction h with
  | refl => exact List.suffix_rfl
  | scan _ _ ih => exact ih.trans (scan_rest_suffix _)

/-- In a longer text the same items lead to the same place, before a seam or where something is
left over. -/
theorem Reaches.append (h : c.Reaches front c') (hseam : Seam c.rest t ∨ c'.rest ≠ [])
    (hopen : ∀ item ∈ front, ¬item.isOpen = true) : (c.append t).Reaches front (c'.append t) := by
  induction h with
  | refl c => exact .refl _
  | @scan c c' items hend h ih =>
    obtain ⟨hitem, hrest⟩ := List.forall_mem_cons.1 hopen
    have hleft : Seam c.rest t ∨ c.scan.2.rest ≠ [] := hseam.imp_right fun hne hnil =>
      hne (List.suffix_nil.1 (hnil ▸ h.rest_suffix))
    have hscan := scan_append_of_seam_or_rest hleft hend hitem
    have hlong : ¬(c.append t).scan.1.isEnd = true := by rwa [hscan]
    have hstep := ih (hseam.imp_left fun h => h.suffix (scan_rest_suffix c)) hrest
    have hreaches := Reaches.scan hlong (by rwa [hscan])
    rwa [hscan] at hreaches

/-- Items before a seam are items of the longer text, and scanning goes on at the same place. -/
theorem exists_items_append (hseam : Seam c.rest t) (hitems : c.items = front ++ back)
    (hfront : ∀ item ∈ front, ¬item.isEnd = true ∧ ¬item.isOpen = true) :
    ∃ c' : Cursor, c'.items = back ∧ (c.append t).items = front ++ (c'.append t).items ∧
      c'.bound = c.bound ∧ Seam c'.rest t := by
  obtain ⟨c', hreaches, hback⟩ := exists_reaches hitems fun item hi => (hfront item hi).1
  have hlong := hreaches.append (.inl hseam) fun item hi => (hfront item hi).2
  exact ⟨c', hback, hlong.items, hreaches.bound, hseam.suffix hreaches.rest_suffix⟩

/-- Every item before another one is short of the end of the text. -/
theorem not_isEnd_of_items_eq {before after : List Item} {item : Item}
    (hitems : c.items = before ++ item :: after) : ∀ i ∈ before, ¬i.isEnd = true := by
  obtain ⟨front, span, hfront, hnot⟩ := c.items_eq_append
  have hsplit : front = before ++ (item :: after).dropLast := by
    have hlast := congrArg List.dropLast (hfront.symm.trans hitems)
    rwa [List.dropLast_concat, List.dropLast_append_of_ne_nil (List.cons_ne_nil _ _)] at hlast
  intro i hi
  exact hnot i (hsplit ▸ List.mem_append_left _ hi)

end Cursor

theorem Reading.isOk_of_read_eq_ok {r r' : Reading} {items : List Item}
    (h : r.read items = .ok r') : ∀ item ∈ items, item.isOk = true := by
  induction items generalizing r with
  | nil => simp
  | cons item items ih =>
    rw [read_cons] at h
    match item with
    | .error e => simp [step, advance, Except.bind] at h
    | .ok lexeme =>
      cases hstep : r.step (.ok lexeme) with
      | error e => simp [hstep, Except.bind] at h
      | ok r₁ =>
        rw [hstep] at h
        exact List.forall_mem_cons.2 ⟨rfl, ih h⟩

theorem Item.not_isOpen_of_isOk {item : Item} (h : item.isOk = true) : ¬item.isOpen = true := by
  match item, h with
  | .ok _, _ => simp [Item.isOpen]

/-- An item that ends a reading for good is neither the end of the text nor an open string. -/
theorem Reading.not_isEnd_and_not_isOpen {r : Reading} {item : Item} {e : SyntaxError}
    (h : r.step item = .error e) (he : e.isIncomplete = false) :
    ¬item.isEnd = true ∧ ¬item.isOpen = true := by
  match item with
  | .error e' =>
    obtain rfl : SyntaxError.ofLexical e' = e := by simpa [step, advance] using h
    have hfault : e'.fault ≠ .unterminatedString := by
      simpa [SyntaxError.isIncomplete, SyntaxError.ofLexical] using he
    exact ⟨by simp [Item.isEnd], by simpa [Item.isOpen] using hfault⟩
  | .ok lexeme =>
    refine ⟨?_, by simp [Item.isOpen]⟩
    intro hend
    have htoken : lexeme.token = .endOfInput := by simpa [Item.isEnd] using hend
    obtain ⟨token, span⟩ := lexeme
    obtain rfl : token = .endOfInput := htoken
    rw [step_end] at h
    by_cases hplace : r.place = .top
    · simp [ending_of_top hplace] at h
    · rw [ending_of_ne_top hplace] at h
      obtain rfl := Except.error.inj h
      simp [SyntaxError.isIncomplete] at he

/-- A text with an error has an item at which its reading fails, behind items that can be read. -/
theorem Program.exists_of_ofCursor_eq_error {c : Cursor} {e : SyntaxError}
    (he : Program.ofCursor c = .error e) : ∃ before item after r,
    c.items = before ++ item :: after ∧ Reading.start.read before = .ok r ∧
      r.step item = .error e ∧ ∀ i ∈ before, ¬i.isEnd = true ∧ ¬i.isOpen = true := by
  have hread : Reading.start.read c.items = .error e := by
    rw [Program.ofCursor_eq] at he
    cases hread : Reading.start.read c.items with
    | ok r => simp [hread, Except.map] at he
    | error e' => simpa [hread, Except.map] using he
  obtain ⟨before, item, after, r, hitems, hbefore, hitem⟩ := Reading.exists_of_read_eq_error hread
  refine ⟨before, item, after, r, hitems, hbefore, hitem, fun i hi => ?_⟩
  exact ⟨Cursor.not_isEnd_of_items_eq hitems i hi,
    Item.not_isOpen_of_isOk (Reading.isOk_of_read_eq_ok hbefore i hi)⟩

theorem Program.ofCursor_eq_error {c : Cursor} {before after : List Item} {item : Item}
    {r : Reading} {e : SyntaxError} (hitems : c.items = before ++ item :: after)
    (hbefore : Reading.start.read before = .ok r) (hitem : r.step item = .error e) :
    Program.ofCursor c = .error e := by
  rw [Program.ofCursor_eq, hitems, Reading.read_of_step_eq_error hbefore hitem]
  rfl

/-- An error that no further text can mend stands in every text that goes on behind a seam. -/
theorem Program.ofChars_append_eq_error {a t : List Char} {e : SyntaxError} (hseam : Seam a t)
    (he : Program.ofChars a = .error e) (hfinal : e.isIncomplete = false) :
    Program.ofChars (a ++ t) = .error e := by
  obtain ⟨before, item, after, r, hitems, hbefore, hitem, hfront⟩ :=
    Program.exists_of_ofCursor_eq_error he
  have hall : ∀ i ∈ before ++ [item], ¬i.isEnd = true ∧ ¬i.isOpen = true := by
    intro i hi
    rcases List.mem_append.1 hi with hi | hi
    · exact hfront i hi
    · rw [List.mem_singleton.1 hi]
      exact Reading.not_isEnd_and_not_isOpen hitem hfinal
  obtain ⟨c', -, happend, -, -⟩ :=
    Cursor.exists_items_append hseam (by simpa using hitems) hall
  rw [List.append_assoc] at happend
  exact Program.ofCursor_eq_error happend hbefore hitem

/-- An error in complete lines that no further text can mend stands in every text that goes on with
these lines. -/
theorem ofString_append_eq_error {s t : String} {e : SyntaxError}
    (hs : s.toList.getLast? = some '\n') (he : Program.ofString s = .error e)
    (hfinal : e.isIncomplete = false) : Program.ofString (s ++ t) = .error e := by
  rw [Program.ofString, String.toList_append]
  exact Program.ofChars_append_eq_error (.inr (.inl hs)) he hfinal

/-- A second datum behind a dot. -/
def secondTail : SyntaxError := ⟨.unexpectedToken (.symbol "c") [Token.rightParen.literal], ⟨7, 8⟩⟩

theorem ofString_append_eq_error_secondTail :
    ("(a . b c)\n".toList.getLast? = some '\n' ∧
      Program.ofString "(a . b c)\n" = .error secondTail ∧ secondTail.isIncomplete = false) ∧
    Program.ofString ("(a . b c)\n" ++ "\" d)") = .error secondTail :=
  have hlast : "(a . b c)\n".toList.getLast? = some '\n' := by decide
  have herror : Program.ofString "(a . b c)\n" = .error secondTail := by with_unfolding_all rfl
  ⟨⟨hlast, herror, rfl⟩, ofString_append_eq_error hlast herror rfl⟩

end FrameLisp.Source
