import FrameLisp.Proofs.Source.Continuation

/-!
# Texts that end earlier

What was scanned up to some place, be it a token or a fault, is scanned as the same when the text
ends at that place, or anywhere behind it. What a token is may depend on the character that follows
it only in that the token ends there, and it ends where the text does, too.
-/
namespace FrameLisp.Source

/-- A stretch that ends before what is cut off is the same without it. -/
theorem takeWhile_of_append {a b t : List Char} {p : Char → Bool}
    (h : (a ++ t).dropWhile p = b ++ t) :
    (a ++ t).takeWhile p = a.takeWhile p ∧ a.dropWhile p = b := by
  induction a with
  | nil =>
    have hlength := (List.dropWhile_suffix (l := t) p).length_le
    rw [List.nil_append] at h
    rw [h, List.length_append] at hlength
    obtain rfl : b = [] := List.eq_nil_of_length_eq_zero (by omega)
    have htake := List.takeWhile_append_dropWhile (p := p) (l := t)
    rw [h] at htake
    simpa using htake
  | cons y a ih =>
    cases hy : p y with
    | true =>
      rw [List.cons_append, List.dropWhile_cons_of_pos hy] at h
      obtain ⟨htake, hdrop⟩ := ih h
      simp [hy, htake, hdrop]
    | false =>
      rw [List.cons_append, List.dropWhile_cons_of_neg (by simp [hy]), ← List.cons_append] at h
      simpa [hy] using List.append_cancel_right h

namespace Cursor

variable {c : Cursor} {b t : List Char} {p : Char → Bool}

section Scan

theorem skip_of_append (h : ((c.append t).skip p).rest = b ++ t) :
    c.skip p = ⟨((c.append t).skip p).offset, b⟩ := by
  rw [skip_eq] at h
  obtain ⟨htake, hdrop⟩ := takeWhile_of_append h
  rw [skip_eq, skip_eq, hdrop]
  simp only [append, htake]

theorem scanAtom_of_append (h : (c.append t).scanAtom.2.rest = b ++ t) :
    c.scanAtom = ((c.append t).scanAtom.1, ⟨(c.append t).scanAtom.2.offset, b⟩) := by
  rw [scanAtom_snd] at h ⊢
  have hskip := skip_of_append h
  rw [skip_eq] at h
  have htake := (takeWhile_of_append h).1
  rw [scanAtom, scanAtom, hskip, ← htake]
  simp only [append]
  cases classify ((c.rest ++ t).takeWhile fun ch => !isDelimiter ch) <;> rfl

/-- A string takes at least its closing quotation mark or an escape. -/
theorem scanString_rest_length_lt {start : Nat} {value : String} {offset : Nat} {cs : List Char}
    (hclosed : ¬Item.isOpen (scanString start value offset cs).1 = true) :
    (scanString start value offset cs).2.rest.length < cs.length := by
  fun_induction scanString start value offset cs with
  | case1 | case3 => simp [Item.isOpen] at hclosed
  | case2 => simp
  | case4 value offset c cs d hd ih =>
    have hlt := ih hclosed
    simp only [List.length_cons]
    omega
  | case5 =>
    simp only [List.length_cons]
    omega
  | case6 value offset c cs _ _ _ ih =>
    have hlt := ih hclosed
    simp only [List.length_cons]
    omega

theorem scanString_of_append {start : Nat} {value : String} {offset : Nat} {cs : List Char}
    (hclosed : ¬Item.isOpen (scanString start value offset (cs ++ t)).1 = true)
    (h : (scanString start value offset (cs ++ t)).2.rest = b ++ t) :
    scanString start value offset cs = ((scanString start value offset (cs ++ t)).1,
      ⟨(scanString start value offset (cs ++ t)).2.offset, b⟩) := by
  fun_induction scanString start value offset cs with
  | case1 value offset =>
    have hlt := scanString_rest_length_lt hclosed
    rw [h, List.nil_append, List.length_append] at hlt
    omega
  | case2 value offset cs =>
    have hrest : cs = b := List.append_cancel_right h
    rw [hrest]
    rfl
  | case3 value offset =>
    cases t with
    | nil => simp [scanString, Item.isOpen] at hclosed
    | cons ch t =>
      -- the escape that the backslash begins does not end before the cut
      have hescaped : scanString start value offset (['\\'] ++ ch :: t) =
          scanString start value offset ('\\' :: ch :: t) := rfl
      rw [hescaped, scanString] at hclosed h
      have hlength := congrArg List.length h
      rw [List.length_append, List.length_cons] at hlength
      split at hclosed
      · next hd =>
        have hlt := scanString_rest_length_lt hclosed
        simp only [hd] at hlength
        omega
      · next hd =>
        simp only [hd] at hlength
        omega
  | case4 value offset c cs d hd ih =>
    rw [List.cons_append, List.cons_append, scanString, hd] at hclosed h ⊢
    exact ih hclosed h
  | case5 value offset c cs hc =>
    rw [List.cons_append, List.cons_append, scanString, hc] at h ⊢
    have hrest : cs = b := List.append_cancel_right h
    rw [hrest]
  | case6 value offset c cs hquote hlast hescape ih =>
    have hbackslash := ne_backslash hlast hescape
    rw [List.cons_append, scanString_cons start value offset hquote hbackslash] at hclosed h ⊢
    exact ih hclosed h

theorem scanToken_of_append (hne : c.rest ≠ [])
    (hclosed : ¬Item.isOpen (c.append t).scanToken.1 = true)
    (h : (c.append t).scanToken.2.rest = b ++ t) :
    c.scanToken = ((c.append t).scanToken.1, ⟨(c.append t).scanToken.2.offset, b⟩) := by
  obtain ⟨offset, rest⟩ := c
  obtain ⟨ch, cs, rfl⟩ := List.exists_cons_of_ne_nil hne
  by_cases hcomment : ch = ';'
  · subst hcomment
    have hskip := skip_of_append (c := ⟨offset, ';' :: cs⟩) h
    simp only [scanToken, append, List.cons_append] at hskip ⊢
    rw [hskip]
  by_cases hstring : ch = '"'
  · subst hstring
    exact scanString_of_append hclosed h
  by_cases hsingle : ch = '(' ∨ ch = ')' ∨ ch = '\''
  · rcases hsingle with rfl | rfl | rfl
    all_goals
      obtain rfl : cs = b := List.append_cancel_right h
      rfl
  · have hplain : ch ∉ ['(', ')', '\'', ';', '"'] := by simp_all
    have hlong : (append ⟨offset, ch :: cs⟩ t).rest = ch :: (cs ++ t) := rfl
    rw [scanToken_eq_scanAtom hlong hplain] at h ⊢
    rw [scanToken_eq_scanAtom rfl hplain]
    exact scanAtom_of_append h

theorem scan_skip (c : Cursor) : (c.skip Text.isBlank).scan = c.scan :=
  scan_eq_scanToken (head?_skip _ c)

/-- A token or a fault that ends before what is cut off is the same without it. -/
theorem scan_of_append (hend : ¬(c.append t).scan.1.isEnd = true)
    (hclosed : ¬Item.isOpen (c.append t).scan.1 = true) (h : (c.append t).scan.2.rest = b ++ t) :
    c.scan = ((c.append t).scan.1, ⟨(c.append t).scan.2.offset, b⟩) := by
  obtain ⟨text, htext⟩ : b ++ t <:+ ((c.append t).skip Text.isBlank).rest := by
    rw [← h]
    exact scanToken_rest_suffix _
  have hskip := skip_of_append (b := text ++ b) (by rw [List.append_assoc, htext])
  have hlong : (c.append t).skip Text.isBlank = (c.skip Text.isBlank).append t := by
    have happend : (Cursor.mk ((c.append t).skip Text.isBlank).offset (text ++ b)).append t =
        ⟨((c.append t).skip Text.isBlank).offset, text ++ b ++ t⟩ := rfl
    rw [hskip, happend, List.append_assoc, htext]
  have hne : (c.skip Text.isBlank).rest ≠ [] := by
    rw [← scan_skip] at hend h
    have hlt := scan_rest_length_lt hend
    rw [h, ← htext, List.length_append] at hlt
    rw [hskip]
    simp only [ne_eq, List.append_eq_nil_iff]
    rintro ⟨rfl, -⟩
    simp at hlt
  have hscan : (c.append t).scan = ((c.skip Text.isBlank).append t).scanToken := by
    rw [scan, hlong]
  rw [hscan] at hclosed h ⊢
  exact scanToken_of_append hne hclosed h

end Scan

section Reaches

variable {c' : Cursor} {row : List Item}

theorem Reaches.snoc (h : c.Reaches row c') (hend : ¬c'.scan.1.isEnd = true) :
    c.Reaches (row ++ [c'.scan.1]) c'.scan.2 := by
  induction h with
  | refl c => exact .scan hend (.refl _)
  | scan hfirst _ ih => exact .scan hfirst (ih hend)

/-- Tokens that end before what is cut off are the same without it. -/
theorem Reaches.of_append (h : (c.append t).Reaches row c') (hok : ∀ item ∈ row, item.isOk = true)
    (hrest : c'.rest = b ++ t) : c.Reaches row ⟨c'.offset, b⟩ := by
  generalize hlong : c.append t = long at h
  induction h generalizing c with
  | refl =>
    subst hlong
    have hb : c.rest = b := List.append_cancel_right hrest
    exact hb ▸ .refl c
  | @scan long c' items hend hreaches ih =>
    subst hlong
    obtain ⟨hitem, hrow⟩ := List.forall_mem_cons.1 hok
    obtain ⟨text, htext⟩ := hreaches.rest_suffix
    rw [hrest, ← List.append_assoc] at htext
    have hscan := scan_of_append hend (Item.not_isOpen_of_isOk hitem) htext.symm
    have hbehind := ih hrow hrest (c := ⟨(c.append t).scan.2.offset, text ++ b⟩)
      (by rw [Cursor.append, htext])
    have hstep := Reaches.scan (c := c) (by rwa [hscan]) (by rwa [hscan])
    rwa [hscan] at hstep

end Reaches

end Cursor

end FrameLisp.Source
