import FrameLisp.Source.Reading
import Mathlib.Data.List.TakeWhile

/-!
# What a scan consumes

A scan goes forward in the text by as many bytes as the characters that it passes have. It does not
look past a newline at the seam of two texts, unless a string is open there.
-/
namespace FrameLisp.Source

/-- The number of bytes of some characters. -/
def width : List Char → Nat
  | [] => 0
  | c :: cs => c.utf8Size + width cs

@[simp] theorem width_nil : width [] = 0 := rfl

@[simp] theorem width_cons (c : Char) (cs : List Char) :
    width (c :: cs) = c.utf8Size + width cs := rfl

@[simp] theorem width_append (cs cs' : List Char) : width (cs ++ cs') = width cs + width cs' := by
  induction cs with
  | nil => simp
  | cons c cs ih => simp [ih, Nat.add_assoc]

theorem eq_nil_of_width_eq_zero {cs : List Char} (h : width cs = 0) : cs = [] := by
  cases cs with
  | nil => rfl
  | cons c cs =>
    have hpositive := c.utf8Size_pos
    rw [width_cons] at h
    omega

/-- Of two beginnings of a text the narrower one is a beginning of the other. -/
theorem isPrefix_of_width_le {a b cs : List Char} (ha : a <+: cs) (hb : b <+: cs)
    (h : width a ≤ width b) : a <+: b := by
  rcases List.prefix_or_prefix_of_prefix ha hb with hab | ⟨t, rfl⟩
  · exact hab
  · rw [width_append] at h
    have ht : t = [] := eq_nil_of_width_eq_zero (by omega)
    exact ⟨[], by simp [ht]⟩

theorem width_takeWhile_add_dropWhile (p : Char → Bool) (cs : List Char) :
    width (cs.takeWhile p) + width (cs.dropWhile p) = width cs := by
  rw [← width_append, List.takeWhile_append_dropWhile]

/-- A newline stands at the seam of two texts, on either side, or nothing stands before it. -/
def Seam (a t : List Char) : Prop := a = [] ∨ a.getLast? = some '\n' ∨ t.head? = some '\n'

theorem Seam.suffix {a b t : List Char} (h : Seam a t) (hb : b <:+ a) : Seam b t := by
  by_cases hne : b = []
  · exact .inl hne
  · obtain ⟨front, rfl⟩ := hb
    rcases h with ha | ha | ht
    · simp_all
    · rw [List.getLast?_append, List.getLast?_eq_some_getLast hne, Option.some_or] at ha
      exact .inr (.inl ((List.getLast?_eq_some_getLast hne).trans ha))
    · exact .inr (.inr ht)

/-- What stops at a newline stops before a seam or at it. -/
theorem Seam.stops {a t : List Char} {p : Char → Bool} (hseam : Seam a t) (hne : a ≠ [])
    (hp : p '\n' = false) :
    (∃ x ∈ a, p x = false) ∨ ∃ x ∈ t.head?, p x = false := by
  rcases hseam with ha | ha | ht
  · exact absurd ha hne
  · exact .inl ⟨_, List.mem_of_getLast? ha, hp⟩
  · exact .inr ⟨_, ht, hp⟩

/-- A stretch that ends before the seam or at it is the same whatever follows. -/
theorem takeWhile_append_of_stop {a t : List Char} {p : Char → Bool}
    (h : (∃ x ∈ a, p x = false) ∨ ∃ x ∈ t.head?, p x = false) :
    (a ++ t).takeWhile p = a.takeWhile p ∧ (a ++ t).dropWhile p = a.dropWhile p ++ t := by
  induction a with
  | nil =>
    obtain ⟨x, hx, hp⟩ : ∃ x ∈ t.head?, p x = false := by simpa using h
    obtain ⟨rest, rfl⟩ := List.head?_eq_some_iff.1 hx
    simp [hp]
  | cons y a ih =>
    cases hy : p y with
    | false => simp [hy]
    | true =>
      have hstop : (∃ x ∈ a, p x = false) ∨ ∃ x ∈ t.head?, p x = false := by simpa [hy] using h
      obtain ⟨htake, hdrop⟩ := ih hstop
      simp [hy, htake, hdrop]

/-- Whether an item is a string that does not end. -/
def Item.isOpen : Item → Bool
  | .ok _ => false
  | .error e => e.fault = .unterminatedString

section Tokens

/-- Whether a token is a datum on its own. -/
def Token.IsAtom (token : Token) : Prop := ∃ d, Place.atom? token = some d

theorem isAtom_of_fraction? {cs cs' : List Char} {token : Token}
    (h : fraction? cs cs' = .ok (some token)) : token.IsAtom := by
  simp only [fraction?] at h
  split at h
  · split at h
    · split at h
      · split at h
        · simp at h
        · cases h
          exact ⟨_, rfl⟩
      · simp at h
    · simp at h
  · simp at h

theorem isAtom_of_number? {cs : List Char} {token : Token} (h : number? cs = .ok (some token)) :
    token.IsAtom := by
  simp only [number?] at h
  generalize (if cs.head? = some '+' then cs.drop 1 else cs) = unsigned at h
  split at h
  · exact isAtom_of_fraction? h
  · split at h
    · cases h
      exact ⟨_, rfl⟩
    · obtain ⟨x, -, rfl⟩ := Option.map_eq_some_iff.1 (Except.ok.inj h)
      exact ⟨_, rfl⟩

/-- What has no delimiter is a datum or a dot. -/
theorem isAtom_of_classify {cs : List Char} {token : Token} (h : classify cs = .ok token) :
    token = .dot ∨ token.IsAtom := by
  simp only [classify] at h
  split at h
  · exact .inl (Except.ok.inj h).symm
  · split at h
    · cases h
      exact .inr ⟨_, rfl⟩
    · simp at h
  · split at h
    · split at h
      · simp at h
      · next hnumber =>
        cases h
        exact .inr (isAtom_of_number? hnumber)
      · cases h
        exact .inr ⟨_, rfl⟩
    · cases h
      exact .inr ⟨_, rfl⟩

end Tokens

namespace Cursor

/-- The cursor in a longer text. -/
def append (c : Cursor) (t : List Char) : Cursor := ⟨c.offset, c.rest ++ t⟩

theorem skipFrom_eq (p : Char → Bool) (offset : Nat) (cs : List Char) :
    skipFrom p offset cs = ⟨offset + width (cs.takeWhile p), cs.dropWhile p⟩ := by
  induction cs generalizing offset with
  | nil => rfl
  | cons c cs ih =>
    rw [skipFrom]
    split
    · next hp => rw [ih, List.takeWhile_cons_of_pos hp, List.dropWhile_cons_of_pos hp, width_cons,
        Nat.add_assoc]
    · next hp => rw [List.takeWhile_cons_of_neg hp, List.dropWhile_cons_of_neg hp]; rfl

theorem skip_eq (p : Char → Bool) (c : Cursor) :
    c.skip p = ⟨c.offset + width (c.rest.takeWhile p), c.rest.dropWhile p⟩ := skipFrom_eq _ _ _

theorem scanToken_eq_scanAtom {c : Cursor} {ch : Char} {cs : List Char} (hrest : c.rest = ch :: cs)
    (hch : ch ∉ ['(', ')', '\'', ';', '"']) : c.scanToken = c.scanAtom := by
  obtain ⟨offset, rest⟩ := c
  obtain rfl : rest = ch :: cs := hrest
  simp_all [scanToken]

/-- What is skipped ends before a character that does not belong to it. -/
theorem head?_skip (p : Char → Bool) (c : Cursor) : ∀ ch ∈ (c.skip p).rest.head?, p ch = false := by
  intro ch hch
  obtain ⟨rest, hrest⟩ := List.head?_eq_some_iff.1 hch
  exact skipFrom_rest_head hrest

/-- Where no white space stands, none is skipped. -/
theorem scan_eq_scanToken {c : Cursor} (hblank : ∀ ch ∈ c.rest.head?, Text.isBlank ch = false) :
    c.scan = c.scanToken := by
  have hskip : c.skip Text.isBlank = c := by
    obtain ⟨offset, _ | ⟨ch, cs⟩⟩ := c
    · rfl
    · simp [skip, skipFrom, hblank ch rfl]
  rw [scan, hskip]

theorem scan_cons {ch : Char} (hch : Text.isBlank ch = false) (offset : Nat) (cs : List Char) :
    (mk offset (ch :: cs)).scan = (mk offset (ch :: cs)).scanToken :=
  scan_eq_scanToken (by simpa using hch)

theorem scanString_cons (start : Nat) (value : String) (offset : Nat) {c : Char}
    (hquote : c ≠ '"') (hbackslash : c ≠ '\\') (cs : List Char) :
    scanString start value offset (c :: cs) =
      scanString start (value.push c) (offset + c.utf8Size) cs := by
  rw [scanString]
  · exact hquote
  · exact fun hc _ => hbackslash hc
  · exact fun _ _ hc _ => hbackslash hc

/-- A character that begins no escape, neither a broken one nor a whole one, is no backslash. -/
theorem ne_backslash {c : Char} {cs : List Char} (hlast : c = '\\' → cs = [] → False)
    (hescape : ∀ d ds, c = '\\' → cs = d :: ds → False) : c ≠ '\\' := by
  rintro rfl
  cases cs with
  | nil => exact hlast rfl rfl
  | cons d ds => exact hescape d ds rfl rfl

section Width

/-- The offset behind the last character of the text. -/
def bound (c : Cursor) : Nat := c.offset + width c.rest

theorem bound_skip (p : Char → Bool) (c : Cursor) : (c.skip p).bound = c.bound := by
  rw [skip_eq, bound, bound, Nat.add_assoc, width_takeWhile_add_dropWhile]

theorem bound_scanString (start : Nat) (value : String) (offset : Nat) (cs : List Char) :
    (scanString start value offset cs).2.bound = offset + width cs := by
  have hquote : '"'.utf8Size = 1 := rfl
  have hbackslash : '\\'.utf8Size = 1 := rfl
  fun_induction scanString start value offset cs with
  | case1 => rfl
  | case2 value offset cs => simp [bound, hquote, Nat.add_assoc]
  | case3 => simp [bound, hbackslash]
  | case4 value offset c cs d hd ih =>
    rw [ih]
    simp [hbackslash, Nat.add_assoc]
  | case5 value offset c cs hc => simp [bound, hbackslash, Nat.add_assoc]
  | case6 value offset c cs _ _ _ ih =>
    rw [ih]
    simp [Nat.add_assoc]

theorem bound_scanToken (c : Cursor) : c.scanToken.2.bound = c.bound := by
  have hascii : '('.utf8Size = 1 ∧ ')'.utf8Size = 1 ∧ '\''.utf8Size = 1 ∧ '"'.utf8Size = 1 :=
    ⟨rfl, rfl, rfl, rfl⟩
  obtain ⟨hleft, hright, hquote, hstring⟩ := hascii
  unfold scanToken
  split
  case h_1 => rfl
  case h_2 heq => simp [bound, heq, hleft, Nat.add_assoc]
  case h_3 heq => simp [bound, heq, hright, Nat.add_assoc]
  case h_4 heq => simp [bound, heq, hquote, Nat.add_assoc]
  case h_5 => exact bound_skip _ c
  case h_6 cs heq =>
    rw [bound_scanString, bound, heq, width_cons, hstring, Nat.add_assoc]
  case h_7 => rw [scanAtom_snd, bound_skip]

/-- A scan passes over as many bytes as it passes over characters. -/
theorem bound_scan (c : Cursor) : c.scan.2.bound = c.bound := by
  rw [scan, bound_scanToken, bound_skip]

end Width

section Suffix

theorem skip_rest_suffix (p : Char → Bool) (c : Cursor) : (c.skip p).rest <:+ c.rest := by
  rw [skip_eq]
  exact List.dropWhile_suffix p

theorem scanString_rest_suffix (start : Nat) (value : String) (offset : Nat) (cs : List Char) :
    (scanString start value offset cs).2.rest <:+ cs := by
  fun_induction scanString start value offset cs with
  | case1 => exact List.suffix_rfl
  | case2 value offset cs => exact List.suffix_cons _ _
  | case3 => exact List.nil_suffix
  | case4 value offset c cs d hd ih =>
    exact (ih.trans (List.suffix_cons _ _)).trans (List.suffix_cons _ _)
  | case5 value offset c cs hc => exact (List.suffix_cons _ _).trans (List.suffix_cons _ _)
  | case6 value offset c cs _ _ _ ih => exact ih.trans (List.suffix_cons _ _)

theorem scanToken_rest_suffix (c : Cursor) : c.scanToken.2.rest <:+ c.rest := by
  unfold scanToken
  split
  case h_1 => exact List.suffix_rfl
  case h_2 heq => exact heq ▸ List.suffix_cons _ _
  case h_3 heq => exact heq ▸ List.suffix_cons _ _
  case h_4 heq => exact heq ▸ List.suffix_cons _ _
  case h_5 => exact skip_rest_suffix _ c
  case h_6 heq => exact heq ▸ (scanString_rest_suffix _ _ _ _).trans (List.suffix_cons _ _)
  case h_7 => exact scanAtom_snd c ▸ skip_rest_suffix _ c

theorem scan_rest_suffix (c : Cursor) : c.scan.2.rest <:+ c.rest :=
  (scanToken_rest_suffix _).trans (skip_rest_suffix _ _)

end Suffix

section Seam

variable {c : Cursor} {t : List Char} {p : Char → Bool}

theorem skip_append (h : (∃ x ∈ c.rest, p x = false) ∨ ∃ x ∈ t.head?, p x = false) :
    (c.append t).skip p = (c.skip p).append t := by
  obtain ⟨htake, hdrop⟩ := takeWhile_append_of_stop h
  simp [skip_eq, append, htake, hdrop]

/-- Before what is left over by a scan the stretch that was scanned has stopped. -/
theorem stops_of_skip_ne_nil (h : (c.skip p).rest ≠ []) : ∃ x ∈ c.rest, p x = false := by
  rw [skip_eq, ne_eq, List.dropWhile_eq_nil_iff] at h
  simpa using h

theorem scanAtom_append (hstop : (∃ x ∈ c.rest, (!isDelimiter x) = false) ∨
    ∃ x ∈ t.head?, (!isDelimiter x) = false) :
    (c.append t).scanAtom = (c.scanAtom.1, c.scanAtom.2.append t) := by
  have htake := (takeWhile_append_of_stop hstop).1
  have hrest : (c.append t).rest = c.rest ++ t := rfl
  have hoffset : (c.append t).offset = c.offset := rfl
  have hskip : ((c.skip fun ch => !isDelimiter ch).append t).offset =
      (c.skip fun ch => !isDelimiter ch).offset := rfl
  rw [scanAtom, scanAtom, skip_append hstop, hrest, htake, hoffset, hskip]
  cases classify (c.rest.takeWhile fun ch => !isDelimiter ch) <;> rfl

theorem scanString_append (start : Nat) (value : String) (offset : Nat) (cs t : List Char)
    (hopen : ¬Item.isOpen (scanString start value offset cs).1 = true) :
    scanString start value offset (cs ++ t) =
      ((scanString start value offset cs).1, (scanString start value offset cs).2.append t) := by
  fun_induction scanString start value offset cs with
  | case1 => simp [Item.isOpen] at hopen
  | case2 value offset cs => rfl
  | case3 => simp [Item.isOpen] at hopen
  | case4 value offset c cs d hd ih =>
    rw [List.cons_append, List.cons_append, scanString, hd]
    exact ih hopen
  | case5 value offset c cs hc =>
    rw [List.cons_append, List.cons_append, scanString, hc]
    rfl
  | case6 value offset c cs hquote hlast hescape ih =>
    have hbackslash := ne_backslash hlast hescape
    rw [List.cons_append, scanString_cons start value offset hquote hbackslash]
    exact ih hopen

/-- A token or a fault that ends before the seam, or at it, does not depend on what follows. -/
theorem scanToken_append (hseam : Seam c.rest t ∨ c.scanToken.2.rest ≠ []) (hne : c.rest ≠ [])
    (hopen : ¬Item.isOpen c.scanToken.1 = true) :
    (c.append t).scanToken = (c.scanToken.1, c.scanToken.2.append t) := by
  obtain ⟨offset, rest⟩ := c
  obtain ⟨ch, cs, rfl⟩ := List.exists_cons_of_ne_nil hne
  by_cases hcomment : ch = ';'
  · subst hcomment
    have hstop := hseam.elim (fun h => h.stops (p := (· ≠ '\n')) hne rfl) fun h =>
      .inl (stops_of_skip_ne_nil h)
    have hskip := skip_append (c := ⟨offset, ';' :: cs⟩) hstop
    have hbehind := congrArg Cursor.offset hskip
    simp only [scanToken, append, List.cons_append] at hskip hbehind ⊢
    rw [hskip]
  by_cases hstring : ch = '"'
  · subst hstring
    exact scanString_append offset "" (offset + 1) cs t hopen
  by_cases hsingle : ch = '(' ∨ ch = ')' ∨ ch = '\''
  · rcases hsingle with rfl | rfl | rfl <;> rfl
  · have hplain : ch ∉ ['(', ')', '\'', ';', '"'] := by simp_all
    rw [scanToken_eq_scanAtom rfl hplain, scanAtom_snd] at hseam
    rw [scanToken_eq_scanAtom rfl hplain, scanToken_eq_scanAtom rfl hplain]
    exact scanAtom_append (hseam.elim (fun h => h.stops hne (by decide)) fun h =>
      .inl (stops_of_skip_ne_nil h))

/-- Short of the end of the text, a scan does not look past what it leaves over, nor past a seam,
unless a string is open. -/
theorem scan_append_of_seam_or_rest (hseam : Seam c.rest t ∨ c.scan.2.rest ≠ [])
    (hend : ¬c.scan.1.isEnd = true) (hopen : ¬Item.isOpen c.scan.1 = true) :
    (c.append t).scan = (c.scan.1, c.scan.2.append t) := by
  have hne : (c.skip Text.isBlank).rest ≠ [] := by
    intro hnil
    simp [scan, scanToken, hnil, Item.isEnd] at hend
  rw [scan, skip_append (.inl (stops_of_skip_ne_nil hne))]
  exact scanToken_append (hseam.imp_left fun h => h.suffix (skip_rest_suffix _ c)) hne hopen

/-- Short of the end of the text, a scan does not look past a seam unless a string is open. -/
theorem scan_append (hseam : Seam c.rest t) (hend : ¬c.scan.1.isEnd = true)
    (hopen : ¬Item.isOpen c.scan.1 = true) :
    (c.append t).scan = (c.scan.1, c.scan.2.append t) :=
  scan_append_of_seam_or_rest (.inl hseam) hend hopen

end Seam

section End

theorem not_isEnd_scanAtom (c : Cursor) : ¬Item.isEnd c.scanAtom.1 = true := by
  rw [scanAtom]
  split
  · next token htoken =>
    rcases isAtom_of_classify htoken with rfl | ⟨d, hd⟩
    · simp [Item.isEnd]
    · intro hend
      have hend : token = .endOfInput := by simpa [Item.isEnd] using hend
      simp [hend, Place.atom?] at hd
  · simp [Item.isEnd]

theorem not_isEnd_scanString (start : Nat) (value : String) (offset : Nat) (cs : List Char) :
    ¬Item.isEnd (scanString start value offset cs).1 = true := by
  fun_induction scanString start value offset cs with
  | case1 | case2 | case3 | case5 => simp [Item.isEnd]
  | case4 value offset c cs d hd ih => exact ih
  | case6 value offset c cs _ _ _ ih => exact ih

/-- The text ends only behind its last character. -/
theorem rest_eq_nil_of_isEnd {c : Cursor} (h : Item.isEnd c.scanToken.1 = true) : c.rest = [] := by
  unfold scanToken at h
  split at h
  case h_1 heq => exact heq
  case h_2 => simp [Item.isEnd] at h
  case h_3 => simp [Item.isEnd] at h
  case h_4 => simp [Item.isEnd] at h
  case h_5 => simp [Item.isEnd] at h
  case h_6 => exact absurd h (not_isEnd_scanString _ _ _ _)
  case h_7 => exact absurd h (not_isEnd_scanAtom c)

/-- At the end of a text only white space is left. -/
theorem all_isBlank_of_isEnd {c : Cursor} (h : c.scan.1.isEnd = true) :
    ∀ x ∈ c.rest, Text.isBlank x = true := by
  have hrest : (c.skip Text.isBlank).rest = [] := rest_eq_nil_of_isEnd h
  simpa [skip_eq] using hrest

/-- At the end of a text it ends at its last offset, and nothing is left. -/
theorem scan_of_isEnd {c : Cursor} (h : c.scan.1.isEnd = true) :
    c.scan = (.ok ⟨.endOfInput, .point c.bound⟩, ⟨c.bound, []⟩) := by
  have hrest : (c.skip Text.isBlank).rest = [] := rest_eq_nil_of_isEnd h
  have hskip : c.skip Text.isBlank = ⟨c.bound, []⟩ := by
    rw [← bound_skip Text.isBlank c, bound, hrest, width_nil, Nat.add_zero, ← hrest]
  rw [scan, hskip]
  rfl

end End

end Cursor

end FrameLisp.Source
