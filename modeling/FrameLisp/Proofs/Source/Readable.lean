import FrameLisp.Proofs.Source.Printed

/-!
# What is read is readable

The symbols of a text have the names that are left for symbols, and its numbers are numbers. So
everything that is read can be printed and read again, unless it holds an infinite number, which is
printed like a symbol.
-/
namespace FrameLisp.Source

open Numeric

section Numbers

theorem ne_nan_of_magnitude? {negative : Bool} {cs : List Char} {x : Binary64}
    (h : magnitude? negative cs = some x) : x ≠ .nan := by
  obtain ⟨whole, fraction, mantissa, exponent, e, rfl, hm, he⟩ := exists_of_magnitude? h
  rw [magnitude?_eq negative hm he] at h
  exact Option.some.inj h ▸ Binary64.ofDecimal_ne_nan _ _ _

theorem ne_nan_of_decimal? {cs : List Char} {x : Binary64} (h : decimal? cs = some x) :
    x ≠ .nan := by
  rw [decimal?.eq_def] at h
  split at h
  · exact ne_nan_of_magnitude? h
  · exact ne_nan_of_magnitude? h
  · exact ne_nan_of_magnitude? h

theorem ne_nan_of_fraction? {n d : List Char} {x : Binary64}
    (h : fraction? n d = .ok (some (.float x))) : x ≠ .nan := by
  by_cases hnd : IsInteger n ∧ IsNumeral d
  · rw [fraction?_eq hnd.1 hnd.2] at h
    split at h <;> simp at h
  · rw [fraction?_eq_none hnd] at h
    simp at h

theorem ne_nan_of_number? {cs : List Char} {x : Binary64}
    (h : number? cs = .ok (some (.float x))) : x ≠ .nan := by
  rw [number?_eq] at h
  split at h
  · exact ne_nan_of_fraction? h
  · split at h
    · cases h
    · obtain ⟨y, hy, heq⟩ := Option.map_eq_some_iff.1 (Except.ok.inj h)
      exact Token.float.inj heq ▸ ne_nan_of_decimal? hy

theorem ne_nan_of_classify {cs : List Char} {x : Binary64} (h : classify cs = .ok (.float x)) :
    x ≠ .nan := by
  simp only [classify] at h
  split at h
  · cases h
  · split at h <;> cases h
  · split at h
    · split at h
      · cases h
      · next hnumber => exact ne_nan_of_number? (Except.ok.inj h ▸ hnumber)
      · cases h
    · cases h

end Numbers

section Tokens

/-- What a token that was scanned is like: a symbol has a name, and a number is one. -/
def Token.Proper : Token → Prop
  | .symbol name => IsName name.toList
  | .float x => x ≠ .nan
  | _ => True

variable {cs : List Char}

theorem proper_of_classify {token : Token} (hne : cs ≠ [])
    (hcs : ∀ c ∈ cs, isDelimiter c = false) (h : classify cs = .ok token) : token.Proper := by
  cases token with
  | symbol name =>
    obtain ⟨hname, rfl⟩ := isName_of_classify hne hcs h
    rwa [Token.Proper, String.toList_ofList]
  | float x => exact ne_nan_of_classify h
  | _ => trivial

theorem proper_of_scanAtom {c : Cursor} {lexeme : Lexeme} {ch : Char} {cs : List Char}
    (hrest : c.rest = ch :: cs) (hch : isDelimiter ch = false) (h : c.scanAtom.1 = .ok lexeme) :
    lexeme.token.Proper := by
  have hne : c.rest.takeWhile (fun ch => !isDelimiter ch) ≠ [] := by
    rw [hrest, List.takeWhile_cons_of_pos (by simp [hch])]
    exact List.cons_ne_nil _ _
  have hcs : ∀ x ∈ c.rest.takeWhile (fun ch => !isDelimiter ch), isDelimiter x = false := by
    intro x hx
    simpa using List.mem_takeWhile_imp hx
  rw [Cursor.scanAtom] at h
  split at h
  · next token htoken => exact Except.ok.inj h ▸ proper_of_classify hne hcs htoken
  · cases h

theorem proper_of_scanString {start offset : Nat} {value : String} {cs : List Char}
    {lexeme : Lexeme} (h : (Cursor.scanString start value offset cs).1 = .ok lexeme) :
    lexeme.token.Proper := by
  fun_induction Cursor.scanString start value offset cs with
  | case1 => cases h
  | case2 => exact Except.ok.inj h ▸ trivial
  | case3 => cases h
  | case4 _ _ _ _ _ _ ih => exact ih h
  | case5 => cases h
  | case6 _ _ _ _ _ _ _ ih => exact ih h

theorem proper_of_scanToken {c : Cursor} {lexeme : Lexeme}
    (hc : ∀ ch ∈ c.rest.head?, Text.isBlank ch = false) (h : c.scanToken.1 = .ok lexeme) :
    lexeme.token.Proper := by
  unfold Cursor.scanToken at h
  split at h
  case h_1 => exact Except.ok.inj h ▸ trivial
  case h_2 => exact Except.ok.inj h ▸ trivial
  case h_3 => exact Except.ok.inj h ▸ trivial
  case h_4 => exact Except.ok.inj h ▸ trivial
  case h_5 => exact Except.ok.inj h ▸ trivial
  case h_6 => exact proper_of_scanString h
  case h_7 ch cs hleft hright hquote hcomment hstring hrest =>
    have hblank := hc ch (by rw [hrest]; rfl)
    refine proper_of_scanAtom hrest ?_ h
    simp_all [isDelimiter]

theorem proper_of_mem_items {c : Cursor} :
    ∀ lexeme, .ok lexeme ∈ c.items → lexeme.token.Proper := by
  have hscan : ∀ (c : Cursor) (lexeme : Lexeme), c.scan.1 = .ok lexeme → lexeme.token.Proper := by
    intro c lexeme h
    exact proper_of_scanToken (Cursor.head?_skip _ _) h
  intro lexeme hmem
  induction c using Cursor.inductionOnScan with
  | atEnd c hend =>
    rw [Cursor.items_of_isEnd hend, List.mem_singleton] at hmem
    exact hscan c lexeme hmem.symm
  | step c hend ih =>
    rw [Cursor.items_of_not_isEnd hend] at hmem
    rcases List.mem_cons.1 hmem with heq | hmem
    · exact hscan c lexeme heq.symm
    · exact ih hmem

end Tokens

section Data

theorem isDelimiter_of_isLower {c : Char} (h : c.isLower = true) : isDelimiter c = false := by
  have hrange : 97 ≤ c.toNat ∧ c.toNat ≤ 122 := by
    simpa [Char.isLower, UInt32.le_iff_toNat_le] using h
  have hblank : Text.isBlank c = false := by
    simp [Text.isBlank, Text.Ranges.contains, Text.whiteSpace]
    omega
  have hne : c ∉ ['(', ')', '"', ';', '\''] := by
    intro hc
    have hall : ∀ c ∈ ['(', ')', '"', ';', '\''], c.isLower = false := by simp [Char.isLower]
    rw [hall c hc] at h
    cases h
  simp_all [isDelimiter]

/-- The words of the language are names. -/
theorem isName_of_lower {cs : List Char} (hne : cs ≠ []) (h : cs.all Char.isLower = true) :
    IsName cs := by
  have hlower : ∀ c ∈ cs, c.isLower = true := List.all_eq_true.1 h
  refine (isName_iff hne fun c hc => isDelimiter_of_isLower (hlower c hc)).2 ?_
  obtain ⟨c, cs, rfl⟩ := List.exists_cons_of_ne_nil hne
  have hc : c.isLower = true := hlower c List.mem_cons_self
  have hdigit : isDigit c = false := by
    simp [isDigit, Char.isLower, Char.le_def, UInt32.le_iff_toNat_le] at hc ⊢
    omega
  have hmark : ∀ x ∈ ['+', '-', '.', '#'], c ≠ x := by
    rintro x hx rfl
    have hall : ∀ x ∈ ['+', '-', '.', '#'], x.isLower = false := by simp [Char.isLower]
    rw [hall c hx] at hc
    cases hc
  simp only [List.forall_mem_cons] at hmark
  obtain ⟨hplus, hminus, hdot, hhash, -⟩ := hmark
  simp [classify, looksNumeric, hdigit, hplus, hminus, hdot, hhash]

theorem isName_quote : IsName "quote".toList := isName_of_lower (by simp) (by decide)

/-- What is built from proper tokens is readable where it is bounded. -/
theorem built_readable : Built Token.Proper fun d => d.Bounded → d.Readable where
  atom := by
    intro token d ht hd hbounded
    cases token with
    | string s => exact Option.some.inj hd ▸ .string s
    | integer n => exact Option.some.inj hd ▸ .exact n
    | rational q => exact Option.some.inj hd ▸ .exact q
    | boolean b => exact Option.some.inj hd ▸ .boolean b
    | symbol name => exact Option.some.inj hd ▸ .symbol ht
    | float x =>
      obtain rfl := Option.some.inj hd
      cases x with
      | nan => exact absurd rfl ht
      | infinite negative => exact absurd hbounded id
      | finite x => exact .finite x
    | _ => cases hd
  quote := fun _ => .symbol isName_quote
  nil := fun _ => .nil
  pair := fun hhead htail hbounded => .pair (hhead hbounded.1) (htail hbounded.2)

theorem readable_of_ofString {source : String} {p : Program}
    (hp : Program.ofString source = .ok p) : ∀ d ∈ p.data, d.Bounded → d.Readable :=
  built_readable.ofCursor proper_of_mem_items hp

end Data

/-- Readable data are read back from their texts, and what is read is readable short of infinite
numbers. -/
theorem readable_roundtrip :
    (∀ ds source, (∀ d ∈ ds, d.Readable) → Joined ds source.toList →
      ∃ p, Program.ofString source = .ok p ∧ p.data = ds.map Datum.unmarked) ∧
    ∀ source p, Program.ofString source = .ok p → ∀ d ∈ p.data, d.Bounded → d.Readable :=
  ⟨fun _ _ hds h => h.exists_ofString hds, fun _ _ hp => readable_of_ofString hp⟩

/-- A chain that ends in a fraction behind a string with escapes. -/
def sampleChain : Datum :=
  .pair (some 0) (.symbol "quote")
    (.pair none (.string "\"\\\n") (.number (.exact ⟨-1, 2, by decide, by decide⟩)))

/-- The number `-0.5`. -/
def minusHalf : Datum := .number (.inexact (.finite ⟨true, 0x10000000000000, -53, by decide⟩))

def samplesText : String := "(quote \"\\\"\\\\\\n\" . -1/2)\n\t-0.5 ()"

theorem joined_samples : Joined [sampleChain, minusHalf, .nil] samplesText.toList := by
  have hgap : ∀ c ∈ ['\n', '\t'], Text.isBlank c = true := by
    simp [Text.isBlank, Text.Ranges.contains, Text.whiteSpace]
  have hlast : Joined [minusHalf, .nil] (minusHalf.text.toList ++ ([' '] ++ "()".toList)) :=
    .cons (by simp) (by simp) isBlank_space (.single .nil)
  have hall := Joined.cons (by simp) (by simp) hgap hlast (d := sampleChain)
  have hstring : Text.quote "\"\\\n" = "\"\\\"\\\\\\n\"" := by
    rw [← String.toList_inj, toList_quote]
    rfl
  have hchain : sampleChain.text = "(quote \"\\\"\\\\\\n\" . -1/2)" := by
    have hratio : Number.ratText ⟨-1, 2, by decide, by decide⟩ = "-1/2" := by decide +kernel
    simp [sampleChain, Datum.text, Datum.write, Datum.writeTail, Datum.atomText, Number.text,
      hstring, hratio]
  have hhalf : minusHalf.text = "-0.5" := by decide +kernel
  simpa [samplesText, hchain, hhalf] using hall

theorem readable_roundtrip_samples :
    ((∀ d ∈ [sampleChain, minusHalf, .nil], d.Readable) ∧
      Joined [sampleChain, minusHalf, .nil] samplesText.toList) ∧
    ∃ p, Program.ofString samplesText = .ok p ∧
      p.data = [sampleChain.unmarked, minusHalf, .nil] ∧ ∀ d ∈ p.data, d.Bounded ∧ d.Readable := by
  have hchain : sampleChain.Readable := .pair (.symbol isName_quote) (.pair (.string _) (.exact _))
  have hds : ∀ d ∈ [sampleChain, minusHalf, .nil], d.Readable := by
    simp only [List.forall_mem_cons]
    exact ⟨hchain, .finite _, .nil, by simp⟩
  obtain ⟨p, hp, hdata⟩ := readable_roundtrip.1 _ _ hds joined_samples
  have hbounded : ∀ d ∈ p.data, d.Bounded := by
    simp [hdata, Datum.unmarked, Datum.Bounded, sampleChain, minusHalf]
  refine ⟨⟨hds, joined_samples⟩, p, hp, hdata, fun d hd => ⟨hbounded d hd, ?_⟩⟩
  exact readable_roundtrip.2 _ p hp d hd (hbounded d hd)

end FrameLisp.Source
