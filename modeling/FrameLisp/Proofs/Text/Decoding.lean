import Mathlib
import FrameLisp.Text.Decoding
import FrameLisp.Text.Lines

/-!
# Lines of characters

In a valid row of bytes each character has bytes of its own, which are decoded alike whatever
follows them, and only a newline has the byte of one. So the lines of the bytes hold the lines of
the text. A byte that is taken off a line together with its newline is a carriage return.
-/
namespace FrameLisp.Text

section Characters

theorem decodeFrom_eq (read : Array Decoded) (bytes : List UInt8) :
    (decodeFrom read bytes).toList = read.toList ++ decode bytes := by
  rw [decode]
  induction hn : bytes.length using Nat.strong_induction_on generalizing read bytes with
  | h n ih =>
    match bytes with
    | [] => simp [decodeFrom]
    | b :: bytes =>
      have hlt : (decodeFirst b bytes).2.length < n := by
        have hle := decodeFirst_length_le b bytes
        rw [List.length_cons] at hn
        omega
      rw [decodeFrom, decodeFrom, ih _ hlt _ _ rfl, ih _ hlt (#[].push _) _ rfl]
      simp

@[simp] theorem decode_nil : decode [] = [] := by simp [decode, decodeFrom]

theorem decode_cons (b : UInt8) (bytes : List UInt8) :
    decode (b :: bytes) = (decodeFirst b bytes).1 :: decode (decodeFirst b bytes).2 := by
  rw [decode, decodeFrom, decodeFrom_eq]
  simp

/-- Bytes of one character, which is ASCII when it has one byte. -/
structure Encodes (bytes : List UInt8) (c : Char) : Prop where
  decode_append : ∀ rest, decode (bytes ++ rest) = .char c :: decode rest
  ascii_or : (∃ b, bytes = [b] ∧ b.toNat = c.toNat) ∨
    (∀ b ∈ bytes, 0x80 ≤ b.toNat) ∧ 0x80 ≤ c.toNat

theorem ofCodePoint_eq_char {least code : Nat} {c : Char}
    (h : Decoded.ofCodePoint least code = .char c) : least ≤ code ∧ c.toNat = code := by
  rw [Decoded.ofCodePoint] at h
  split at h
  · next hvalid =>
    rw [← Decoded.char.inj h, Char.toNat_ofNat, if_pos hvalid.2]
    exact ⟨hvalid.1, rfl⟩
  · cases h

theorem exists_of_decodeTails_eq_char {least bits tails : Nat} {bytes rest : List UInt8} {c : Char}
    (h : decodeTails least bits tails bytes = (.char c, rest)) :
    ∃ front, bytes = front ++ rest ∧ (∀ b ∈ front, 0x80 ≤ b.toNat) ∧ least ≤ c.toNat ∧
      ∀ rest, decodeTails least bits tails (front ++ rest) = (.char c, rest) := by
  induction tails generalizing bits bytes with
  | zero =>
    obtain ⟨hc, rfl⟩ := Prod.mk.inj h
    obtain ⟨hle, hcode⟩ := ofCodePoint_eq_char hc
    exact ⟨[], rfl, by simp, hcode ▸ hle, fun rest => by simp [decodeTails, hc]⟩
  | succ tails ih =>
    cases bytes with
    | nil => simp [decodeTails] at h
    | cons b bytes =>
      rw [decodeTails] at h
      split at h
      · next hb =>
        obtain ⟨front, rfl, hfront, hle, htails⟩ := ih h
        refine ⟨b :: front, rfl, List.forall_mem_cons.2 ⟨hb.1, hfront⟩, hle, fun rest => ?_⟩
        rw [List.cons_append, decodeTails, if_pos hb, htails]
      · cases h

/-- The first of the announced bytes stands for itself, or there are more of them. -/
theorem lead?_cases {b : Nat} {lead : Lead} (h : lead? b = some lead) :
    (b < 0x80 ∧ lead = ⟨b, 0, 0⟩) ∨ (0x80 ≤ b ∧ 0x80 ≤ lead.least) := by
  simp only [lead?] at h
  split at h
  · exact .inl ⟨‹_›, (Option.some.inj h).symm⟩
  · refine .inr ⟨by omega, ?_⟩
    split at h
    · cases h
    split at h
    · exact Option.some.inj h ▸ Nat.le_refl _
    split at h
    · exact Option.some.inj h ▸ (by decide : 0x80 ≤ 0x800)
    split at h
    · exact Option.some.inj h ▸ (by decide : 0x80 ≤ 0x10000)
    · cases h

theorem exists_encodes_of_decodeFirst {b : UInt8} {bytes : List UInt8} {c : Char}
    (h : (decodeFirst b bytes).1 = .char c) :
    ∃ front, bytes = front ++ (decodeFirst b bytes).2 ∧ Encodes (b :: front) c := by
  cases hlead : lead? b.toNat with
  | none => simp [decodeFirst, hlead] at h
  | some lead =>
    have hfirst : ∀ bytes, decodeFirst b bytes =
        decodeTails lead.least lead.bits lead.tails bytes := fun bytes => by
      rw [decodeFirst, hlead]
    obtain ⟨front, hsplit, hfront, hle, htails⟩ :=
      exists_of_decodeTails_eq_char (Prod.ext (hfirst bytes ▸ h) rfl)
    refine ⟨front, hfirst bytes ▸ hsplit, fun rest => ?_, ?_⟩
    · rw [List.cons_append, decode_cons, hfirst, htails]
    · rcases lead?_cases hlead with ⟨-, rfl⟩ | ⟨hb, hleast⟩
      · obtain ⟨hc, hnil⟩ := Prod.mk.inj (htails [])
        obtain rfl : front = [] := by simpa using hnil
        exact .inl ⟨b, rfl, (ofCodePoint_eq_char hc).2.symm⟩
      · exact .inr ⟨List.forall_mem_cons.2 ⟨hb, hfront⟩, hleast.trans hle⟩

@[simp] theorem decode?_nil : decode? [] = some [] := by simp [decode?]

theorem decode?_encodes_append {front rest : List UInt8} {c : Char} (h : Encodes front c) :
    decode? (front ++ rest) = (decode? rest).map (c :: ·) := by
  have hc : (Decoded.char c).char? = some c := rfl
  simp only [decode?, h.decode_append, List.all_cons, hc, Option.isSome_some, Bool.true_and,
    List.filterMap_cons]
  split <;> rfl

/-- A valid row of bytes is empty, or begins with a character that has its own bytes. -/
theorem decode?_cases {bytes : List UInt8} {cs : List Char} (h : decode? bytes = some cs) :
    (bytes = [] ∧ cs = []) ∨ ∃ front rest c cs', bytes = front ++ rest ∧ cs = c :: cs' ∧
      Encodes front c ∧ decode? rest = some cs' := by
  match bytes with
  | [] => exact .inl ⟨rfl, by simpa using h.symm⟩
  | b :: bytes =>
    cases hfirst : (decodeFirst b bytes).1 with
    | invalid | truncated => simp [decode?, decode_cons, hfirst, Decoded.char?] at h
    | char c =>
      obtain ⟨front, hsplit, hencodes⟩ := exists_encodes_of_decodeFirst hfirst
      have hbytes : b :: bytes = b :: front ++ (decodeFirst b bytes).2 := by
        rw [List.cons_append, ← hsplit]
      rw [hbytes, decode?_encodes_append hencodes] at h
      obtain ⟨cs', hrest, rfl⟩ := Option.map_eq_some_iff.1 h
      exact .inr ⟨_, _, c, cs', hbytes, rfl, hencodes, hrest⟩

theorem decode?_append {front : List UInt8} {cs : List Char} (h : decode? front = some cs)
    (rest : List UInt8) : decode? (front ++ rest) = (decode? rest).map (cs ++ ·) := by
  induction cs generalizing front with
  | nil =>
    obtain ⟨rfl, -⟩ | ⟨_, _, _, _, _, hcs, _⟩ := decode?_cases h
    · simp
    · cases hcs
  | cons c cs ih =>
    obtain ⟨-, hcs⟩ | ⟨front, middle, c', cs', rfl, hcs, hencodes, hrest⟩ := decode?_cases h
    · cases hcs
    · obtain ⟨rfl, rfl⟩ := List.cons.inj hcs
      rw [List.append_assoc, decode?_encodes_append hencodes, ih hrest, Option.map_map]
      rfl

theorem Encodes.decode? {front : List UInt8} {c : Char} (h : Encodes front c) :
    Text.decode? front = some [c] := by
  have hnil : Text.decode? (front ++ []) = some [c] := by
    rw [decode?_encodes_append h, decode?_nil]
    rfl
  rwa [List.append_nil] at hnil

/-- All that stands in a valid row of bytes are characters. -/
theorem decode_eq_of_decode? {bytes : List UInt8} {cs : List Char} (h : decode? bytes = some cs) :
    decode bytes = cs.map .char := by
  induction cs generalizing bytes with
  | nil =>
    obtain ⟨rfl, -⟩ | ⟨_, _, _, _, _, hcs, _⟩ := decode?_cases h
    · exact decode_nil
    · cases hcs
  | cons c cs ih =>
    obtain ⟨-, hcs⟩ | ⟨front, rest, c', cs', rfl, hcs, hencodes, hrest⟩ := decode?_cases h
    · cases hcs
    · obtain ⟨rfl, rfl⟩ := List.cons.inj hcs
      rw [hencodes.decode_append, ih hrest, List.map_cons]

/-- An ASCII character stands in a valid row of bytes where its byte does. -/
theorem mem_iff_of_decode? {bytes : List UInt8} {cs : List Char} (h : decode? bytes = some cs)
    {b : UInt8} {c : Char} (hbc : b.toNat = c.toNat) (hb : b.toNat < 0x80) :
    b ∈ bytes ↔ c ∈ cs := by
  induction cs generalizing bytes with
  | nil =>
    obtain ⟨rfl, -⟩ | ⟨_, _, _, _, _, hcs, _⟩ := decode?_cases h
    · simp
    · cases hcs
  | cons d cs ih =>
    obtain ⟨-, hcs⟩ | ⟨front, rest, d', cs', rfl, hcs, hencodes, hrest⟩ := decode?_cases h
    · cases hcs
    obtain ⟨rfl, rfl⟩ := List.cons.inj hcs
    have hfront : b ∈ front ↔ c = d := by
      rcases hencodes.ascii_or with ⟨b', rfl, hb'⟩ | ⟨hlarge, hd⟩
      · rw [List.mem_singleton, ← UInt8.toNat_inj, hb', hbc, Char.toNat_inj]
      · refine iff_of_false (fun hmem => ?_) ?_
        · have := hlarge b hmem
          omega
        · rintro rfl
          omega
    rw [List.mem_append, List.mem_cons, hfront, ih hrest]

end Characters

section Lines

/-- A text of lines, each of which is complete. -/
def unlines (ls : List (List Char)) : List Char := ls.flatMap fun l => l ++ ['\n']

/-- Whether the last line of a text is complete, too. -/
def IsWhole (cs : List Char) : Prop := cs = [] ∨ cs.getLast? = some '\n'

instance (cs : List Char) : Decidable (IsWhole cs) :=
  inferInstanceAs (Decidable (cs = [] ∨ cs.getLast? = some '\n'))

theorem IsWhole.append {front back : List Char} (hfront : IsWhole front) (hback : IsWhole back) :
    IsWhole (front ++ back) := by
  rcases hback with rfl | hback
  · rwa [List.append_nil]
  · exact .inr (by rw [List.getLast?_append, hback, Option.some_or])

/-- A text with its last line completed. -/
def ended (cs : List Char) : List Char := if IsWhole cs then cs else cs ++ ['\n']

theorem ended_of_isWhole {cs : List Char} (h : IsWhole cs) : ended cs = cs := if_pos h

theorem ended_of_not_isWhole {cs : List Char} (h : ¬IsWhole cs) : ended cs = cs ++ ['\n'] :=
  if_neg h

theorem ended_eq_or (cs : List Char) : ended cs = cs ∨ ended cs = cs ++ ['\n'] := by
  rw [ended]
  split
  · exact .inl rfl
  · exact .inr rfl

theorem ended_of_not_mem {cs : List Char} (hne : cs ≠ []) (hcs : '\n' ∉ cs) :
    ended cs = cs ++ ['\n'] := by
  refine ended_of_not_isWhole fun h => ?_
  rcases h with rfl | h
  · exact hne rfl
  · exact hcs (List.mem_of_getLast? h)

theorem ended_append_cons (front cs : List Char) :
    ended (front ++ '\n' :: cs) = front ++ '\n' :: ended cs := by
  have hiff : IsWhole (front ++ '\n' :: cs) ↔ IsWhole cs := by
    rcases List.eq_nil_or_concat cs with rfl | ⟨cs, c, rfl⟩
    · simp [IsWhole]
    · have hsplit : front ++ '\n' :: (cs ++ [c]) = front ++ '\n' :: cs ++ [c] := by simp
      rw [List.concat_eq_append, IsWhole, IsWhole, hsplit, List.getLast?_concat,
        List.getLast?_concat]
      simp
  by_cases h : IsWhole cs
  · rw [ended_of_isWhole h, ended_of_isWhole (hiff.2 h)]
  · rw [ended_of_not_isWhole h, ended_of_not_isWhole (hiff.not.2 h), List.append_assoc,
      List.cons_append]

theorem linesFrom_append {front : List UInt8} (h : 10 ∉ front) (line rest : List UInt8) :
    linesFrom line (front ++ rest) = linesFrom (front.reverse ++ line) rest := by
  induction front generalizing line with
  | nil => rfl
  | cons b front ih =>
    obtain ⟨hb, hfront⟩ : 10 ≠ b ∧ 10 ∉ front := by simpa using h
    rw [List.cons_append, linesFrom, if_neg (Ne.symm hb), ih hfront]
    simp

theorem lineContent_reverse {line : List UInt8} (h : 10 ∉ line) :
    lineContent line.reverse = line.reverse := by
  rw [lineContent, List.reverse_reverse]
  split
  · simp at h
  · simp at h
  · rfl

theorem lineContent_reverse_cons {line : List UInt8} (h : line.head? ≠ some 13) :
    lineContent (10 :: line).reverse = line.reverse := by
  rw [lineContent, List.reverse_reverse]
  split
  · next heq =>
    obtain ⟨-, rfl⟩ := List.cons.inj heq
    exact absurd rfl h
  · next heq => exact (List.cons.inj heq).2 ▸ rfl
  · next hne => exact absurd rfl (hne line)

/-- What is read of a line ends in a carriage return if its bytes do. -/
theorem Encodes.getLast?_append {front line : List UInt8} {pre : List Char} {c : Char}
    (h : Encodes front c) (hhead : (front.reverse ++ line).head? = some 13) :
    (pre ++ [c]).getLast? = some '\r' := by
  rcases h.ascii_or with ⟨b, rfl, hb⟩ | ⟨hfront, -⟩
  · obtain rfl : b = 13 := by simpa using hhead
    have hc : c = '\r' := Char.ext (UInt32.toNat_inj.1 hb.symm)
    simp [hc]
  · match hrev : front.reverse with
    | [] =>
      have hnil := h.decode_append []
      rw [List.reverse_eq_nil_iff.1 hrev] at hnil
      simp at hnil
    | b :: bytes =>
      rw [hrev] at hhead
      obtain rfl : b = 13 := by simpa using hhead
      have hmem : (13 : UInt8) ∈ front := List.mem_reverse.1 (hrev ▸ List.mem_cons_self)
      exact absurd (hfront 13 hmem) (by decide)

/-- The lines of valid bytes, of which `line` is read so far as `pre`, are the lines of the text, of
which the last one may lack its newline. -/
theorem exists_linesFrom {bytes line : List UInt8} {cs pre : List Char}
    (hcs : decode? bytes = some cs) (hpre : decode? line.reverse = some pre) (hline : 10 ∉ line)
    (hreturn : line.head? = some 13 → pre.getLast? = some '\r')
    (hnewline : '\n' ∉ pre) (hbreaks : ¬['\r', '\n'] <:+: pre ++ cs) :
    ∃ ls, (linesFrom line bytes).map (decode? ∘ lineContent) = ls.map some ∧
      ended (pre ++ cs) = unlines ls := by
  induction cs generalizing bytes line pre with
  | nil =>
    obtain ⟨rfl, -⟩ | ⟨_, _, _, _, _, h, _⟩ := decode?_cases hcs
    · by_cases hempty : line = []
      · subst hempty
        obtain rfl : pre = [] := by simpa using hpre.symm
        exact ⟨[], rfl, rfl⟩
      · have hne : pre ≠ [] := by
          rintro rfl
          obtain ⟨h, -⟩ | ⟨_, _, _, _, _, h, _⟩ := decode?_cases hpre
          · exact hempty (List.reverse_eq_nil_iff.1 h)
          · cases h
        refine ⟨[pre], ?_, ?_⟩
        · simp [linesFrom, hempty, lineContent_reverse hline, hpre]
        · rw [List.append_nil, ended_of_not_mem hne hnewline]
          simp [unlines]
    · cases h
  | cons c cs ih =>
    obtain ⟨-, h⟩ | ⟨front, rest, c', cs', rfl, h, hencodes, hrest⟩ := decode?_cases hcs
    · cases h
    obtain ⟨rfl, rfl⟩ := List.cons.inj h
    by_cases hc : c = '\n'
    · -- the line ends here, and no carriage return stands before its newline
      subst hc
      rcases hencodes.ascii_or with ⟨b, rfl, hb⟩ | ⟨-, hlarge⟩
      swap
      · exact absurd hlarge (by decide)
      obtain rfl : b = 10 := UInt8.toNat_inj.1 hb
      have hhead : line.head? ≠ some 13 := by
        intro h13
        obtain ⟨pre', rfl⟩ := List.getLast?_eq_some_iff.1 (hreturn h13)
        exact hbreaks ⟨pre', cs, by simp⟩
      have hlater : ¬['\r', '\n'] <:+: [] ++ cs := by
        rintro ⟨x, y, hxy⟩
        rw [List.nil_append] at hxy
        exact hbreaks ⟨pre ++ '\n' :: x, y, by simp [← hxy]⟩
      have hnil : decode? ([] : List UInt8).reverse = some [] := decode?_nil
      obtain ⟨ls, hls, hcut⟩ := ih hrest hnil (by simp) (by simp) (by simp) hlater
      refine ⟨pre :: ls, ?_, ?_⟩
      · rw [List.singleton_append, linesFrom, if_pos rfl, List.map_cons, hls]
        simp only [Function.comp_apply, lineContent_reverse_cons hhead, hpre, List.map_cons]
      · rw [List.nil_append] at hcut
        rw [ended_append_cons, hcut]
        simp [unlines]
    · have hfront : 10 ∉ front := by
        intro hmem
        rcases hencodes.ascii_or with ⟨b, rfl, hb⟩ | ⟨hlarge, -⟩
        · obtain rfl : 10 = b := by simpa using hmem
          exact hc (Char.ext (UInt32.toNat_inj.1 hb.symm))
        · exact absurd (hlarge 10 hmem) (by decide)
      have hpre' : decode? (front.reverse ++ line).reverse = some (pre ++ [c]) := by
        rw [List.reverse_append, List.reverse_reverse, decode?_append hpre, hencodes.decode?]
        rfl
      have hline' : 10 ∉ front.reverse ++ line := by simp [hfront, hline]
      have hnewline' : '\n' ∉ pre ++ [c] := by simp [hnewline, Ne.symm hc]
      have hbreaks' : ¬['\r', '\n'] <:+: pre ++ [c] ++ cs := by simpa using hbreaks
      obtain ⟨ls, hls, hcut⟩ :=
        ih hrest hpre' hline' hencodes.getLast?_append hnewline' hbreaks'
      refine ⟨ls, ?_, by simpa using hcut⟩
      rw [linesFrom_append hfront, hls]

/-- A line ends with the only newline in it, if any. A carriage return before that is no part of
its content. -/
theorem cases_of_mem_linesFrom {line bytes l : List UInt8} (hline : 10 ∉ line)
    (hl : l ∈ linesFrom line bytes) : (10 ∉ l ∧ lineContent l = l) ∨
      ∃ content, 10 ∉ content ∧ l = content ++ [10] ∧ (13 ∉ l → lineContent l = content) := by
  induction bytes generalizing line with
  | nil =>
    rw [linesFrom] at hl
    split at hl
    · simp at hl
    · obtain rfl := List.mem_singleton.1 hl
      exact .inl ⟨by simpa using hline, lineContent_reverse hline⟩
  | cons b bytes ih =>
    rw [linesFrom] at hl
    split at hl
    · next hb =>
      subst hb
      rcases List.mem_cons.1 hl with rfl | hl
      · refine .inr ⟨line.reverse, by simpa using hline, by simp, fun hreturn => ?_⟩
        refine lineContent_reverse_cons fun hhead => hreturn ?_
        simpa using List.mem_of_mem_head? hhead
      · exact ih (by simp) hl
    · next hb => exact ih (by simp [hline, Ne.symm hb]) hl

theorem subset_of_mem_lines {bytes line : List UInt8} (h : line ∈ lines bytes) :
    line ⊆ bytes := by
  intro b hb
  rw [← flatten_lines bytes]
  exact List.mem_flatten.2 ⟨line, h, hb⟩

/-- Read line by line, valid bytes are the lines of their text. -/
theorem exists_lines {bytes : List UInt8} {cs : List Char} (hcs : decode? bytes = some cs)
    (hbreaks : ¬['\r', '\n'] <:+: cs) :
    ∃ ls, ((lines bytes).map lineContent).map decode? = ls.map some ∧ ended cs = unlines ls := by
  rw [List.map_map]
  have hnil : decode? ([] : List UInt8).reverse = some [] := decode?_nil
  exact exists_linesFrom hcs hnil (by simp) (by simp) (by simp) hbreaks

end Lines

end FrameLisp.Text
