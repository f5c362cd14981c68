import FrameLisp.Datum.Readable
import FrameLisp.Proofs.Source.Derivation
import FrameLisp.Proofs.Source.NumberText
import FrameLisp.Proofs.Source.Spelled

/-!
# Printed data are read back

The text of a readable datum spells tokens from which the grammar derives the datum again. A chain
is printed and derived in the same steps: each step takes one head, until the chain is closed or
its end follows a dot.
-/
namespace FrameLisp

namespace Datum

/-- The text of the rest of a chain after its first head. -/
def tailText (d : Datum) : String := d.writeTail ""

/-- Text is written behind what was written before. -/
theorem write_eq_append (d : Datum) :
    (∀ out, d.write out = out ++ d.text) ∧ ∀ out, d.writeTail out = out ++ d.tailText := by
  induction d using Datum.inductionOnParts with
  | pair mark head tail hhead htail =>
    refine ⟨fun out => ?_, fun out => ?_⟩
    · rw [text, write, write, hhead.1, hhead.1 ("".push '('), htail.2, htail.2 (_ ++ _)]
      simp [← String.toList_inj]
    · rw [tailText, writeTail, writeTail, hhead.1, hhead.1 ("".push ' '), htail.2, htail.2 (_ ++ _)]
      simp [← String.toList_inj]
  | quoted d hd =>
    refine ⟨fun out => ?_, fun out => ?_⟩
    · rw [text, write, write, hd.1, hd.1 ("".push '\'')]
      simp [← String.toList_inj]
    · rw [tailText, writeTail, writeTail, hd.1, hd.1 ("" ++ " . '")]
      simp [← String.toList_inj]
  | _ =>
    refine ⟨fun out => ?_, fun out => ?_⟩
    · simp [text, write]
    · simp [tailText, writeTail, ← String.toList_inj]

theorem toList_text_pair (mark : Option Nat) (head tail : Datum) :
    (pair mark head tail).text.toList =
      '(' :: (head.text.toList ++ tail.tailText.toList) := by
  rw [text, write, head.write_eq_append.1, tail.write_eq_append.2]
  simp

theorem toList_tailText_pair (mark : Option Nat) (head tail : Datum) :
    (pair mark head tail).tailText.toList =
      [' '] ++ (head.text.toList ++ tail.tailText.toList) := by
  rw [tailText, writeTail, head.write_eq_append.1, tail.write_eq_append.2]
  simp

end Datum

namespace Source

open Datum

/-- The tokens of the rest of a list after its first datum. -/
inductive DerivesTail : List Token → Datum → Prop
  | close : DerivesTail [.rightParen] .nil
  | dot {tokens tail} : Derives tokens tail → DerivesTail (.dot :: (tokens ++ [.rightParen])) tail
  | cons {tokens head tokens' tail} : Derives tokens head → DerivesTail tokens' tail →
      DerivesTail (tokens ++ tokens') (.pair none head tail)

theorem DerivesTail.derives {tokens front : List Token} {tail : Datum} {items : List Datum}
    (h : DerivesTail tokens tail) (hfront : DerivesAll front items) (hne : items ≠ []) :
    Derives (.leftParen :: (front ++ tokens)) (.ofChain items tail) := by
  induction h generalizing front items with
  | close => exact .list hfront
  | dot htail => simpa using Derives.dotted hfront hne htail
  | @cons tokens head tokens' tail hhead _ ih =>
    have h := ih (hfront.snoc hhead) (by simp)
    simpa [Datum.ofChain] using h

theorem Derives.pair {tokens tokens' : List Token} {head tail : Datum} (hd : Derives tokens head)
    (ht : DerivesTail tokens' tail) :
    Derives (.leftParen :: (tokens ++ tokens')) (.pair none head tail) :=
  ht.derives (.single hd) (by simp)

/-- A text of whose tokens the grammar derives a datum. -/
def SpellsDatum (cs : List Char) (d : Datum) : Prop :=
  ∃ tokens, Derives tokens d ∧ Spells cs tokens

/-- A text of whose tokens the grammar derives the rest of a list. -/
def SpellsTail (cs : List Char) (d : Datum) : Prop :=
  ∃ tokens, DerivesTail tokens d ∧ Spells cs tokens

theorem SpellsAtom.spellsDatum {cs : List Char} {d : Datum} (h : SpellsAtom cs d) :
    SpellsDatum cs d := by
  obtain ⟨token, htoken, hatom⟩ := h.exists_token
  exact ⟨[token], .atom hatom, spells_of_classify h.ne_nil h.undelimited htoken⟩

theorem isBlank_space : ∀ c ∈ [' '], Text.isBlank c = true := by
  have hspace : Text.isBlank ' ' = true := rfl
  simpa using hspace

theorem breaks_tailText (d : Datum) : Breaks d.tailText.toList := by
  cases d with
  | pair mark head tail => exact toList_tailText_pair mark head tail ▸ breaks_cons rfl _
  | nil => exact breaks_cons rfl []
  | quoted d =>
    rw [tailText, writeTail, d.write_eq_append.1]
    simpa using breaks_cons rfl _
  | _ =>
    rw [tailText, writeTail]
    · simpa using breaks_cons rfl _
    all_goals simp

/-- The text of an atom stands behind a dot where the atom ends a chain. -/
theorem spells_of_atomText {d : Datum} (htext : d.text = "" ++ d.atomText)
    (htail : d.tailText = ("" ++ " . " ++ d.atomText).push ')')
    (h : SpellsDatum d.atomText.toList d) :
    SpellsDatum d.text.toList d ∧ SpellsTail d.tailText.toList d := by
  obtain ⟨tokens, hd, hs⟩ := h
  rw [htext, htail, String.empty_append]
  refine ⟨⟨tokens, hd, hs⟩, _, .dot hd, ?_⟩
  have hend : Spells (d.atomText.toList ++ [')']) (tokens ++ [.rightParen]) :=
    hs.append spells_rightParen (breaks_cons rfl [])
  have hdot := spells_dot.append (hend.blank isBlank_space) (breaks_cons rfl _)
  simpa using hdot.blank isBlank_space

theorem spells_nil_text :
    SpellsDatum Datum.nil.text.toList .nil ∧ SpellsTail Datum.nil.tailText.toList .nil :=
  ⟨⟨_, .list .nil, spells_rightParen.leftParen⟩, _, .close, spells_rightParen⟩

theorem spellsDatum_pair {mark : Option Nat} {head tail head' tail' : Datum}
    (hhead : SpellsDatum head.text.toList head') (htail : SpellsTail tail.tailText.toList tail') :
    SpellsDatum (Datum.pair mark head tail).text.toList (.pair none head' tail') := by
  obtain ⟨tokens, hd, hs⟩ := hhead
  obtain ⟨tokens', hd', hs'⟩ := htail
  rw [toList_text_pair]
  exact ⟨_, hd.pair hd', (hs.append hs' (breaks_tailText tail)).leftParen⟩

theorem spellsTail_pair {mark : Option Nat} {head tail head' tail' : Datum}
    (hhead : SpellsDatum head.text.toList head') (htail : SpellsTail tail.tailText.toList tail') :
    SpellsTail (Datum.pair mark head tail).tailText.toList (.pair none head' tail') := by
  obtain ⟨tokens, hd, hs⟩ := hhead
  obtain ⟨tokens', hd', hs'⟩ := htail
  rw [toList_tailText_pair]
  exact ⟨_, .cons hd hd', (hs.append hs' (breaks_tailText tail)).blank isBlank_space⟩

/-- Readable data are spelled by their texts, also as the rests of chains. -/
theorem spells_of_readable {d : Datum} (h : d.Readable) :
    SpellsDatum d.text.toList d.unmarked ∧ SpellsTail d.tailText.toList d.unmarked := by
  induction h with
  | exact q => exact spells_of_atomText rfl rfl (spellsAtom_ratText q).spellsDatum
  | finite x => exact spells_of_atomText rfl rfl (spellsAtom_float x).spellsDatum
  | string s => exact spells_of_atomText rfl rfl ⟨_, .atom rfl, spells_quote s⟩
  | boolean b => exact spells_of_atomText rfl rfl (spellsAtom_boolean b).spellsDatum
  | nil => exact spells_nil_text
  | symbol hname => exact spells_of_atomText rfl rfl hname.spellsAtom.spellsDatum
  | pair _ _ hhead htail =>
    exact ⟨spellsDatum_pair hhead.1 htail.2, spellsTail_pair hhead.1 htail.2⟩

section Texts

/-- The texts of some data, with white space between any two that follow each other. -/
inductive Joined : List Datum → List Char → Prop
  | nil : Joined [] []
  | single (d : Datum) : Joined [d] d.text.toList
  | cons {d ds gap cs} : ds ≠ [] → gap ≠ [] → (∀ c ∈ gap, Text.isBlank c = true) → Joined ds cs →
      Joined (d :: ds) (d.text.toList ++ (gap ++ cs))

theorem Joined.spells {ds : List Datum} {cs : List Char} (h : Joined ds cs)
    (hds : ∀ d ∈ ds, d.Readable) :
    ∃ tokens, DerivesAll tokens (ds.map Datum.unmarked) ∧ Spells cs tokens := by
  induction h with
  | nil => exact ⟨[], .nil, spells_nil⟩
  | single d =>
    obtain ⟨⟨tokens, hd, hs⟩, -⟩ := spells_of_readable (hds d (by simp))
    exact ⟨tokens, .single hd, hs⟩
  | @cons d ds gap cs _ hne hgap _ ih =>
    obtain ⟨hfirst, hrest⟩ := List.forall_mem_cons.1 hds
    obtain ⟨⟨tokens, hd, hs⟩, -⟩ := spells_of_readable hfirst
    obtain ⟨tokens', hd', hs'⟩ := ih hrest
    obtain ⟨c, gap, rfl⟩ := List.exists_cons_of_ne_nil hne
    have hbreaks : Breaks (c :: gap ++ cs) :=
      breaks_cons (isDelimiter_of_isBlank (hgap c List.mem_cons_self)) _
    exact ⟨_, .cons hd hd', hs.append (hs'.blank hgap) hbreaks⟩

/-- A text is the program that the grammar derives from its tokens. -/
theorem Spells.exists_ofChars {cs : List Char} {tokens : List Token} {ds : List Datum}
    (h : Spells cs tokens) (hds : DerivesAll tokens ds) :
    ∃ p, Program.ofChars cs = .ok p ∧ p.data = ds := by
  obtain ⟨lexemes, offset, htokens, hitems⟩ := h 0 [] (by simp [Breaks])
  obtain ⟨r, hread, hplace, hdata⟩ := hds.exists_readAll_top htokens Reading.start
  have hend : (Cursor.mk offset []).items = [.ok ⟨.endOfInput, .point offset⟩] :=
    Cursor.items_of_isEnd rfl
  have hstart : Reading.start.read (lexemes.map .ok) = .ok r := hread
  rw [List.append_nil, hend] at hitems
  refine ⟨r.toProgram, ?_, hdata⟩
  rw [Program.ofChars, Program.ofCursor_eq, hitems, Reading.read_append_of_ok hstart,
    Reading.read_cons, Reading.step_end, Reading.ending_of_top hplace]
  rfl

/-- The texts of readable data are read as these data. -/
theorem Joined.exists_ofString {ds : List Datum} {source : String}
    (h : Joined ds source.toList) (hds : ∀ d ∈ ds, d.Readable) :
    ∃ p, Program.ofString source = .ok p ∧ p.data = ds.map Datum.unmarked := by
  obtain ⟨tokens, hderives, hspells⟩ := h.spells hds
  exact hspells.exists_ofChars hderives

end Texts

end Source

end FrameLisp
