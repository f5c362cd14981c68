import FrameLisp.Proofs.Code.Language
import FrameLisp.Proofs.Source.Readable

/-!
# Parameter lists as they are written

Parameters keep only the names of the list that they are read from, and are written by rules of
their own. Yet they are written as the list is, be it proper, dotted or a bare name, so that the
text of a procedure shows its parameters as they were given. From this text they are read again
exactly if their names differ and can be read.
-/
namespace FrameLisp

open Source

namespace Datum

section Chains

/-- The rest of a chain is written as its heads, with a space before each, and its end. -/
theorem toList_tailText (d : Datum) : d.tailText.toList =
    d.heads.flatMap (fun head => ' ' :: head.text.toList) ++ d.chainEnd.tailText.toList := by
  induction d with
  | pair mark head tail _ ih =>
    rw [toList_tailText_pair, heads_pair, chainEnd, List.flatMap_cons, ih]
    simp
  | _ => rfl

theorem heads_ofChain (items : List Datum) (tail : Datum) :
    (ofChain items tail).heads = items ++ tail.heads := by
  induction items with
  | nil => rfl
  | cons item items ih => rw [ofChain, List.foldr_cons, heads_pair, ← ofChain, ih, List.cons_append]

theorem unmarked_ofChain (items : List Datum) (tail : Datum) :
    (ofChain items tail).unmarked = ofChain (items.map unmarked) tail.unmarked := by
  induction items with
  | nil => rfl
  | cons item items ih => rw [ofChain, List.foldr_cons, unmarked, ← ofChain, ih]; rfl

theorem readable_ofChain {items : List Datum} {tail : Datum} (hitems : ∀ d ∈ items, d.Readable)
    (htail : tail.Readable) : (ofChain items tail).Readable := by
  induction items with
  | nil => exact htail
  | cons item items ih =>
    obtain ⟨hitem, hrest⟩ := List.forall_mem_cons.1 hitems
    exact .pair hitem (ih hrest)

theorem bounded_of_heads {d : Datum} (hheads : ∀ head ∈ d.heads, head.Bounded)
    (hend : d.chainEnd.Bounded) : d.Bounded := by
  induction d with
  | pair mark head tail _ ih =>
    rw [heads_pair] at hheads
    obtain ⟨hhead, htail⟩ := List.forall_mem_cons.1 hheads
    exact ⟨hhead, ih htail hend⟩
  | _ => exact hend

theorem Readable.chain {d : Datum} (h : d.Readable) :
    (∀ head ∈ d.heads, head.Readable) ∧ d.chainEnd.Readable := by
  induction d with
  | pair mark head tail _ ih =>
    cases h with
    | pair hhead htail =>
      rw [heads_pair, List.forall_mem_cons]
      exact ⟨⟨hhead, (ih htail).1⟩, (ih htail).2⟩
  | _ => exact ⟨by simp [heads, headsFrom], h⟩

end Chains

end Datum

namespace Parameters

variable {d : Datum} {p : Parameters}

/-- What the list of the parameters ends in. -/
def chainEnd (p : Parameters) : Datum := p.rest.elim .nil .symbol

/-- The parameters as a list. -/
def toDatum (p : Parameters) : Datum := .ofChain (p.required.map .symbol) p.chainEnd

theorem heads_chainEnd (p : Parameters) : p.chainEnd.heads = [] := by
  rw [chainEnd]
  cases p.rest <;> rfl

/-- Parameters are read from the chains of their names. -/
theorem ofDatum_eq_ok_iff_chain : ofDatum d = .ok p ↔
    (d.heads = p.required.map .symbol ∧ d.chainEnd = p.chainEnd) ∧ p.names.Nodup := by
  rw [ofDatum_eq_ok_iff, collect_eq_ok_iff]
  obtain ⟨required, rest⟩ := p
  refine and_congr_left fun _ => ?_
  cases rest <;> simp [chainEnd, eq_comm]

section Writing

/-- Names with a space between any two that follow each other. -/
theorem toList_intercalate_cons (name : String) (names : List String) :
    (" ".intercalate (name :: names)).toList =
      name.toList ++ names.flatMap fun name => ' ' :: name.toList := by
  induction names generalizing name with
  | nil => simp
  | cons next names ih =>
    rw [String.intercalate_cons_cons, String.toList_append, ih]
    simp

theorem toList_text_cons (name : String) (names : List String) (rest : Option String) :
    (mk (name :: names) rest).text.toList = '(' :: (name.toList ++
      ((names.flatMap fun name => ' ' :: name.toList) ++
        (mk (name :: names) rest).chainEnd.tailText.toList)) := by
  cases rest <;> simp only [text, String.toList_append, toList_intercalate_cons] <;>
    simp [chainEnd, Datum.tailText, Datum.writeTail, Datum.atomText]

/-- A chain of the names of some parameters has their text. -/
theorem text_eq_of_chain (hheads : d.heads = p.required.map .symbol)
    (hend : d.chainEnd = p.chainEnd) : p.text = d.text := by
  obtain ⟨required, rest⟩ := p
  cases required with
  | nil =>
    have hd : d = (mk [] rest).chainEnd := by
      cases d with
      | pair mark head tail => simp at hheads
      | _ => exact hend
    rw [hd]
    cases rest <;> rfl
  | cons name names =>
    cases d with
    | pair mark head tail =>
      rw [Datum.heads_pair] at hheads
      obtain ⟨rfl, htail⟩ := List.cons.inj hheads
      rw [← String.toList_inj, Datum.toList_text_pair, Datum.toList_tailText, htail,
        List.flatMap_map, toList_text_cons, ← hend]
      rfl
    | _ => cases hheads

end Writing

section Reading

theorem ofDatum_toDatum (h : p.names.Nodup) : ofDatum p.toDatum = .ok p := by
  refine ofDatum_eq_ok_iff_chain.2 ⟨⟨?_, ?_⟩, h⟩
  · rw [toDatum, Datum.heads_ofChain, heads_chainEnd, List.append_nil]
  · rw [toDatum, Datum.chainEnd_ofChain, chainEnd]
    cases p.rest <;> rfl

theorem unmarked_toDatum (p : Parameters) : p.toDatum.unmarked = p.toDatum := by
  rw [toDatum, Datum.unmarked_ofChain, List.map_map, chainEnd]
  cases p.rest <;> rfl

theorem readable_toDatum (h : ∀ name ∈ p.names, (Datum.symbol name).Readable) :
    p.toDatum.Readable := by
  rw [names, List.forall_mem_append] at h
  refine Datum.readable_ofChain (List.forall_mem_map.2 h.1) ?_
  rw [chainEnd]
  cases hrest : p.rest with
  | none => exact .nil
  | some rest => exact h.2 rest (by simp [hrest])

/-- The names of parameters that are read from a text are readable. -/
theorem readable_names_of_ofString {source : String} {program : Program}
    (hprogram : Program.ofString source = .ok program) (hd : d ∈ program.data)
    (h : ofDatum d = .ok p) : ∀ name ∈ p.names, (Datum.symbol name).Readable := by
  obtain ⟨⟨hheads, hend⟩, -⟩ := ofDatum_eq_ok_iff_chain.1 h
  have hbounded : d.Bounded := by
    refine Datum.bounded_of_heads ?_ ?_
    · rw [hheads]
      exact List.forall_mem_map.2 fun _ _ => trivial
    · rw [hend, chainEnd]
      cases p.rest <;> trivial
  obtain ⟨hread, hlast⟩ := (Source.readable_of_ofString hprogram d hd hbounded).chain
  rw [hheads, List.forall_mem_map] at hread
  rw [hend, chainEnd] at hlast
  rw [names, List.forall_mem_append]
  refine ⟨hread, fun name hname => ?_⟩
  rwa [Option.mem_toList.1 hname] at hlast

end Reading

/-- Whether the text of parameters is that of a single form, from which they are read. -/
def ReadsBack (p : Parameters) : Prop :=
  ∃ program d, Program.ofString p.text = .ok program ∧ program.data = [d] ∧ ofDatum d = .ok p

/-- Parameters are written as the list that they were read from, and are read back from their text
exactly if their names differ and can be read. -/
theorem text_roundtrip :
    (∀ d p, ofDatum d = .ok p → p.text = d.text) ∧
    ∀ p : Parameters, p.ReadsBack ↔
      p.names.Nodup ∧ ∀ name ∈ p.names, (Datum.symbol name).Readable := by
  have hwritten : ∀ d p, ofDatum d = .ok p → p.text = d.text := fun d p h => by
    obtain ⟨⟨hheads, hend⟩, -⟩ := ofDatum_eq_ok_iff_chain.1 h
    exact text_eq_of_chain hheads hend
  refine ⟨hwritten, fun p => ⟨?_, ?_⟩⟩
  · rintro ⟨program, d, hprogram, hdata, h⟩
    exact ⟨(ofDatum_eq_ok_iff.1 h).2, readable_names_of_ofString hprogram (by simp [hdata]) h⟩
  · rintro ⟨hnodup, hnames⟩
    have hdatum := ofDatum_toDatum hnodup
    have hjoined : Joined [p.toDatum] p.text.toList := hwritten _ _ hdatum ▸ .single _
    obtain ⟨program, hprogram, hdata⟩ := hjoined.exists_ofString
      (List.forall_mem_singleton.2 (readable_toDatum hnames))
    refine ⟨program, p.toDatum, hprogram, ?_, hdatum⟩
    rw [hdata, List.map_singleton, unmarked_toDatum]

/-- Two names and a dotted one, in pairs of which a program made the first. -/
def sampleSignature : Datum :=
  .pair (some 0) (.symbol "a") (.pair none (.symbol "b") (.symbol "rest"))

theorem text_roundtrip_dotted :
    let p : Parameters := ⟨["a", "b"], some "rest"⟩
    (ofDatum sampleSignature = .ok p ∧ p.names.Nodup ∧
      ∀ name ∈ p.names, (Datum.symbol name).Readable) ∧
    p.text = sampleSignature.text ∧ p.ReadsBack := by
  have hdatum : ofDatum sampleSignature = .ok ⟨["a", "b"], some "rest"⟩ := by rfl
  have hnames : ∀ name ∈ ["a", "b", "rest"], (Datum.symbol name).Readable := by
    simp only [List.forall_mem_cons]
    exact ⟨.symbol (isName_of_lower (by decide) (by decide)),
      .symbol (isName_of_lower (by decide) (by decide)),
      .symbol (isName_of_lower (by decide) (by decide)), by simp⟩
  exact ⟨⟨hdatum, by decide, hnames⟩, text_roundtrip.1 _ _ hdatum,
    (text_roundtrip.2 _).2 ⟨by decide, hnames⟩⟩

example : (Parameters.mk ["a", "b"] (some "rest")).text = "(a b . rest)" := by decide

end Parameters

end FrameLisp
