import FrameLisp.Datum.Legible
import FrameLisp.Proofs.Source.Readable

/-!
# Legible data are read and printed

What is read is legible. A legible datum without procedures and with finite numbers is readable: its
text is the text of one form, which equals it.
-/
namespace FrameLisp

open Numeric Source

namespace Source

section Reading

theorem isName_ok : IsName "ok".toList := isName_of_lower (by simp) (by decide)

theorem built_legible : Built Token.Proper Datum.Legible where
  atom := by
    intro token d ht hd
    cases token with
    | string s => exact Option.some.inj hd ▸ .string s
    | integer n => exact Option.some.inj hd ▸ .number _
    | rational q => exact Option.some.inj hd ▸ .number _
    | float x => exact Option.some.inj hd ▸ .number _
    | boolean b => exact Option.some.inj hd ▸ .boolean b
    | symbol name => exact Option.some.inj hd ▸ .symbol ht
    | _ => cases hd
  quote := .symbol isName_quote
  nil := .nil
  pair hhead htail := .pair hhead htail

theorem legible_of_ofString {source : String} {program : Program}
    (hp : Program.ofString source = .ok program) : ∀ d ∈ program.data, d.Legible :=
  built_legible.ofString proper_of_mem_items hp

theorem legible_of_ofStream {bytes : List UInt8} {program : Program}
    (hp : Program.ofStream bytes = .ok program) : ∀ d ∈ program.data, d.Legible :=
  built_legible.ofStream proper_of_mem_items hp

theorem legible_of_ofLines {pending : List Char} {lines : List (List UInt8)} {data : List Datum}
    (hc : .forms data ∈ Chunk.ofLines pending lines) : ∀ d ∈ data, d.Legible :=
  built_legible.ofLines proper_of_mem_items hc

end Reading

end Source

@[simp] theorem Numeric.Binary64.compareRat_self (a : Rat) : compareRat a a = .eq := by
  simp [compareRat]

namespace Datum

section Printing

variable {d : Datum}

theorem Legible.readable (hd : d.Legible) (hplain : d.Plain) (hbounded : d.Bounded)
    (hnan : ¬d.HasNaN) : d.Readable := by
  induction d with
  | number n =>
    cases n with
    | exact q => exact .exact q
    | inexact x =>
      cases x with
      | nan => exact absurd (Part.refl _) hnan
      | infinite negative => exact absurd hbounded id
      | finite x => exact .finite x
  | string s => exact .string s
  | boolean b => exact .boolean b
  | symbol name =>
    cases hd with
    | symbol hname => exact .symbol hname
  | pair mark head tail ihh iht =>
    cases hd with
    | pair hhead htail =>
      have hheadNan : ¬head.HasNaN := fun h => hnan (Part.head h)
      have htailNan : ¬tail.HasNaN := fun h => hnan (Part.tail h)
      exact .pair (ihh hhead hplain.1 hbounded.1 hheadNan) (iht htail hplain.2 hbounded.2 htailNan)
  | nil => exact .nil
  | quoted d => cases hd
  | closure mark l frame => exact hplain.1.elim
  | primitive p => exact False.elim hplain

theorem Readable.same_unmarked (hd : d.Readable) : d.same d.unmarked = true := by
  induction hd with
  | exact q => simp [unmarked, same, Number.sameValue, Number.compare?]
  | finite x => simp [unmarked, same, Number.sameValue, Number.compare?, Binary64.compare]
  | pair _ _ hhead htail => simp [unmarked, same, hhead, htail]
  | _ => simp [unmarked, same]

/-- The text of a readable datum is that of one form, which equals it. -/
theorem Readable.exists_ofString (hd : d.Readable) : ∃ p, Program.ofString d.text = .ok p ∧
    p.data = [d.unmarked] ∧ d.same d.unmarked = true := by
  have hds : ∀ x ∈ [d], x.Readable := by simpa using hd
  obtain ⟨p, hp, hdata⟩ := (Joined.single d).exists_ofString hds
  exact ⟨p, hp, hdata, hd.same_unmarked⟩

end Printing

end Datum

end FrameLisp
