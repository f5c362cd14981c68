import FrameLisp.Code.WellFormed
import FrameLisp.Proofs.Code.Compiling

/-!
# Analysis accepts the core language

A datum has code exactly if it is a well-formed program. Both directions follow the relation between
a datum and its code, in which the operands of a form stand as they are written; what is left is to
read them as lists. The code is well shaped at every depth, so that running it meets no empty
sequence and binds no parameter twice.
-/
namespace FrameLisp

namespace Datum

section Lists

theorem toList?_pair (mark : Option Nat) (head tail : Datum) :
    (pair mark head tail).toList? = tail.toList?.map (head :: ·) := by
  rw [toList?, toList?, isList, isList, chainEnd, heads_pair]
  split <;> rfl

theorem eq_nil_of_toList? {d : Datum} (h : d.toList? = some []) : d = .nil := by
  cases d with
  | nil => rfl
  | pair mark head tail =>
    rw [toList?_pair] at h
    cases htail : tail.toList? <;> simp [htail] at h
  | _ => cases h

theorem exists_pair_of_toList? {d item : Datum} {items : List Datum}
    (h : d.toList? = some (item :: items)) :
    ∃ mark tail, d = .pair mark item tail ∧ tail.toList? = some items := by
  cases d with
  | pair mark head tail =>
    rw [toList?_pair, Option.map_eq_some_iff] at h
    obtain ⟨rest, htail, he⟩ := h
    obtain ⟨rfl, rfl⟩ := List.cons.inj he
    exact ⟨mark, tail, rfl, htail⟩
  | _ => cases h

end Lists

end Datum

namespace Parameters

/-- The names of a chain that ends as parameter lists do. -/
theorem collect_eq_ok_iff {read : List String} {d : Datum} {p : Parameters} :
    collect read d = .ok p ↔ ∃ names, d.heads = names.map .symbol ∧
      p.required = read.reverse ++ names ∧
      (d.chainEnd = .nil ∧ p.rest = none ∨
        ∃ rest, d.chainEnd = .symbol rest ∧ p.rest = some rest) := by
  induction d generalizing read with
  | pair mark head tail _ ih =>
    rw [Datum.heads_pair]
    cases head with
    | symbol name =>
      rw [collect, ih]
      constructor
      · rintro ⟨names, hheads, hrequired, hend⟩
        rw [List.reverse_cons, List.append_assoc] at hrequired
        exact ⟨name :: names, congrArg (.symbol name :: ·) hheads, hrequired, hend⟩
      · rintro ⟨_ | ⟨name', names⟩, hheads, hrequired, hend⟩
        · cases hheads
        · obtain ⟨hname, htail⟩ := List.cons.inj hheads
          obtain rfl := Datum.symbol.inj hname
          refine ⟨names, htail, ?_, hend⟩
          rw [hrequired, List.reverse_cons, List.append_assoc]
          rfl
    | _ =>
      constructor
      · intro h
        cases h
      · rintro ⟨_ | ⟨name, names⟩, hheads, -⟩ <;> simp at hheads
  | nil =>
    cases p
    simp [collect, Datum.heads, Datum.headsFrom, Datum.chainEnd, eq_comm]
  | symbol name =>
    cases p
    simp [collect, Datum.heads, Datum.headsFrom, Datum.chainEnd, eq_comm]
  | _ => simp [collect, Datum.chainEnd]

theorem ofDatum_eq_ok_iff {d : Datum} {p : Parameters} :
    ofDatum d = .ok p ↔ collect [] d = .ok p ∧ p.names.Nodup := by
  rw [ofDatum]
  cases hp : collect [] d with
  | error e => simp
  | ok p' =>
    dsimp only
    cases hrepeated : firstRepeated? [] p'.names with
    | none =>
      have hnodup := (firstRepeated?_eq_none_iff.1 hrepeated).1
      constructor
      · intro h
        cases h
        exact ⟨rfl, hnodup⟩
      · rintro ⟨h, -⟩
        exact h
    | some name =>
      constructor
      · intro h
        cases h
      · rintro ⟨h, hnodup⟩
        cases h
        have hnone : firstRepeated? [] p.names = none :=
          firstRepeated?_eq_none_iff.2 ⟨hnodup, by simp⟩
        simp [hrepeated] at hnone

/-- Parameters are read from the lists of distinct symbols and from nothing else. -/
theorem exists_ofDatum_iff {d : Datum} : (∃ p, ofDatum d = .ok p) ↔ d.IsParameters := by
  simp only [ofDatum_eq_ok_iff, collect_eq_ok_iff, List.reverse_nil, List.nil_append]
  constructor
  · rintro ⟨⟨required, _⟩, ⟨_, hheads, rfl, ⟨hend, rfl⟩ | ⟨rest, hend, rfl⟩⟩, hnodup⟩
    · exact .required required (by simpa [names] using hnodup) hheads hend
    · exact .rest required rest hnodup hheads hend
  · intro h
    cases h with
    | required required hnodup hheads hend =>
      exact ⟨⟨required, none⟩, ⟨required, hheads, rfl, .inl ⟨hend, rfl⟩⟩,
        by simpa [names] using hnodup⟩
    | rest required rest hnodup hheads hend =>
      exact ⟨⟨required, some rest⟩, ⟨required, hheads, rfl, .inr ⟨rest, hend, rfl⟩⟩, hnodup⟩

end Parameters

section Sound

/-- What has code is a list of programs. -/
structure Datum.ListsPrograms (d : Datum) (items : List Datum) : Prop where
  list : d.toList? = some items
  programs : ∀ x ∈ items, x.WellFormed

theorem Datum.ListsPrograms.cons {mark : Option Nat} {head tail : Datum} {items : List Datum}
    (hhead : head.WellFormed) (htail : tail.ListsPrograms items) :
    Datum.ListsPrograms (.pair mark head tail) (head :: items) where
  list := by rw [Datum.toList?_pair, htail.list, Option.map_some]
  programs := List.forall_mem_cons.2 ⟨hhead, htail.programs⟩

mutual

/-- Whatever has code is a program. -/
theorem Datum.Compiles.wellFormed : ∀ {d : Datum} {c : Code}, d.Compiles c → d.WellFormed
  | d, _, .constant hd => by
    cases d with
    | number n => exact .number n
    | string s => exact .string s
    | boolean b => exact .boolean b
    | closure mark l frame => exact .closure mark l frame
    | primitive p => exact .primitive p
    | _ => cases hd
  | _, _, .variable name => .symbol name
  | _, _, .quoted d => .quoted d
  | _, _, .quote hform => .quote hform (by rw [Datum.toList?_pair]; rfl)
  | _, _, .assignment hform hvalue => .assignment hform rfl hvalue.wellFormed
  | _, _, .definition hform hvalue => .definition hform rfl hvalue.wellFormed
  | _, _, .procedure hform hparameters hunits => by
    obtain ⟨items, hlist, hprograms⟩ := hunits.listsPrograms
    have hbody : items ≠ [] := by
      rintro rfl
      cases Datum.eq_nil_of_toList? hlist
    exact .procedureDefinition hform (by rw [Datum.toList?_pair, hlist, Option.map_some])
      (Parameters.exists_ofDatum_iff.1 ⟨_, hparameters⟩) hbody hprograms
  | _, _, .conditional hform ht hc =>
    .conditional hform rfl (Nat.zero_le 1) ht.wellFormed hc.wellFormed (by simp)
  | _, _, .alternative hform ht hc ha =>
    .conditional hform rfl (Nat.le_refl 1) ht.wellFormed hc.wellFormed
      (by simpa using ha.wellFormed)
  | _, _, .lambda hform hparameters hunits => by
    obtain ⟨items, hlist, hprograms⟩ := hunits.listsPrograms
    have hbody : items ≠ [] := by
      rintro rfl
      cases Datum.eq_nil_of_toList? hlist
    exact .lambda hform (by rw [Datum.toList?_pair, hlist, Option.map_some])
      (Parameters.exists_ofDatum_iff.1 ⟨_, hparameters⟩) hbody hprograms
  | _, _, .sequence hform hunits => by
    obtain ⟨items, hlist, hprograms⟩ := hunits.listsPrograms
    have hbody : items ≠ [] := by
      rintro rfl
      cases Datum.eq_nil_of_toList? hlist
    exact .sequence hform hlist hbody hprograms
  | _, _, .application hform hoperator hoperands => by
    obtain ⟨items, hlist, hprograms⟩ := hoperands.listsPrograms
    exact .application hform hlist hoperator.wellFormed hprograms

theorem Datum.CompilesAll.listsPrograms : ∀ {d : Datum} {units : List Code},
    d.CompilesAll units → ∃ items, d.ListsPrograms items
  | _, _, .nil => ⟨[], rfl, by simp⟩
  | _, _, .cons hunit hunits => by
    obtain ⟨items, hitems⟩ := hunits.listsPrograms
    exact ⟨_, hitems.cons hunit.wellFormed⟩

end

end Sound

section Complete

/-- The forms of a list have code one by one if each of them has. -/
theorem Datum.exists_compilesAll {d : Datum} {items : List Datum} (hlist : d.toList? = some items)
    (hitems : ∀ x ∈ items, ∃ c, x.Compiles c) : ∃ units, d.CompilesAll units := by
  induction items generalizing d with
  | nil =>
    obtain rfl := eq_nil_of_toList? hlist
    exact ⟨[], .nil⟩
  | cons item items ih =>
    obtain ⟨mark, tail, rfl, htail⟩ := exists_pair_of_toList? hlist
    obtain ⟨⟨c, hc⟩, hrest⟩ := List.forall_mem_cons.1 hitems
    obtain ⟨units, hunits⟩ := ih htail hrest
    exact ⟨c :: units, .cons hc hunits⟩

/-- A body that is not empty begins with a form. -/
theorem Datum.exists_compilesAll_body {d : Datum} {items : List Datum}
    (hlist : d.toList? = some items) (hne : items ≠ []) (hitems : ∀ x ∈ items, ∃ c, x.Compiles c) :
    ∃ mark first rest units, d = .pair mark first rest ∧
      Datum.CompilesAll (.pair mark first rest) units := by
  obtain ⟨item, items, rfl⟩ := List.exists_cons_of_ne_nil hne
  obtain ⟨units, hunits⟩ := exists_compilesAll hlist hitems
  obtain ⟨mark, rest, rfl, -⟩ := exists_pair_of_toList? hlist
  exact ⟨mark, item, rest, units, rfl, hunits⟩

/-- Every program has code. -/
theorem Datum.WellFormed.exists_compiles {d : Datum} (h : d.WellFormed) : ∃ c, d.Compiles c := by
  induction h with
  | number | string | boolean | closure | primitive => exact ⟨_, .constant rfl⟩
  | symbol name => exact ⟨_, .variable name⟩
  | quoted d => exact ⟨_, .quoted d⟩
  | quote hform htail =>
    obtain ⟨m, rest, rfl, hrest⟩ := exists_pair_of_toList? htail
    obtain rfl := eq_nil_of_toList? hrest
    exact ⟨_, .quote hform⟩
  | assignment hform htail _ ih =>
    obtain ⟨m, operands, rfl, hvalue⟩ := exists_pair_of_toList? htail
    obtain ⟨m', rest, rfl, hrest⟩ := exists_pair_of_toList? hvalue
    obtain rfl := eq_nil_of_toList? hrest
    obtain ⟨c, hc⟩ := ih
    exact ⟨_, .assignment hform hc⟩
  | definition hform htail _ ih =>
    obtain ⟨m, operands, rfl, hvalue⟩ := exists_pair_of_toList? htail
    obtain ⟨m', rest, rfl, hrest⟩ := exists_pair_of_toList? hvalue
    obtain rfl := eq_nil_of_toList? hrest
    obtain ⟨c, hc⟩ := ih
    exact ⟨_, .definition hform hc⟩
  | procedureDefinition hform htail hparameters hne _ ih =>
    obtain ⟨m, body, rfl, hbody⟩ := exists_pair_of_toList? htail
    obtain ⟨m', first, rest, units, rfl, hunits⟩ := exists_compilesAll_body hbody hne ih
    obtain ⟨p, hp⟩ := Parameters.exists_ofDatum_iff.2 hparameters
    exact ⟨_, .procedure hform hp hunits⟩
  | @conditional mark head tail test consequent rest hform htail hlength _ _ _ iht ihc ihrest =>
    obtain ⟨m, operands, rfl, hconsequent⟩ := exists_pair_of_toList? htail
    obtain ⟨m', tail, rfl, hrest⟩ := exists_pair_of_toList? hconsequent
    obtain ⟨t, ht⟩ := iht
    obtain ⟨c, hc⟩ := ihc
    match rest, hlength with
    | [], _ =>
      obtain rfl := eq_nil_of_toList? hrest
      exact ⟨_, .conditional hform ht hc⟩
    | [alternative], _ =>
      obtain ⟨m'', last, rfl, hend⟩ := exists_pair_of_toList? hrest
      obtain rfl := eq_nil_of_toList? hend
      obtain ⟨a, ha⟩ := ihrest alternative List.mem_cons_self
      exact ⟨_, .alternative hform ht hc ha⟩
  | lambda hform htail hparameters hne _ ih =>
    obtain ⟨m, body, rfl, hbody⟩ := exists_pair_of_toList? htail
    obtain ⟨m', first, rest, units, rfl, hunits⟩ := exists_compilesAll_body hbody hne ih
    obtain ⟨p, hp⟩ := Parameters.exists_ofDatum_iff.2 hparameters
    exact ⟨_, .lambda hform hp hunits⟩
  | sequence hform htail hne _ ih =>
    obtain ⟨m, first, rest, units, rfl, hunits⟩ := exists_compilesAll_body htail hne ih
    exact ⟨_, .sequence hform hunits⟩
  | application hform htail _ _ ihhead ih =>
    obtain ⟨operator, hoperator⟩ := ihhead
    obtain ⟨operands, hoperands⟩ := exists_compilesAll htail ih
    exact ⟨_, .application hform hoperator hoperands⟩

end Complete

section Shape

namespace Code

theorem WellShaped.named {c : Code} (h : c.WellShaped) (name : String) :
    (c.named name).WellShaped := by
  cases c with
  | lambda l =>
    cases h with
    | @lambda name' parameters body hnodup hbody => cases name' <;> exact .lambda hnodup hbody
  | _ => exact h

/-- A body of one unit is that unit, so that a sequence has two at least. -/
theorem wellShaped_ofUnits {units : List Code} (hne : units ≠ [])
    (h : ∀ unit ∈ units, unit.WellShaped) : (ofUnits units).WellShaped := by
  match units with
  | [unit] => exact h unit List.mem_cons_self
  | _ :: _ :: _ => exact .sequence (by simp) h

/-- What is read as parameters has distinct names. -/
theorem wellShaped_procedure {name : Option String} {signature : Datum} {parameters : Parameters}
    {units : List Code} (hparameters : Parameters.ofDatum signature = .ok parameters)
    (hne : units ≠ []) (h : ∀ unit ∈ units, unit.WellShaped) :
    (Code.lambda (.mk name parameters (.ofUnits units))).WellShaped :=
  .lambda (Parameters.ofDatum_eq_ok_iff.1 hparameters).2 (wellShaped_ofUnits hne h)

end Code

theorem Datum.CompilesAll.ne_nil {mark : Option Nat} {head tail : Datum} {units : List Code}
    (h : Datum.CompilesAll (.pair mark head tail) units) : units ≠ [] := by
  cases h
  exact List.cons_ne_nil _ _

mutual

theorem Datum.Compiles.wellShaped : ∀ {d : Datum} {c : Code}, d.Compiles c → c.WellShaped
  | d, _, .constant _ => .constant d
  | _, _, .variable name => .variable name
  | _, _, .quoted d => .constant d
  | _, _, .quote _ => .constant _
  | _, _, .assignment _ hvalue => .assignment hvalue.wellShaped
  | _, _, .definition _ hvalue => .definition (hvalue.wellShaped.named _)
  | _, _, .procedure _ hparameters hunits =>
    .definition (Code.wellShaped_procedure hparameters hunits.ne_nil hunits.wellShaped)
  | _, _, .conditional _ ht hc =>
    .conditional ht.wellShaped hc.wellShaped (.constant (.boolean false))
  | _, _, .alternative _ ht hc ha => .conditional ht.wellShaped hc.wellShaped ha.wellShaped
  | _, _, .lambda _ hparameters hunits =>
    Code.wellShaped_procedure hparameters hunits.ne_nil hunits.wellShaped
  | _, _, .sequence _ hunits => Code.wellShaped_ofUnits hunits.ne_nil hunits.wellShaped
  | _, _, .application _ hoperator hoperands =>
    .application hoperator.wellShaped hoperands.wellShaped

theorem Datum.CompilesAll.wellShaped : ∀ {d : Datum} {units : List Code},
    d.CompilesAll units → ∀ unit ∈ units, unit.WellShaped
  | _, _, .nil => by simp
  | _, _, .cons hunit hunits => List.forall_mem_cons.2 ⟨hunit.wellShaped, hunits.wellShaped⟩

end

end Shape

/-- Analysis accepts the programs and no other data, and makes well-shaped code of them. -/
theorem Code.accepts_programs (d : Datum) :
    ((∃ c, Code.ofDatum d = .ok c) ↔ d.WellFormed) ∧
      ∀ c, Code.ofDatum d = .ok c → c.WellShaped := by
  simp only [Code.ofDatum_eq_ok_iff]
  refine ⟨⟨fun ⟨c, hc⟩ => hc.wellFormed, fun h => h.exists_compiles⟩, fun c hc => hc.wellShaped⟩

end FrameLisp
