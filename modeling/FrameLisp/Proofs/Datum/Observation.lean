import FrameLisp.Proofs.Datum.Renaming
import FrameLisp.Datum.Chain

/-!
# What can be observed of a datum

Texts, types, equality and the heads of lists are the same under all handles. A datum without
closures and primitives, such as every datum that is read from a text, has no handles at all.
-/
namespace FrameLisp

open Store

variable {σ : Handle → Handle} {p : Handle → Prop} {q : Primitive → Prop}

@[simp] theorem Lambda.name_rename (l : Lambda) : (l.rename σ).name = l.name := by
  cases l
  rfl

@[simp] theorem Lambda.parameters_rename (l : Lambda) :
    (l.rename σ).parameters = l.parameters := by
  cases l
  rfl

@[simp] theorem Lambda.body_rename (l : Lambda) : (l.rename σ).body = l.body.rename σ := by
  cases l
  rfl

theorem Lambda.Within.body {l : Lambda} (hl : l.Within p q) : l.body.Within p q := by
  cases l
  exact hl

namespace Datum

@[simp] theorem typeName_rename (d : Datum) : (d.rename σ).typeName = d.typeName := by
  cases d <;> rfl

@[simp] theorem isFalse_rename (d : Datum) : (d.rename σ).isFalse = d.isFalse := by
  cases d <;> rfl

@[simp] theorem isPair_rename (d : Datum) : (d.rename σ).isPair = d.isPair := by
  cases d <;> rfl

@[simp] theorem isNull_rename (d : Datum) : (d.rename σ).isNull = d.isNull := by
  cases d <;> rfl

@[simp] theorem asNumber?_rename (d : Datum) : (d.rename σ).asNumber? = d.asNumber? := by
  cases d <;> rfl

@[simp] theorem asString?_rename (d : Datum) : (d.rename σ).asString? = d.asString? := by
  cases d <;> rfl

mutual

theorem write_rename : ∀ (out : String) (d : Datum), (d.rename σ).write out = d.write out
  | out, .pair mark head tail => by
    rw [rename, write, write, write_rename, writeTail_rename]
  | out, .quoted d => by rw [rename, write, write, write_rename]
  | out, .closure mark l frame => by simp [write, atomText, Lambda.text]
  | _, .number _ | _, .string _ | _, .boolean _ | _, .symbol _ | _, .nil | _, .primitive _ => rfl

theorem writeTail_rename : ∀ (out : String) (d : Datum),
    (d.rename σ).writeTail out = d.writeTail out
  | out, .pair mark head tail => by
    rw [rename, writeTail, writeTail, write_rename, writeTail_rename]
  | out, .quoted d => by rw [rename, writeTail, writeTail, write_rename]
  | out, .closure mark l frame => by simp [writeTail, atomText, Lambda.text]
  | _, .number _ | _, .string _ | _, .boolean _ | _, .symbol _ | _, .nil | _, .primitive _ => rfl

end

@[simp] theorem text_rename (d : Datum) : (d.rename σ).text = d.text := write_rename "" d

@[simp] theorem same_rename (a b : Datum) : (a.rename σ).same (b.rename σ) = a.same b := by
  induction a generalizing b with
  | pair mark head tail ihh iht => cases b <;> simp [same, ihh, iht]
  | quoted d ih => cases b <;> simp [same, ih]
  | _ => cases b <;> simp [same]

theorem headsFrom_rename : ∀ (read : List Datum) (d : Datum),
    (d.rename σ).headsFrom (read.map (rename σ)) = (d.headsFrom read).map (rename σ)
  | read, .pair mark head tail => headsFrom_rename (head :: read) tail
  | read, .number _ | read, .string _ | read, .boolean _ | read, .symbol _ | read, .nil
  | read, .quoted _ | read, .closure .. | read, .primitive _ => by simp [headsFrom]

@[simp] theorem heads_rename (d : Datum) : (d.rename σ).heads = d.heads.map (rename σ) :=
  headsFrom_rename [] d

@[simp] theorem isList_rename (d : Datum) : (d.rename σ).isList = d.isList := by
  induction d with
  | pair mark head tail _ ih => exact ih
  | _ => rfl

@[simp] theorem toList?_rename (d : Datum) :
    (d.rename σ).toList? = d.toList?.map (List.map (rename σ)) := by
  simp only [toList?, isList_rename, heads_rename]
  split <;> rfl

theorem Within.heads {d : Datum} (hd : d.Within p q) : ∀ x ∈ d.heads, x.Within p q := by
  induction d with
  | pair mark head tail _ ih =>
    intro x hx
    rw [heads_pair] at hx
    rcases List.mem_cons.1 hx with rfl | hx
    · exact hd.1
    · exact ih hd.2 x hx
  | _ => simp [Datum.heads, headsFrom]

theorem Within.toList? {d : Datum} (hd : d.Within p q) {items : List Datum}
    (hi : d.toList? = some items) : ∀ x ∈ items, x.Within p q := by
  simp only [Datum.toList?] at hi
  split at hi
  · exact Option.some.inj hi ▸ hd.heads
  · simp at hi

@[simp] theorem markedChain_rename (mark : Nat) (items : List Datum) (tail : Datum) :
    markedChain mark (items.map (rename σ)) (tail.rename σ) =
      ((markedChain mark items tail).1.rename σ, (markedChain mark items tail).2) := by
  induction items with
  | nil => rfl
  | cons item items ih =>
    simp only [markedChain, List.map_cons, List.foldr_cons] at ih ⊢
    rw [ih]
    rfl

@[simp] theorem markedList_rename (mark : Nat) (items : List Datum) :
    markedList mark (items.map (rename σ)) =
      ((markedList mark items).1.rename σ, (markedList mark items).2) :=
  markedChain_rename mark items .nil

theorem within_markedList (mark : Nat) {items : List Datum} (hi : ∀ x ∈ items, x.Within p q) :
    (markedList mark items).1.Within p q := by
  induction items with
  | nil => trivial
  | cons item items ih =>
    exact ⟨hi item List.mem_cons_self, ih fun x hx => hi x (List.mem_cons_of_mem _ hx)⟩

/-- No closures and no primitives, however deep. -/
def Plain (d : Datum) : Prop := d.Within (fun _ => False) fun _ => False

theorem Plain.within {d : Datum} (hd : d.Plain) : d.Within p q := by
  induction d with
  | pair mark head tail ihh iht => exact ⟨ihh hd.1, iht hd.2⟩
  | quoted d ih => exact ih hd
  | closure mark l frame => exact hd.1.elim
  | primitive primitive => exact False.elim hd
  | _ => trivial

theorem Plain.rename_eq {d : Datum} (hd : d.Plain) : d.rename σ = d := by
  induction d with
  | pair mark head tail ihh iht => rw [rename, ihh hd.1, iht hd.2]
  | quoted d ih => rw [rename, ih hd]
  | closure mark l frame => exact hd.1.elim
  | _ => rfl

end Datum

end FrameLisp
