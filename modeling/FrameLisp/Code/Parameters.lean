import FrameLisp.Code.Form

/-!
# Parameter lists

`(a b)`, `(a b . rest)` and a bare `rest` are parameter lists, as long as all names differ.
-/
namespace FrameLisp

/-- The first name that occurs among those before it. -/
def firstRepeated? (seen : List String) : List String → Option String
  | [] => none
  | name :: names => if name ∈ seen then some name else firstRepeated? (name :: seen) names

/-- The names of a chain after those in `read`, the last one first. -/
def Parameters.collect (read : List String) : Datum → Except FormError Parameters
  | .pair _ (.symbol name) tail => collect (name :: read) tail
  | .pair _ head _ => .error (.invalidParameter head)
  | .nil => .ok ⟨read.reverse, none⟩
  | .symbol rest => .ok ⟨read.reverse, some rest⟩
  | d => .error (.invalidParameter d)

def Parameters.ofDatum (d : Datum) : Except FormError Parameters :=
  match Parameters.collect [] d with
  | .error e => .error e
  | .ok p =>
    match firstRepeated? [] p.names with
    | some name => .error (.duplicateParameter name)
    | none => .ok p

theorem firstRepeated?_eq_none_iff {seen names : List String} :
    firstRepeated? seen names = none ↔ names.Nodup ∧ ∀ name ∈ names, name ∉ seen := by
  induction names generalizing seen with
  | nil => simp [firstRepeated?]
  | cons name names ih =>
    simp only [firstRepeated?]
    split
    · simp_all
    · rw [ih]
      simp only [List.mem_cons, List.nodup_cons, not_or, forall_eq_or_imp]
      grind

end FrameLisp
