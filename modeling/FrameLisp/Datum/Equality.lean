import FrameLisp.Datum.Basic

/-!
# Equality of data

Numbers are equal by value, procedures when they are the same one, and all else by content, except
that a marked pair equals itself whatever it holds.
-/
namespace FrameLisp.Datum

/-- Whether two pairs are one and the same. -/
def sameMark : Option Nat → Option Nat → Bool
  | some m, some n => m = n
  | _, _ => false

def same : Datum → Datum → Bool
  | .number a, .number b => a.sameValue b
  | .string a, .string b => a == b
  | .boolean a, .boolean b => a == b
  | .symbol a, .symbol b => a == b
  | .pair m head tail, .pair n head' tail' =>
    sameMark m n || (head.same head' && tail.same tail')
  | .nil, .nil => true
  | .quoted a, .quoted b => a.same b
  | .closure m .., .closure n .. => m == n
  | .primitive p, .primitive q => p == q
  | _, _ => false

/-- Equality by content alone, whatever the marks of pairs. -/
def alike : Datum → Datum → Bool
  | .number a, .number b => a.sameValue b
  | .string a, .string b => a == b
  | .boolean a, .boolean b => a == b
  | .symbol a, .symbol b => a == b
  | .pair _ head tail, .pair _ head' tail' => head.alike head' && tail.alike tail'
  | .nil, .nil => true
  | .quoted a, .quoted b => a.alike b
  | .closure m .., .closure n .. => m == n
  | .primitive p, .primitive q => p == q
  | _, _ => false

/-- The parts of a datum, itself included. -/
inductive Part : Datum → Datum → Prop
  | refl (d) : Part d d
  | head {part mark head tail} : Part part head → Part part (.pair mark head tail)
  | tail {part mark head tail} : Part part tail → Part part (.pair mark head tail)
  | quoted {part d} : Part part d → Part part (.quoted d)

/-- In all of the data, pairs with one mark are one pair. -/
def MarksAgree (data : List Datum) : Prop :=
  ∀ a ∈ data, ∀ b ∈ data, ∀ mark head tail head' tail',
    Part (.pair (some mark) head tail) a → Part (.pair (some mark) head' tail') b →
    head = head' ∧ tail = tail'

/-- Whether some part is the floating point value that is not a number. -/
def HasNaN (d : Datum) : Prop := Part (.number (.inexact .nan)) d

end FrameLisp.Datum
