import FrameLisp.Datum.Basic

/-!
# Lists as chains of pairs

A chain of pairs has heads and ends in a datum that is not a pair. It is a list when it ends in
the empty list. `ofList` and `heads` are inverse to each other on lists.
-/
namespace FrameLisp.Datum

/-- The chain of unmarked pairs with these heads and this end. -/
def ofChain (items : List Datum) (tail : Datum) : Datum :=
  items.foldr (fun head tail => .pair none head tail) tail

def ofList (items : List Datum) : Datum := ofChain items .nil

/-- The chain of pairs marked from `mark` on, the last pair first; and the next unused mark. -/
def markedChain (mark : Nat) (items : List Datum) (tail : Datum) : Datum × Nat :=
  items.foldr (fun head (tail, mark) => (.pair (some mark) head tail, mark + 1)) (tail, mark)

def markedList (mark : Nat) (items : List Datum) : Datum × Nat :=
  markedChain mark items .nil

/-- The heads of a chain after those in `read`, the last one first. -/
def headsFrom (read : List Datum) : Datum → List Datum
  | .pair _ head tail => headsFrom (head :: read) tail
  | _ => read.reverse

def heads (d : Datum) : List Datum := d.headsFrom []

/-- What the chain ends in. -/
def chainEnd : Datum → Datum
  | .pair _ _ tail => tail.chainEnd
  | d => d

def isList (d : Datum) : Bool := d.chainEnd.isNull

def toList? (d : Datum) : Option (List Datum) := if d.isList then some d.heads else none

/-- Why a datum is not a list of symbols. -/
inductive ChainError where
  | improper (tail : Datum)
  | notSymbol (got : Datum)

/-- The heads of a list. -/
def items (d : Datum) : Except ChainError (List Datum) :=
  match d.toList? with
  | some heads => .ok heads
  | none => .error (.improper d.chainEnd)

/-- The names in a list of symbols; the first head that is none is reported. -/
def symbols (d : Datum) : Except ChainError (List String) :=
  match d.items with
  | .error e => .error e
  | .ok heads =>
    match heads.find? fun head => head.asSymbol?.isNone with
    | some head => .error (.notSymbol head)
    | none => .ok (heads.filterMap asSymbol?)

private theorem headsFrom_eq_append : ∀ (read : List Datum) (d : Datum),
    d.headsFrom read = read.reverse ++ d.heads
  | read, .pair _ head tail => by
    simp only [headsFrom, heads]
    rw [headsFrom_eq_append (head :: read) tail, headsFrom_eq_append [head] tail]
    simp
  | _, .number _ | _, .string _ | _, .boolean _ | _, .symbol _ | _, .nil | _, .quoted _
  | _, .closure .. | _, .primitive _ => by simp [headsFrom, heads]

@[simp] theorem heads_pair (mark : Option Nat) (head tail : Datum) :
    (pair mark head tail).heads = head :: tail.heads := by
  simp only [heads, headsFrom]
  exact headsFrom_eq_append [head] tail

@[simp] theorem heads_nil : nil.heads = [] := rfl

@[simp] theorem heads_ofList (items : List Datum) : (ofList items).heads = items := by
  induction items with
  | nil => rfl
  | cons item items ih => simpa [ofList, ofChain] using ih

@[simp] theorem chainEnd_ofChain (items : List Datum) (tail : Datum) :
    (ofChain items tail).chainEnd = tail.chainEnd := by
  induction items with
  | nil => rfl
  | cons item items ih => simpa [ofChain, chainEnd] using ih

@[simp] theorem toList?_ofList (items : List Datum) : (ofList items).toList? = some items := by
  have h : (ofList items).chainEnd = .nil := chainEnd_ofChain items .nil
  simp [toList?, isList, h, isNull]

end FrameLisp.Datum
