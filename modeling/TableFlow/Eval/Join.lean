import TableFlow.Eval.Arrangement

/-!
# Joins of tables

The right rows are sorted by their keys, and each left row is paired with the right rows
between two cuts of that arrangement. Keys with a missing cell pair with nothing.
-/

namespace TableFlow.Eval

/-- Where a property stops to hold in a list that starts with those that have it, found by
halving: `size` positions from `base` on are in question. -/
def cutFrom (holds : Nat → Bool) (size base : Nat) : Nat :=
  if size ≤ 1 then if size = 1 ∧ holds base = true then base + 1 else base
  else cutFrom holds (size - size / 2) (if holds (base + size / 2) then base + size / 2 else base)
termination_by size
decreasing_by omega

/-- A row of a join: its position on each side where it has one. -/
structure Pairing where
  left : Option Nat
  right : Option Nat
  deriving DecidableEq, Repr

/-- The rows whose keys have no missing cell, with these keys. -/
def matchable (t : Table) (keys : List String) : Except EvalError (List (Nat × List Value)) := do
  let columns ← keyColumns t keys
  let rows ← keyed columns (List.range t.numRows)
  .ok (rows.filter fun row => row.2.all (!·.isMissing))

def risingKeys (a b : List Value) : Ordering :=
  compareKeys (a.map fun _ => false) a b

/-- The right rows of a key, in an arrangement sorted by keys. -/
def partners (sorted : List (Nat × List Value)) (key : List Value) :
    Except EvalError (List Nat) :=
  let holds := fun (p : Ordering → Bool) (i : Nat) =>
    sorted[i]?.any fun row => p (risingKeys row.2 key)
  let low := cutFrom (holds (· == .lt)) sorted.length 0
  let high := cutFrom (holds (· != .gt)) sorted.length 0
  if high < low then .error .rowOutOfRange
  else .ok (((sorted.take high).drop low).map (·.1))

/-- The pairings of the left rows in order. -/
def leftPairings (keepsLeft : Bool) (sorted keyedLeft : List (Nat × List Value)) (i : Nat) :
    Except EvalError (List Pairing) := do
  let found ← match keyedLeft.find? (·.1 = i) with
    | some row => partners sorted row.2
    | none => .ok []
  .ok (if found.isEmpty && keepsLeft then [⟨some i, none⟩]
    else found.map fun j => ⟨some i, some j⟩)

/-- The rows of a join: the left rows with their partners, then the right rows that have
none. -/
def pairings (left right : Table) (keys : List String) (type : JoinType) :
    Except EvalError (List Pairing) := do
  let keyedLeft ← matchable left keys
  let sorted ← sortKeyed 32 risingKeys (← matchable right keys)
  let paired :=
    (← (List.range left.numRows).mapM (leftPairings type.keepsLeft sorted keyedLeft)).flatten
  let alone := (List.range right.numRows).filter fun j => !paired.any (·.right == some j)
  .ok (if type.keepsRight then paired ++ alone.map fun j => ⟨none, some j⟩ else paired)

/-- The left cell unless it is absent or null, else the right cell, else null. -/
def joinedCell : Option Value → Option Value → Value
  | some a, b => if a.isNull then b.getD a else a
  | none, some b => b
  | none, none => .null

/-- The cell of one side in a row of a join, if the side has the column and the row. -/
def sideCell (cells : Option (List Value)) (position : Option Nat) :
    Except EvalError (Option Value) :=
  match cells, position with
  | some cells, some i =>
    match cells[i]? with
    | some v => .ok (some v)
    | none => .error .rowOutOfRange
  | _, _ => .ok none

def joinedColumn (left right : Table) (rows : List Pairing) (name : String) :
    Except EvalError Column := do
  let cells ← rows.mapM fun row => do
    let a ← sideCell (left.cells? name) row.left
    let b ← sideCell (right.cells? name) row.right
    .ok (joinedCell a b)
  .ok ⟨name, cells⟩

def joinTables (left right : Table) (columns keys : List String) (type : JoinType) :
    Except EvalError Table := do
  let rows ← pairings left right keys type
  (Table.ofColumns (← columns.mapM (joinedColumn left right rows))).mapError .model

end TableFlow.Eval
