import TableFlow.Eval.Rowwise
import TableFlow.Pipeline.Basic
import TableFlow.Table.Sorting

/-!
# Rows in order and in groups

Rows are arranged by their positions. `sortPositions` orders them by columns, each rising
or falling, with missing cells last either way; `runs` cuts an arrangement into groups of
equal keys. A call over a window sorts by the partition columns and then by the order columns;
within a partition `row_number` counts from one, and an aggregate gives every row the value of
the whole partition.
-/

namespace TableFlow.Eval

/-- The cells of a column between two steps. -/
def columnCells (t : Table) (name : String) : Except EvalError (List Value) :=
  match t.cells? name with
  | some cells => .ok cells
  | none => .error (.missingBetween name)

def keyColumns (t : Table) (names : List String) : Except EvalError (List (List Value)) :=
  names.mapM (columnCells t)

def keyed (keys : List (List Value)) (positions : List Nat) :
    Except EvalError (List (Nat × List Value)) :=
  positions.mapM fun i => do .ok (i, ← cellsAt keys i)

/-- Two cells in an order that may fall; missing cells stay last. -/
def orderCompare (falling : Bool) (a b : Value) : Ordering :=
  if falling && !a.isMissing && !b.isMissing then b.sortCompare a else a.sortCompare b

/-- Two keys cell by cell, each with its own direction. -/
def compareKeys : List Bool → List Value → List Value → Ordering
  | falling :: fs, a :: as, b :: bs =>
    match orderCompare falling a b with
    | .eq => compareKeys fs as bs
    | other => other
  | _, _, _ => .eq

/-- Rows sorted by their keys, as elements of some width. -/
def sortKeyed (width : Nat) (compare : List Value → List Value → Ordering)
    (rows : List (Nat × List Value)) : Except EvalError (List (Nat × List Value)) :=
  match sort? width (fun a b => compare a.2 b.2 == .lt) rows with
  | some sorted => .ok sorted
  | none => .error .unsortable

/-- The positions of the rows in the order of some columns, of which some fall; rows with
equal keys keep their order. -/
def sortPositions (t : Table) (columns reverse : List String) :
    Except EvalError (List Nat) := do
  let keys ← keyColumns t columns
  let falling := columns.map (reverse.contains ·)
  let rows ← keyed keys (List.range t.numRows)
  .ok ((← sortKeyed 8 (compareKeys falling) rows).map (·.1))

/-- Whether two keys are equal in the sort order, cell by cell. -/
def sameKey (a b : List Value) : Bool :=
  (a.zip b).all fun (x, y) => x.sortCompare y == .eq

/-- The rows after the first of a run, as long as they have its key, and what follows. -/
def splitRun (key : List Value) : List (Nat × List Value) → List Nat × List (Nat × List Value)
  | [] => ([], [])
  | row :: rest =>
    if sameKey row.2 key then
      let (run, later) := splitRun key rest
      (row.1 :: run, later)
    else ([], row :: rest)

theorem splitRun_length {key : List Value} {rows : List (Nat × List Value)} :
    (splitRun key rows).2.length ≤ rows.length := by
  induction rows with
  | nil => simp [splitRun]
  | cons row rest ih => grind [splitRun]

/-- An arrangement cut where the key differs from that of the run's first row. -/
def runs : List (Nat × List Value) → List (List Nat)
  | [] => []
  | row :: rest => (row.1 :: (splitRun row.2 rest).1) :: runs (splitRun row.2 rest).2
termination_by rows => rows.length
decreasing_by
  simp only [List.length_cons]
  have := @splitRun_length row.2 rest
  omega

/-- The groups of an arrangement by the cells of some columns. -/
def groups (t : Table) (positions : List Nat) (columns : List String) :
    Except EvalError (List (List Nat)) := do
  let keys ← keyColumns t columns
  .ok (runs (← keyed keys positions))

def gatherCells (cells : List Value) (positions : List Nat) : Except EvalError (List Value) :=
  positions.mapM fun i =>
    match cells[i]? with
    | some v => .ok v
    | none => .error .rowOutOfRange

/-! ## Functions over a window -/

/-- What a call over a window asks for. -/
inductive WindowCall where
  | rowNumber
  | aggregate (name : String) (cells : List Value)

/-- A formula as a call over a window: `row_number()` or an aggregate of one column. -/
def windowCall (t : Table) : Formula → Except EvalError WindowCall
  | .apply "row_number" [] _ => .ok .rowNumber
  | .apply name [] _ => .error (.unknownWindowFunction name)
  | .apply name [.column column] _ => do .ok (.aggregate name (← columnCells t column))
  | .apply name _ _ => .error (.windowArgument name)
  | e => .error (.noWindowCall e.source)

/-- The values of one partition, each with the position of its row. -/
def WindowCall.answer (c : WindowCall) (partition : List Nat) :
    Except EvalError (List (Nat × Value)) :=
  match c with
  | rowNumber =>
    .ok (partition.zipIdx.map fun (i, rank) => (i, .int (Int64.ofNat (rank + 1))))
  | aggregate name cells => do
    let v ← Eval.aggregate name (← gatherCells cells partition)
    .ok (partition.map fun i => (i, v))

/-- The values of a call over a window, in the order of the rows. -/
def windowValues (t : Table) (e : Formula) (w : Window) : Except EvalError (List Value) := do
  let c ← windowCall t e
  let order ← sortPositions t (w.partitionBy ++ w.orderBy) w.reverse
  let answers ← (← groups t order w.partitionBy).mapM c.answer
  .ok ((List.range t.numRows).map fun i =>
    ((answers.flatten.find? (·.1 = i)).map (·.2)).getD .null)

end TableFlow.Eval
