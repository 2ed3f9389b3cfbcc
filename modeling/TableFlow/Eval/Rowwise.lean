import TableFlow.Eval.Function
import TableFlow.Formula.Source
import TableFlow.Table.Basic

/-!
# Formulas row by row

A formula gives one value for each row of a table; calls that need a window are refused.
The arguments of an application are evaluated for all rows before the first row is
answered.
-/

namespace TableFlow.Eval

/-- The cells of some columns at one row. -/
def cellsAt (columns : List (List Value)) (i : Nat) : Except EvalError (List Value) :=
  match columns.mapM (·[i]?) with
  | some cells => .ok cells
  | none => .error .rowOutOfRange

def applyRow (name : String) (form : Form) (vs : List Value) : Except EvalError Value :=
  match form, vs with
  | .operator, [a, b] => binary name a b
  | _, vs => call name vs

mutual

/-- The values of a formula for the rows of a table. -/
def rowwise (t : Table) : Formula → Except EvalError (List Value)
  | .constant v => .ok (List.replicate t.numRows v)
  | .column name =>
    match t.cells? name with
    | some cells => .ok cells
    | none => .error (.missingOperand name)
  | .apply name args form => do
    if (Formula.apply name args form).isWindowCall then .error (.misplacedAggregate name)
    let columns ← rowwiseAll t args
    (List.range t.numRows).mapM fun i => do applyRow name form (← cellsAt columns i)

def rowwiseAll (t : Table) : List Formula → Except EvalError (List (List Value))
  | [] => .ok []
  | e :: rest => do
    let cells ← rowwise t e
    .ok (cells :: (← rowwiseAll t rest))

end

end TableFlow.Eval
