import TableFlow.Eval.Join

/-!
# Running pipelines

`run` evaluates a pipeline over tables bound to the keys of its table references.
-/

namespace TableFlow.Eval

def lift {α : Type} : Except Error α → Except EvalError α :=
  Except.mapError .model

/-- The described columns of the table bound to a reference. -/
def bind (t : TableRef) (bindings : NameMap Table) : Except EvalError Table :=
  match bindings.get? t.key with
  | none => .error (.missingTable t.key)
  | some bound =>
    match t.columns.filter fun c => (bound.column? c).isNone with
    | [] => lift (bound.select t.columns)
    | missing => .error (.missingColumns t.key missing)

/-- The values of an assignment: over the window if it is a window call, else row by
row. -/
def assigned (t : Table) (window : Window) (e : Formula) : Except EvalError (List Value) :=
  if e.isWindowCall then windowValues t e window else rowwise t e

/-- All assignments evaluated on the same table and then put in. -/
def extendTable (t : Table) (assignments : List (String × Formula)) (window : Window)
    (columns : List String) : Except EvalError Table := do
  let results ← assignments.mapM fun (name, e) => do .ok (name, ← assigned t window e)
  let t ← results.foldlM (fun t (name, cells) => lift (t.setColumn name cells)) t
  lift (t.select columns)

def takeRows (t : Table) (positions : List Nat) : Except EvalError Table :=
  match t.take? positions with
  | some t => .ok t
  | none => .error .rowOutOfRange

def filterTable (t : Table) (condition : Formula) : Except EvalError Table := do
  let answers ← rowwise t condition
  takeRows t ((answers.zipIdx.filter (·.1 = .bool true)).map (·.2))

/-- The rows in order, up to a limit. -/
def orderTable (t : Table) (order : RowOrder) : Except EvalError Table := do
  let positions ← sortPositions t order.orderBy order.reverse
  takeRows t (match order.limit with
    | some n => positions.take n
    | none => positions)

def relabelTable (t : Table) (pairs : List (String × String)) (columns : List String) :
    Except EvalError Table := do
  let renamed ← columns.mapM fun name => do .ok ⟨name, ← columnCells t (oldName pairs name)⟩
  lift (Table.ofColumns renamed)

/-- An aggregate of one column: its name and the column. -/
def aggregateCall : Formula → Except EvalError (String × String)
  | .apply name [.column column] .call => .ok (name, column)
  | e => .error (.nonTrivialAggregate (e.head?.getD e.source))

/-- The groups of rows with equal cells in some columns, by rising keys; one group of all
rows if there are no such columns. -/
def groupRows (t : Table) (groupBy : List String) : Except EvalError (List (List Nat)) :=
  if groupBy.isEmpty then .ok [List.range t.numRows]
  else do groups t (← sortPositions t groupBy []) groupBy

def groupColumn (t : Table) (rows : List (List Nat)) (name : String) :
    Except EvalError Column := do
  let cells ← columnCells t name
  .ok ⟨name, ← gatherCells cells (rows.filterMap (·.head?))⟩

/-- An aggregate column: one value for each group. -/
def aggregateColumn (t : Table) (rows : List (List Nat))
    (assignment : String × String × String) : Except EvalError Column := do
  let (name, function, column) := assignment
  let cells ← columnCells t column
  .ok ⟨name, ← rows.mapM fun group => do aggregate function (← gatherCells cells group)⟩

/-- One row for each group. -/
def groupTable (t : Table) (assignments : List (String × Formula)) (groupBy : List String) :
    Except EvalError Table := do
  let calls ← assignments.mapM fun (name, e) => do .ok (name, ← aggregateCall e)
  let rows ← groupRows t groupBy
  let keys ← groupBy.mapM (groupColumn t rows)
  let results ← calls.mapM (aggregateColumn t rows)
  lift (Table.ofColumns (keys ++ results))

/-- The table that a pipeline makes of the bound tables. -/
def run (bindings : NameMap Table) : Pipeline → Except EvalError Table
  | .table t => bind t bindings
  | .extension source assignments window => do
    let t ← run bindings source
    extendTable t assignments window (Pipeline.extension source assignments window).columns
  | .filter source condition => do filterTable (← run bindings source) condition
  | .selection source columns => do lift ((← run bindings source).select columns)
  | .removal source dropped => do
    .ok (dropped.foldl (fun t name => (t.removeColumn name).1) (← run bindings source))
  | .grouping source assignments groupBy => do
    groupTable (← run bindings source) assignments groupBy
  | .ordering source order => do orderTable (← run bindings source) order
  | .relabeling source pairs => do
    relabelTable (← run bindings source) pairs (Pipeline.relabeling source pairs).columns
  | .join left right keys type => do
    let l ← run bindings left
    let r ← run bindings right
    joinTables l r (Pipeline.join left right keys type).columns keys type

end TableFlow.Eval
