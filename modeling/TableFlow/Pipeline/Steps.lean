import TableFlow.Formula.Parse
import TableFlow.Formula.Source
import TableFlow.Pipeline.Build

/-!
# Pipelines as lists of steps

`Pipeline.steps` lists the steps of a pipeline from its table on, with formulas as text and
the right side of a join as a list of its own. `Pipeline.ofSteps` builds the pipeline
again, with every check of the builders.
-/

namespace TableFlow

/-- A step apart from its source. -/
inductive Step where
  /-- The key is empty or must be that of the table. -/
  | table (name : String) (qualifiers : NameMap String) (columns : List String) (key : String)
  | extend (assignments : List (String × String)) (window : Window)
  | selectRows (condition : String)
  | selectColumns (columns : List String)
  | dropColumns (dropped : List String)
  | project (assignments : List (String × String)) (groupBy : List String)
  | orderRows (order : RowOrder)
  | renameColumns (pairs : List (String × String))
  | naturalJoin (keys : List String) (type : JoinType) (right : List Step)

def Step.kind : Step → Kind
  | table .. => .table
  | extend .. => .extend
  | selectRows .. => .selectRows
  | selectColumns .. => .selectColumns
  | dropColumns .. => .dropColumns
  | project .. => .project
  | orderRows .. => .orderRows
  | renameColumns .. => .renameColumns
  | naturalJoin .. => .naturalJoin

namespace Pipeline

def sourcesOf (assignments : List (String × Formula)) : List (String × String) :=
  assignments.map fun (name, e) => (name, e.source)

/-- The steps of a pipeline, its table first. -/
def steps : Pipeline → List Step
  | table t => [.table t.name t.qualifiers t.columns t.key]
  | extension source assignments window =>
    source.steps ++ [.extend (sourcesOf assignments) window]
  | filter source condition => source.steps ++ [.selectRows condition.source]
  | selection source columns => source.steps ++ [.selectColumns columns]
  | removal source dropped => source.steps ++ [.dropColumns dropped]
  | grouping source assignments groupBy =>
    source.steps ++ [.project (sourcesOf assignments) groupBy]
  | ordering source order => source.steps ++ [.orderRows order]
  | relabeling source pairs => source.steps ++ [.renameColumns pairs]
  | join left right keys type => left.steps ++ [.naturalJoin keys type right.steps]

def formula (p : Pipeline) (text : String) : Except Error Formula :=
  Formula.parse text ⟨p.columns, .empty⟩

def formulas (p : Pipeline) (assignments : List (String × String)) :
    Except Error (List (String × Formula)) :=
  assignments.mapM fun (name, text) => do .ok (name, ← p.formula text)

/-- The table that a list of steps starts with. -/
def ofFirst : Step → Except Error Pipeline
  | .table name qualifiers columns key => do
    let t ← TableRef.of name columns qualifiers
    if key ≠ "" ∧ key ≠ t.key then .error (.badSteps (.keyMismatch key t.key))
    .ok (table t)
  | other => .error (.badSteps (.noTableFirst other.kind))

mutual

def addStep (source : Pipeline) : Step → Except Error Pipeline
  | .table .. => .error (.badSteps .tableLater)
  | .extend assignments window => do source.extend (← source.formulas assignments) window
  | .selectRows condition => do source.selectRows (← source.formula condition)
  | .selectColumns columns => source.selectColumns columns
  | .dropColumns dropped => source.dropColumns dropped
  | .project assignments groupBy => do source.project (← source.formulas assignments) groupBy
  | .orderRows order => source.orderRows order
  | .renameColumns pairs => source.renameColumns pairs
  | .naturalJoin keys type right => do source.naturalJoin (← ofSteps right) keys type

def addSteps (source : Pipeline) : List Step → Except Error Pipeline
  | [] => .ok source
  | step :: rest => do addSteps (← source.addStep step) rest

/-- The pipeline of the steps, the first of which is its table. -/
def ofSteps : List Step → Except Error Pipeline
  | [] => .error (.badSteps .empty)
  | first :: rest => do addSteps (← ofFirst first) rest

end

end Pipeline

end TableFlow
