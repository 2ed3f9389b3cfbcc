import TableFlow.Error
import TableFlow.Formula.Basic
import TableFlow.NameMap

/-!
# Pipelines

A pipeline is a tree of steps over tables; its root is the step applied last. Each step
has its output columns in order (`Pipeline.columns`). The type admits any tree; the
functions of `Pipeline.Build` make those whose steps fit their sources.
-/

namespace TableFlow

/-- A stored table: its name, its qualifiers (such as a schema) and its columns. -/
structure TableRef where
  name : String
  qualifiers : NameMap String
  columns : List String
  deriving DecidableEq

/-- The key that identifies a table: the name, after the qualifiers if there are any. -/
def TableRef.key (t : TableRef) : String :=
  if t.qualifiers.isEmpty then t.name
  else
    let pair := fun (k, v) => "(" ++ k ++ ", " ++ v ++ ")"
    "\x7b" ++ String.join (t.qualifiers.entries.map pair) ++ "\x7d." ++ t.name

/-- How rows are grouped and ordered for functions over a window. -/
structure Window where
  partitionBy : List String
  orderBy : List String
  /-- The columns of `orderBy` that are in falling order. -/
  reverse : List String
  deriving DecidableEq, Repr

/-- The window of all rows in no order. -/
def Window.whole : Window := ⟨[], [], []⟩

def Window.isEmpty (w : Window) : Bool := w.partitionBy.isEmpty && w.orderBy.isEmpty

/-- How rows are sorted and how many are kept. -/
structure RowOrder where
  orderBy : List String
  /-- The columns of `orderBy` that are in falling order. -/
  reverse : List String
  limit : Option Nat
  deriving DecidableEq, Repr

/-- Which rows without a partner a join keeps. -/
inductive JoinType where
  | inner
  | left
  | right
  | full
  deriving DecidableEq, Repr

namespace JoinType

def name : JoinType → String
  | inner => "INNER"
  | left => "LEFT"
  | right => "RIGHT"
  | full => "FULL"

def all : List JoinType := [inner, left, right, full]

/-- A join type by its name or a synonym, in upper or lower case. -/
def ofName (s : String) : Except Error JoinType :=
  match String.ofList (s.toList.map Char.toUpper) with
  | "INNER" => .ok inner
  | "LEFT" => .ok left
  | "RIGHT" => .ok right
  | "FULL" | "OUTER" | "FULL OUTER" => .ok full
  | _ => .error (.badSteps (.unknownJoin s))

def keepsLeft : JoinType → Bool
  | left | full => true
  | inner | right => false

def keepsRight : JoinType → Bool
  | right | full => true
  | inner | left => false

end JoinType

inductive Pipeline where
  | table (t : TableRef)
  /-- Columns added or replaced, each by the value of a formula. -/
  | extension (source : Pipeline) (assignments : List (String × Formula)) (window : Window)
  /-- The rows where a formula is true. -/
  | filter (source : Pipeline) (condition : Formula)
  | selection (source : Pipeline) (columns : List String)
  | removal (source : Pipeline) (dropped : List String)
  /-- One row for each group, of the group columns and then of aggregates. -/
  | grouping (source : Pipeline) (assignments : List (String × Formula)) (groupBy : List String)
  | ordering (source : Pipeline) (order : RowOrder)
  /-- Columns renamed, by pairs of the new and the old name. -/
  | relabeling (source : Pipeline) (pairs : List (String × String))
  /-- Rows of both sides with equal keys; other columns on both sides are taken from the
  left unless null. -/
  | join (left right : Pipeline) (keys : List String) (type : JoinType)

/-- The old name behind a name that a renaming gives out. -/
def oldName (pairs : List (String × String)) (column : String) : String :=
  ((pairs.find? (·.1 = column)).map (·.2)).getD column

def newName (pairs : List (String × String)) (column : String) : String :=
  ((pairs.find? (·.2 = column)).map (·.1)).getD column

/-- Whether a renaming gives a column a different name. -/
def isRenamed (pairs : List (String × String)) (column : String) : Bool :=
  pairs.any fun (new, old) => new == column && new != old

/-- A list with the members of a second one that it lacks. -/
def withMissing (l more : List String) : List String :=
  l ++ more.filter (!l.contains ·)

namespace Pipeline

def kind : Pipeline → Kind
  | table .. => .table
  | extension .. => .extend
  | filter .. => .selectRows
  | selection .. => .selectColumns
  | removal .. => .dropColumns
  | grouping .. => .project
  | ordering .. => .orderRows
  | relabeling .. => .renameColumns
  | join .. => .naturalJoin

def columns : Pipeline → List String
  | table t => t.columns
  | extension source assignments _ => withMissing source.columns (assignments.map (·.1))
  | filter source _ => source.columns
  | selection _ columns => columns
  | removal source dropped => source.columns.filter (!dropped.contains ·)
  | grouping _ assignments groupBy => groupBy ++ assignments.map (·.1)
  | ordering source _ => source.columns
  | relabeling source pairs => source.columns.map (newName pairs)
  | join left right _ _ => withMissing left.columns right.columns

def columnSet (p : Pipeline) : NameSet := .ofList p.columns

def hasColumn (p : Pipeline) (name : String) : Bool := p.columns.contains name

/-- The pipelines that the last step reads: two for a join, none for a table. -/
def sources : Pipeline → List Pipeline
  | table _ => []
  | extension source _ _ | filter source _ | selection source _ | removal source _
  | grouping source _ _ | ordering source _ | relabeling source _ => [source]
  | join left right _ _ => [left, right]

/-- The tables that a pipeline reads; of a join the right side comes first. -/
def leaves : Pipeline → List TableRef
  | table t => [t]
  | extension source _ _ | filter source _ | selection source _ | removal source _
  | grouping source _ _ | ordering source _ | relabeling source _ => source.leaves
  | join left right _ _ => right.leaves ++ left.leaves

/-- Tables put under their keys; two of one key must have the same columns. -/
def gather : List TableRef → NameMap TableRef → Except Error (NameMap TableRef)
  | [], found => .ok found
  | t :: rest, found =>
    match found.get? t.key with
    | some seen =>
      if seen.columns = t.columns then gather rest found else .error (.conflictingTable t.key)
    | none => gather rest (found.insert t.key t)

def tables (p : Pipeline) : Except Error (NameMap TableRef) := gather p.leaves .empty

end Pipeline

end TableFlow
