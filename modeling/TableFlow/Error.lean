import TableFlow.Formula.Token

/-!
# Errors of tables, formulas and pipelines

Each constructor is a cause; `Error.message` is its one wording, with a code of its own
for each kind of error.
-/

namespace TableFlow

inductive Kind where
  | table
  | extend
  | selectRows
  | selectColumns
  | dropColumns
  | project
  | orderRows
  | renameColumns
  | naturalJoin
  deriving DecidableEq, Repr

/-- The kind's name, in messages and in stored pipelines. -/
def Kind.name : Kind → String
  | .table => "TableDescription"
  | .extend => "Extend"
  | .selectRows => "SelectRows"
  | .selectColumns => "SelectColumns"
  | .dropColumns => "DropColumns"
  | .project => "Project"
  | .orderRows => "OrderRows"
  | .renameColumns => "RenameColumns"
  | .naturalJoin => "NaturalJoin"

/-- The list of names, or the step, that a complaint is about. -/
inductive Place where
  | tableNamed (name : String)
  | data
  | extend
  | partitionBy
  | orderBy
  | reverse
  | selectRows
  | selectColumns
  | dropColumns
  | project
  | groupBy
  | orderRows
  | renameColumns
  | joinKeys
  | step (kind : Kind)
  deriving DecidableEq, Repr

def Place.label : Place → String
  | .tableNamed name => "table '" ++ name ++ "'"
  | .data => "table"
  | .extend => "extend"
  | .partitionBy => "partition_by"
  | .orderBy => "order_by"
  | .reverse => "reverse"
  | .selectRows => "select_rows"
  | .selectColumns => "select_columns"
  | .dropColumns => "drop_columns"
  | .project => "project"
  | .groupBy => "group_by"
  | .orderRows => "order_rows"
  | .renameColumns => "rename_columns"
  | .joinKeys => "natural_join by"
  | .step kind => kind.name

inductive Side where
  | left
  | right
  deriving DecidableEq, Repr

def Side.name : Side → String
  | .left => "left"
  | .right => "right"

/-- Why columns do not make up a table. -/
inductive TableFault where
  | emptyName
  | duplicateColumn (name : String)
  | ragged (name : String) (rows expected : Nat)
  | rowWidth (row values expected : Nat)
  deriving DecidableEq, Repr

def TableFault.message : TableFault → String
  | .emptyName => "table name is empty"
  | .duplicateColumn name => "duplicate column '" ++ name ++ "'"
  | .ragged name rows expected =>
    "column '" ++ name ++ "' has " ++ toString rows ++ " rows, expected " ++ toString expected
  | .rowWidth row values expected =>
    "row " ++ toString row ++ " has " ++ toString values ++ " values, expected "
      ++ toString expected

/-- Why a list of stored steps is no pipeline. -/
inductive StepsFault where
  | unknownJoin (name : String)
  | empty
  | keyMismatch (stored key : String)
  | noTableFirst (found : Kind)
  | tableLater
  deriving DecidableEq, Repr

def StepsFault.message : StepsFault → String
  | .unknownJoin name => "unknown join type '" ++ name ++ "'"
  | .empty => "empty pipeline"
  | .keyMismatch stored key => "table key '" ++ stored ++ "' does not match '" ++ key ++ "'"
  | .noTableFirst found =>
    "pipeline must start with a TableDescription, found " ++ found.name
  | .tableLater => "TableDescription may only appear as the first step"

inductive Error where
  | noColumns (place : Place)
  /-- Dropping columns would leave none. -/
  | nothingLeft
  | duplicateColumn (place : Place) (name : String)
  | unknownColumns (place : Place) (names : List String)
  | reverseNotOrdered (names : List String)
  | noOperations (place : Place)
  | joinKeysMissing (side : Side) (names : List String)
  | assignsWindowColumn (name : String)
  | renameCollision (name : String)
  | badFormula (offset : Nat) (fault : Formula.SyntaxFault)
  | unknownName (name : String)
  | badTable (fault : TableFault)
  | conflictingTable (key : String)
  | badSteps (fault : StepsFault)
  | fileAccess (path : String)
  /-- The text is no YAML document of the wanted shape. -/
  | badYaml
  /-- The text is no JSON document of the wanted shape. -/
  | badJson
  deriving DecidableEq

/-- Names as a list in messages: `['a', 'b']`. -/
def nameList (names : List String) : String :=
  "[" ++ ", ".intercalate (names.map fun n => "'" ++ n ++ "'") ++ "]"

def Error.message : Error → String
  | .noColumns place => "[C001] " ++ place.label ++ ": no column names"
  | .nothingLeft => "[C001] drop_columns would remove every column: no column names"
  | .duplicateColumn place name =>
    "[C002] " ++ place.label ++ ": duplicate column name '" ++ name ++ "'"
  | .unknownColumns place names =>
    "[C003] " ++ place.label ++ ": referred to unknown columns: " ++ nameList names
  | .reverseNotOrdered names => "[C004] reverse columns not in order_by: " ++ nameList names
  | .noOperations place => "[C005] " ++ place.label ++ ": no operations"
  | .joinKeysMissing side names =>
    "[C006] " ++ side.name ++ " table missing join keys: " ++ nameList names
  | .assignsWindowColumn name => "[C007] extend: cannot assign to window column '" ++ name ++ "'"
  | .renameCollision name =>
    "[C008] rename_columns: new name '" ++ name ++ "' collides with an existing column"
  | .badFormula offset fault =>
    "[C009] expression parse error at offset " ++ toString offset ++ ": " ++ fault.message
  | .unknownName name =>
    "[C010] unknown name '" ++ name ++ "' (not a column or a context value)"
  | .badTable fault => "[C011] invalid table: " ++ fault.message
  | .conflictingTable key => "[C012] conflicting definitions for table '" ++ key ++ "'"
  | .badSteps fault => "[C013] invalid pipeline representation: " ++ fault.message
  | .fileAccess path => "[C014] Failed to access '" ++ path ++ "'"
  | .badYaml => "[C015] YAML error"
  | .badJson => "[C016] JSON error"

end TableFlow
