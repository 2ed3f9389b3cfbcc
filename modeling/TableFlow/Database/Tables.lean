import TableFlow.Database.Engine
import TableFlow.Sql.Compile
import TableFlow.Table.Basic

/-!
# Tables in a database

`Session.queryTable` reads the rows of a query as a table and `Session.createTable` writes a
table: each column is declared with the least type that holds all its values, then every row
is inserted. `Session.loadTables` creates the tables that a pipeline reads, each with a schema
if it has one, and `Session.runPipeline` runs the pipeline's SQL.
-/

namespace TableFlow.Database

/-! ## Column types -/

/-- The types that columns are declared with. -/
inductive ColumnType where
  | boolean
  | bigint
  | double
  | varchar
  deriving DecidableEq, Repr

namespace ColumnType

def name : ColumnType → String
  | boolean => "BOOLEAN"
  | bigint => "BIGINT"
  | double => "DOUBLE"
  | varchar => "VARCHAR"

/-- The type of a value; null has none. -/
def ofValue? : Value → Option ColumnType
  | .null => none
  | .bool _ => some boolean
  | .int _ => some bigint
  | .float _ => some double
  | .text _ => some varchar

/-- The least type that holds the values of two types, if there is one. -/
def widen? (s t : ColumnType) : Option ColumnType :=
  match s, t with
  | bigint, double | double, bigint => some double
  | s, t => if s = t then some s else none

/-- The least type of the values after those of a type found so far, or the first two types
that do not go together. -/
def ofValues (found : Option ColumnType) :
    List Value → Except (ColumnType × ColumnType) (Option ColumnType)
  | [] => .ok found
  | v :: rest =>
    match ofValue? v, found with
    | none, _ => ofValues found rest
    | some t, none => ofValues (some t) rest
    | some t, some s =>
      match s.widen? t with
      | some u => ofValues (some u) rest
      | none => .error (s, t)

end ColumnType

/-- The declared type of a column; one that holds nothing but null is one of integers. -/
def columnType (c : Column) : Except DatabaseError String :=
  match ColumnType.ofValues none c.cells with
  | .ok type => .ok (type.elim "INTEGER" ColumnType.name)
  | .error (s, t) => .error (.unsupportedValue c.name ("mixed " ++ s.name ++ " and " ++ t.name))

def quotedName (name : String) : String :=
  "\"" ++ String.ofList (name.toList.flatMap fun c => if c = '"' then ['"', '"'] else [c])
    ++ "\""

def definition (c : Column) : Except DatabaseError String := do
  .ok (quotedName c.name ++ " " ++ (← columnType c))

/-! ## Rows -/

/-- The values of the cells of a row from a position on, under the names of their columns. -/
def rowValues (position : Nat) : List String → List Cell → Except DatabaseError (List Value)
  | [], _ => .ok []
  | _ :: _, [] => .error (.failed ("Invalid column index: " ++ toString position))
  | name :: names, cell :: cells =>
    match cell.toValue? with
    | some v => do .ok (v :: (← rowValues (position + 1) names cells))
    | none => .error (.unsupportedValue name cell.display)

/-- Rows as a table. -/
def Rows.toTable (r : Rows) : Except DatabaseError Table := do
  let rows ← r.rows.mapM (rowValues 0 r.names)
  (Table.ofRows r.names rows).mapError .model

namespace Session

def queryTable (sql : String) : Session Table := do
  prepare sql
  let rows ← query []
  ofExcept rows.toTable

def readTable (name : String) : Session Table := queryTable ("SELECT * FROM " ++ name)

def createStatement (name : String) (definitions : List String) (replace : Bool) : String :=
  (if replace then "CREATE OR REPLACE TABLE " else "CREATE TABLE ") ++ name ++ " ("
    ++ ", ".intercalate definitions ++ ")"

/-- The statement that inserts a row of so many cells. -/
def insertStatement (name : String) (width : Nat) : String :=
  "INSERT INTO " ++ name ++ " VALUES (" ++ ", ".intercalate (List.replicate width "?") ++ ")"

/-- Creates a table with the columns and the rows of a given one. -/
def createTable (name : String) (t : Table) (replace : Bool) : Session Unit := do
  let definitions ← ofExcept (t.columns.mapM definition)
  let _ ← execute (createStatement name definitions replace)
  if t.numRows ≠ 0 then
    prepare (insertStatement name t.numColumns)
    t.rows.forM fun row => runPrepared (row.map Cell.ofValue)

/-! ## Relations -/

/-- The schema and the rest of a relation's name; the schema is what stands before the last
point. -/
def splitName (name : String) : String × String :=
  let reversed := name.toList.reverse
  let table := reversed.takeWhile (· != '.')
  if table.length = reversed.length then ("main", name)
  else (String.ofList (reversed.drop (table.length + 1)).reverse, String.ofList table.reverse)

/-- The text in the first cell of rows, if there are any. -/
def firstText? (r : Rows) : Except DatabaseError (Option String) :=
  match r.rows with
  | [] => .ok none
  | (.text s :: _) :: _ => .ok (some s)
  | (.enum s :: _) :: _ => .ok (some s)
  | [] :: _ => .error (.failed "Invalid column index: 0")
  | (cell :: _) :: _ =>
    .error (.failed ("Invalid column type " ++ cell.typeName ++ " at index: 0, name: "
      ++ r.names.headD ""))

/-- What kind of relation a name stands for, if it stands for one. -/
def relationKind (name : String) : Session (Option String) := do
  prepare ("SELECT table_type FROM information_schema.tables "
    ++ "WHERE table_schema = ? AND table_name = ?")
  let (schema, table) := splitName name
  ofExcept (firstText? (← query [.text schema, .text table]))

def relationExists (name : String) : Session Bool := do
  return (← relationKind name).isSome

/-- Drops the relation of a name, as the kind that it is. -/
def dropIfExists (name : String) : Session Unit := do
  match ← relationKind name with
  | none => return
  | some kind =>
    let word := if kind = "VIEW" then "VIEW" else "TABLE"
    let _ ← execute ("DROP " ++ word ++ " IF EXISTS " ++ name)

def createSchema (schema : String) : Session Unit := do
  let _ ← execute ("CREATE SCHEMA IF NOT EXISTS " ++ schema)

/-! ## Pipelines -/

/-- Creates one table of a pipeline from the table bound to its key. -/
def loadTable (d : Sql.Dialect) (bindings : NameMap Table) (key : String) (t : TableRef) :
    Session Unit := do
  match bindings.get? key with
  | none => throw (.missingBinding key)
  | some bound =>
    let table ← ofExcept ((bound.select t.columns).mapError .model)
    match t.qualifiers.get? "schema" with
    | some schema => createSchema (← ofExcept ((d.quotedName schema).mapError .sql))
    | none => pure ()
    createTable (← ofExcept ((d.tableName t).mapError .sql)) table true

/-- Creates the tables that a pipeline reads, in the order of their keys. -/
def loadTables (d : Sql.Dialect) (bindings : NameMap Table) (p : Pipeline) : Session Unit := do
  let tables ← ofExcept (p.tables.mapError .model)
  tables.entries.forM fun (key, t) => loadTable d bindings key t

def runPipeline (d : Sql.Dialect) (p : Pipeline) : Session Table := do
  queryTable (← ofExcept ((Sql.sqlText d p none).mapError .sql))

end Session

end TableFlow.Database
