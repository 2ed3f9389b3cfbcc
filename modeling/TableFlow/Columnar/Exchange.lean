import TableFlow.Columnar.Batch
import TableFlow.Eval.Error
import TableFlow.Table.Basic

/-!
# Tables and batches

`Batch.ofTable` writes a table as a batch: each column takes the least type that holds all
its values, where a double holds an integer too. `Batch.toTable` reads a batch of any
numbers, truth values and text.
-/

namespace TableFlow.Columnar

/-- The types that columns of a table are written with. -/
inductive CellType where
  | null
  | boolean
  | int64
  | float64
  | text
  deriving DecidableEq, Repr

namespace CellType

/-- The type's name in messages about columns that mix types. -/
def label : CellType → String
  | null => "null"
  | boolean => "bool"
  | int64 => "int"
  | float64 => "float"
  | text => "str"

def ofValue : Value → CellType
  | .null => null
  | .bool _ => boolean
  | .int _ => int64
  | .float _ => float64
  | .text _ => text

/-- The least type that holds the values of two types, if there is one. -/
def join? : CellType → CellType → Option CellType
  | null, t => some t
  | t, null => some t
  | int64, float64 => some float64
  | float64, int64 => some float64
  | s, t => if s = t then some t else none

/-- The least type that holds all values, or the first two types that do not go together. -/
def ofValues (found : CellType) : List Value → Except (CellType × CellType) CellType
  | [] => .ok found
  | v :: rest =>
    match found.join? (ofValue v) with
    | some t => ofValues t rest
    | none => .error (found, ofValue v)

/-- Values as the entries of a type; a value that the type does not hold is missing. -/
def encode (type : CellType) (values : List Value) : Entries :=
  match type with
  | null => .null values.length
  | boolean => .boolean (values.map Value.toBool?)
  | int64 => .integer Columnar.int64 (values.map fun
    | .int i => some i.toInt
    | _ => none)
  | float64 => .float .float64 (values.map Value.toFloat?)
  | text => .text .utf8 (values.map Value.toText?)

end CellType

def Series.ofColumn (c : Column) : Except EvalError Series :=
  match CellType.ofValues .null c.cells with
  | .ok type => .ok ⟨c.name, type.encode c.cells⟩
  | .error (left, right) =>
    .error (.typeMismatch ("Arrow column '" ++ c.name ++ "'") left.label right.label)

/-- The values of the entries, if they have any type but that of dates. Integers beyond 64
bits with a sign count as missing. -/
def Entries.toValues? : Entries → Option (List Value)
  | null count => some (List.replicate count .null)
  | boolean l => some (l.map fun e => e.elim .null .bool)
  | integer _ l => some (l.map fun e => (e.bind Value.ofInt?).getD .null)
  | float _ l => some (l.map fun e => e.elim .null .float)
  | text _ l => some (l.map fun e => e.elim .null .text)
  | date _ => none

def Series.toColumn (s : Series) : Except EvalError Column :=
  match s.entries.toValues? with
  | some cells => .ok ⟨s.name, cells⟩
  | none => .error (.unsupportedType s.entries.typeName s.name)

namespace Batch

/-- A table with at least one column as a batch. -/
def ofTable (t : Table) : Except EvalError Batch := do
  let series ← t.columns.mapM Series.ofColumn
  if series.isEmpty then .error .emptyBatch
  .ok ⟨series⟩

def toTable (b : Batch) : Except EvalError Table := do
  let columns ← b.series.mapM Series.toColumn
  (Table.ofColumns columns).mapError .model

end Batch

end TableFlow.Columnar
