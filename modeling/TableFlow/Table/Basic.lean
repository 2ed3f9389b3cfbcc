import TableFlow.Error
import TableFlow.NameSet
import TableFlow.Table.Sorting
import TableFlow.Value.Order

/-!
# Tables

A table is an ordered list of named columns. `Table.ofColumns` accepts columns of one
length with different names (`Table.WellFormed`); the operations keep to that except that
`renameColumn` does not look for the new name. Two tables are equivalent if they have the same
column names, in any order, and the same rows, in any order, up to a tolerance between numbers.
-/

namespace TableFlow

structure Column where
  name : String
  cells : List Value
  deriving DecidableEq

structure Table where
  columns : List Column
  deriving DecidableEq

namespace Table

def names (t : Table) : List String := t.columns.map (·.name)

def numRows (t : Table) : Nat := (t.columns.head?.map (·.cells.length)).getD 0

def numColumns (t : Table) : Nat := t.columns.length

/-- Columns of one length under different names. -/
structure WellFormed (t : Table) : Prop where
  nodup : t.names.Nodup
  even : ∀ c ∈ t.columns, c.cells.length = t.numRows

def empty : Table := ⟨[]⟩

/-- A table of the columns, if their names differ and their lengths agree. -/
def ofColumns (columns : List Column) : Except Error Table :=
  match firstRepeat? [] (columns.map (·.name)) with
  | some name => .error (.badTable (.duplicateColumn name))
  | none =>
    let n := numRows ⟨columns⟩
    match columns.find? (·.cells.length ≠ n) with
    | some c => .error (.badTable (.ragged c.name c.cells.length n))
    | none => .ok ⟨columns⟩

/-- The position and the width of the first row that does not have `width` cells. -/
def badRow? (width : Nat) (rows : List (List Value)) : Option (Nat × Nat) :=
  (rows.zipIdx.find? (·.1.length ≠ width)).map fun (row, i) => (i, row.length)

/-- A table of named columns from its rows. -/
def ofRows (names : List String) (rows : List (List Value)) : Except Error Table :=
  match badRow? names.length rows with
  | some (i, n) => .error (.badTable (.rowWidth i n names.length))
  | none => ofColumns (names.zipIdx.map fun (name, i) => ⟨name, rows.filterMap (·[i]?)⟩)

def column? (t : Table) (name : String) : Option Column :=
  t.columns.find? (·.name = name)

def columnIndex? (t : Table) (name : String) : Option Nat :=
  t.columns.findIdx? (·.name = name)

def cells? (t : Table) (name : String) : Option (List Value) :=
  (t.column? name).map (·.cells)

/-- A row; none beyond the end of a column. -/
def row? (t : Table) (i : Nat) : Option (List Value) :=
  t.columns.mapM (·.cells[i]?)

def rows (t : Table) : List (List Value) :=
  (List.range t.numRows).filterMap t.row?

/-- The named columns in the given order. -/
def select (t : Table) (names : List String) : Except Error Table :=
  match names.filter fun n => (t.column? n).isNone with
  | [] => ofColumns (names.filterMap t.column?)
  | missing => .error (.unknownColumns .data missing)

/-- The rows at the given positions, which may repeat; none beyond the end. -/
def take? (t : Table) (positions : List Nat) : Option Table :=
  (t.columns.mapM fun c => (positions.mapM (c.cells[·]?)).map fun cells =>
    { c with cells := cells }).map Table.mk

/-- The cells of the named column replaced, or a column added at the end. -/
def setColumn (t : Table) (name : String) (cells : List Value) : Except Error Table :=
  if t.columns ≠ [] ∧ cells.length ≠ t.numRows then
    .error (.badTable (.ragged name cells.length t.numRows))
  else match t.columnIndex? name with
    | some i => .ok ⟨t.columns.modify i fun c => { c with cells := cells }⟩
    | none => .ok ⟨t.columns ++ [⟨name, cells⟩]⟩

/-- The table without the named column, and that column. -/
def removeColumn (t : Table) (name : String) : Table × Option Column :=
  match t.columnIndex? name with
  | some i => (⟨t.columns.eraseIdx i⟩, t.columns[i]?)
  | none => (t, none)

/-- The table with a column under a new name; unchanged without that column. -/
def renameColumn (t : Table) (old new : String) : Table :=
  match t.columnIndex? old with
  | some i => ⟨t.columns.modify i fun c => { c with name := new }⟩
  | none => t

/-- Equality of tables, cell by cell with `Value.equal`. -/
def equal (a b : Table) : Bool :=
  a.names == b.names && (a.columns.zip b.columns).all fun (c, d) =>
    c.cells.length == d.cells.length && (c.cells.zip d.cells).all fun (x, y) => x.equal y

/-- Rows in the sort order of their cells. -/
def sortRows? (rows : List (List Value)) : Option (List (List Value)) :=
  sort? 24 (fun a b => Value.compareRows a b == .lt) rows

def nearRow (tolerance : Float) (a b : List Value) : Bool :=
  (a.zip b).all fun (x, y) => x.near tolerance y

/-- Whether two tables hold the same rows in any order: both are sorted and compared row
by row. None if a sort gave up. -/
def equivalent? (tolerance : Float) (a b : Table) : Option Bool :=
  if a.numColumns ≠ b.numColumns ∨ a.numRows ≠ b.numRows then some false
  else match b.select a.names with
    | .error _ => some false
    | .ok b => do
      let left ← sortRows? a.rows
      let right ← sortRows? b.rows
      return (left.zip right).all fun (x, y) => nearRow tolerance x y

end Table

end TableFlow
