import TableFlow.Json.Tree
import TableFlow.Json.Write
import TableFlow.Table.Basic

/-!
# Values and tables as JSON

Values are written as themselves, a table as its columns and a column as its name and its
cells. Reading a table does not check that its columns fit together.
-/

namespace TableFlow

def Value.document : Value → Document
  | null => .null
  | bool b => .bool b
  | int i => .whole i.toInt
  | float x => .decimal x
  | text s => .text s

def Column.document (c : Column) : Document :=
  .fields [("name", .text c.name), ("values", .list (c.cells.map Value.document))]

def Table.document (t : Table) : Document :=
  .fields [("columns", .list (t.columns.map Column.document))]

namespace Json.Tree

/-- A value; whole numbers beyond 64 bits with a sign become doubles. -/
def toValue? : Tree → Option Value
  | null => some .null
  | bool b => some (.bool b)
  | number n => n.value?.map fun
    | .whole i => (Value.ofInt? i).getD (.float (Number.ofInt i))
    | .decimal x => .float x
  | text s => s.map .text
  | _ => none

def toText? : Tree → Option String
  | text s => s
  | _ => none

def items? : Tree → Option (List Tree)
  | list items => some items
  | _ => none

def toValues? (t : Tree) : Option (List Value) := do (← t.items?).mapM toValue?

/-- The values of the named fields: of a mapping that has each of them once, whatever else
it has, or of a list of as many items. -/
def parts? (names : List String) : Tree → Option (List Tree)
  | list items => if items.length = names.length then some items else none
  | map entries =>
    if entries.all (·.1.isSome) then
      names.mapM fun name =>
        match entries.filter (·.1 = some name) with
        | [(_, t)] => some t
        | _ => none
    else none
  | _ => none

def toColumn? (t : Tree) : Option Column :=
  match t.parts? ["name", "values"] with
  | some [name, values] => do some ⟨← name.toText?, ← values.toValues?⟩
  | _ => none

def toTable? (t : Tree) : Option Table :=
  match t.parts? ["columns"] with
  | some [columns] => do some ⟨← (← columns.items?).mapM toColumn?⟩
  | _ => none

end Json.Tree

def Value.ofJson (source : String) : Except Error (List Value) :=
  (do (← Json.Tree.read? source).toValues?).elim (.error .badJson) .ok

def Table.ofJson (source : String) : Except Error Table :=
  (do (← Json.Tree.read? source).toTable?).elim (.error .badJson) .ok

end TableFlow
