import TableFlow.Value.Basic

/-!
# Columnar batches

A batch holds typed columns whose entries may be missing. The types are those of the common
columnar memory format: numbers of several widths, truth values, text in three layouts,
dates, and a type for columns that hold nothing.
-/

namespace TableFlow.Columnar

/-- Integers of a number of bits. -/
structure IntegerType where
  signed : Bool
  bits : Nat
  deriving DecidableEq, Repr

def int64 : IntegerType := ⟨true, 64⟩

/-- The widths of doubles. -/
inductive FloatType where
  | float32
  | float64
  deriving DecidableEq, Repr

/-- The layouts of text. -/
inductive TextType where
  | utf8
  | largeUtf8
  | utf8View
  deriving DecidableEq, Repr

inductive Entries where
  | null (count : Nat)
  | boolean (entries : List (Option Bool))
  | integer (type : IntegerType) (entries : List (Option Int))
  | float (type : FloatType) (entries : List (Option Float))
  | text (type : TextType) (entries : List (Option String))
  /-- Days since the start of 1970. -/
  | date (entries : List (Option Int))

namespace Entries

def typeName : Entries → String
  | null _ => "Null"
  | boolean _ => "Boolean"
  | integer type _ => (if type.signed then "Int" else "UInt") ++ toString type.bits
  | float .float32 _ => "Float32"
  | float .float64 _ => "Float64"
  | text .utf8 _ => "Utf8"
  | text .largeUtf8 _ => "LargeUtf8"
  | text .utf8View _ => "Utf8View"
  | date _ => "Date32"

def length : Entries → Nat
  | null count => count
  | boolean l => l.length
  | integer _ l => l.length
  | float _ l => l.length
  | text _ l => l.length
  | date l => l.length

end Entries

/-- A typed column under a name; any entry may be missing. -/
structure Series where
  name : String
  entries : Entries

/-- A list of typed columns of one length. -/
structure Batch where
  series : List Series

namespace Batch

def numRows (b : Batch) : Nat := (b.series.head?.map (·.entries.length)).getD 0

end Batch

end TableFlow.Columnar
