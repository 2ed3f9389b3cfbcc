import TableFlow.Number.Decimal
import TableFlow.Text.Printable
import TableFlow.Value.Basic

/-!
# Values of a database

A database has more types than a table: integers of many widths, exact decimals, dates,
bytes and lists. `Cell.toValue?` reads those that a table can hold.
-/

namespace TableFlow.Database

/-- The integer types of a database. -/
inductive IntegerType where
  | tinyInt
  | smallInt
  | int
  | bigInt
  | hugeInt
  | uTinyInt
  | uSmallInt
  | uInt
  | uBigInt
  | uHugeInt
  deriving DecidableEq, Repr

def IntegerType.name : IntegerType → String
  | tinyInt => "TinyInt"
  | smallInt => "SmallInt"
  | int => "Int"
  | bigInt => "BigInt"
  | hugeInt => "HugeInt"
  | uTinyInt => "UTinyInt"
  | uSmallInt => "USmallInt"
  | uInt => "UInt"
  | uBigInt => "UBigInt"
  | uHugeInt => "UHugeInt"

/-- A value of a database. -/
inductive Cell where
  | null
  | boolean (b : Bool)
  | integer (type : IntegerType) (i : Int)
  | float (x : Float32)
  | double (x : Float)
  /-- The number `unscaled / 10 ^ scale`. -/
  | decimal (scale : Nat) (unscaled : Int)
  | text (s : String)
  | enum (s : String)
  /-- Days since the start of 1970. -/
  | date (days : Int)
  | blob (bytes : List Nat)
  | list (items : List Cell)

namespace Cell

def ofValue : Value → Cell
  | .null => null
  | .bool b => boolean b
  | .int i => integer .bigInt i.toInt
  | .float x => double x
  | .text s => text s

/-- A decimal as a value: a whole number without decimals, if it has 64 bits, and else the
nearest double. -/
def decimalValue (scale : Nat) (unscaled : Int) : Value :=
  let nearest := Number.signed (unscaled < 0) (Number.ofDecimal unscaled.natAbs (-scale))
  if scale = 0 then (Value.ofInt? unscaled).getD (.float nearest) else .float nearest

/-- A value that a table can hold. Integers that do not have 64 bits become doubles. -/
def toValue? : Cell → Option Value
  | null => some .null
  | boolean b => some (.bool b)
  | integer .uHugeInt _ => none
  | integer _ i => some ((Value.ofInt? i).getD (.float (Number.ofInt i)))
  | float x => some (.float x.toFloat)
  | double x => some (.float x)
  | decimal scale unscaled => some (decimalValue scale unscaled)
  | text s => some (.text s)
  | enum s => some (.text s)
  | date _ => none
  | blob _ => none
  | list _ => none

def typeName : Cell → String
  | null => "Null"
  | boolean _ => "Boolean"
  | integer type _ => type.name
  | float _ => "Float"
  | double _ => "Double"
  | decimal .. => "Decimal"
  | text _ => "Text"
  | enum _ => "Enum"
  | date _ => "Date32"
  | blob _ => "Blob"
  | list _ => "List"

/-- A whole number with a point before its last digits. -/
def decimalText (scale : Nat) (unscaled : Int) : String :=
  let digits := (toString unscaled.natAbs).toList
  let padded := List.replicate (scale + 1 - digits.length) '0' ++ digits
  let whole := padded.take (padded.length - scale)
  let fraction := padded.drop (padded.length - scale)
  (if unscaled < 0 then "-" else "") ++ String.ofList whole
    ++ (if scale = 0 then "" else "." ++ String.ofList fraction)

def floatText (x : Float32) : String :=
  if x.isNaN then "NaN"
  else if x.isInf then (if x > 0.0 then "inf" else "-inf")
  else Value.layout.fraction Number.single (Number.Binary.ofFloat32 x)

def doubleText (x : Float) : String :=
  if x.isNaN then "NaN" else Value.floatText x

def bracketed (l : List String) : String := "[" ++ ", ".intercalate l ++ "]"

mutual

/-- A value with its type, as messages show it. -/
def display : Cell → String
  | null => "Null"
  | boolean b => "Boolean(" ++ (if b then "true" else "false") ++ ")"
  | integer type i => type.name ++ "(" ++ toString i ++ ")"
  | float x => "Float(" ++ floatText x ++ ")"
  | double x => "Double(" ++ doubleText x ++ ")"
  | decimal scale unscaled => "Decimal(" ++ decimalText scale unscaled ++ ")"
  | text s => "Text(" ++ Text.quoted s ++ ")"
  | enum s => "Enum(" ++ Text.quoted s ++ ")"
  | date days => "Date32(" ++ toString days ++ ")"
  | blob bytes => "Blob(" ++ bracketed (bytes.map toString) ++ ")"
  | list items => "List(" ++ bracketed (displays items) ++ ")"

def displays : List Cell → List String
  | [] => []
  | c :: rest => display c :: displays rest

end

end Cell

end TableFlow.Database
