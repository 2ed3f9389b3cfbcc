import TableFlow.Number.Decimal

/-!
# Cell values

A cell of a table, or a constant of a formula, is null, a truth value, a 64-bit integer, a
double or text. Integers and doubles are both numbers. Null and NaN count as missing.
-/

namespace TableFlow

inductive Value where
  | null
  | bool (b : Bool)
  | int (i : Int64)
  | float (x : Float)
  | text (s : String)
  deriving DecidableEq

namespace Value

def isNull : Value → Bool
  | null => true
  | _ => false

def isMissing : Value → Bool
  | null => true
  | float x => x.isNaN
  | _ => false

def isNumeric : Value → Bool
  | int _ => true
  | float _ => true
  | _ => false

def toFloat? : Value → Option Float
  | int i => some (Number.ofInt64 i)
  | float x => some x
  | _ => none

def toBool? : Value → Option Bool
  | bool b => some b
  | _ => none

def toText? : Value → Option String
  | text s => some s
  | _ => none

def typeName : Value → String
  | null => "null"
  | bool _ => "bool"
  | int _ => "int"
  | float _ => "float"
  | text _ => "string"

/-- The integer as a value, if it has 64 bits. -/
def ofInt? (i : Int) : Option Value :=
  if Int64.minValue.toInt ≤ i ∧ i ≤ Int64.maxValue.toInt then some (int (Int64.ofInt i)) else none

theorem ofInt?_toInt (i : Int64) : ofInt? i.toInt = some (int i) := by
  simp only [ofInt?, Int64.ofInt_toInt]
  exact if_pos ⟨i.minValue_le_toInt, i.toInt_le⟩

/-! ## Text -/

/-- Doubles from `1e-4` to below `1e16` are written without an exponent. -/
def layout : Number.Layout where
  plainFrom := -4
  plainBelow := 16
  plus := ""
  tie := .up

/-- A double as text that reads back as a double: it has a point, an exponent or one of
three names. -/
def floatText (x : Float) : String :=
  if x.isNaN then "nan"
  else if x.isInf then (if x > 0.0 then "inf" else "-inf")
  else layout.finite x

/-- The text of a value; text stands for itself. -/
def display : Value → String
  | null => "null"
  | bool b => if b then "true" else "false"
  | int i => toString i.toInt
  | float x => floatText x
  | text s => s

end Value

end TableFlow
