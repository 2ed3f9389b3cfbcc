import TableFlow.Value.Basic

/-!
# Comparing values

`compare?` is the comparison of formulas: it knows no answer for null, for NaN and across
types. `sortCompare` orders any two values, for sorting and grouping: truth values, then
numbers, then text, and missing values last and equal to each other. `near` is equality
up to a tolerance between numbers.
-/

namespace TableFlow.Value

/-- The comparison of two present values of one kind; two integers are compared exactly,
other numbers as doubles. -/
def compare? : Value → Value → Option Ordering
  | int a, int b => some (compare a.toInt b.toInt)
  | bool a, bool b => some (compare a b)
  | text a, text b => some (compareOfLessAndEq a b)
  | a, b =>
    match a.toFloat?, b.toFloat? with
    | some x, some y => Number.partialCompare x y
    | _, _ => none

def kindRank : Value → Nat
  | bool _ => 0
  | int _ => 1
  | float _ => 1
  | text _ => 2
  | null => 3

/-- The sort order of two values that are not missing. -/
def presentCompare : Value → Value → Ordering
  | int a, int b => compare a.toInt b.toInt
  | bool a, bool b => compare a b
  | text a, text b => compareOfLessAndEq a b
  | a, b =>
    match a.toFloat?, b.toFloat? with
    | some x, some y => Number.totalCompare x y
    | _, _ => compare a.kindRank b.kindRank

/-- The sort order: missing values come last and are equal to each other. -/
def sortCompare (a b : Value) : Ordering :=
  match a.isMissing, b.isMissing with
  | true, true => .eq
  | true, false => .gt
  | false, true => .lt
  | false, false => presentCompare a b

/-- Rows in lexicographic order of their cells; the shorter of two that agree is first. -/
def compareRows : List Value → List Value → Ordering
  | [], [] => .eq
  | [], _ :: _ => .lt
  | _ :: _, [] => .gt
  | a :: as, b :: bs =>
    match sortCompare a b with
    | .eq => compareRows as bs
    | other => other

/-- Equality of cells: doubles are equal as numbers, so NaN equals nothing, and an integer
never equals a double. -/
def equal : Value → Value → Bool
  | null, null => true
  | bool a, bool b => a == b
  | int a, int b => a == b
  | float a, float b => a == b
  | text a, text b => a == b
  | _, _ => false

/-- Equality up to a tolerance between numbers. Missing values are near each other, and
two integers only if they are equal. -/
def near (tolerance : Float) (a b : Value) : Bool :=
  if a.isMissing && b.isMissing then true
  else match a, b with
    | int a, int b => a == b
    | a, b =>
      match a.toFloat?, b.toFloat? with
      | some x, some y => (x - y).abs ≤ tolerance
      | _, _ => equal a b

end TableFlow.Value
