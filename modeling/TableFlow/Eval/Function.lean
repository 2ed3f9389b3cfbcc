import TableFlow.Eval.Error
import TableFlow.Value.Order

/-!
# Functions on cells

Null goes through arithmetic and comparisons, and `and`, `or` and `not` have three truth
values. Integer arithmetic is exact where the result has 64 bits and goes over to doubles
elsewhere. A division gives a double; a division by zero gives null.
-/

namespace TableFlow.Eval

def mismatch {α : Type} (operation : String) (a b : Value) : Except EvalError α :=
  .error (.typeMismatch operation a.typeName b.typeName)

/-! ## Logic -/

/-- A truth value or null, as a third truth value. -/
def truth? : Value → Option (Option Bool)
  | .null => some none
  | .bool b => some (some b)
  | _ => none

def ofTruth : Option Bool → Value
  | none => .null
  | some b => .bool b

/-- False if one is false, true if both are true, else unknown. -/
def and3 : Option Bool → Option Bool → Option Bool
  | some false, _ => some false
  | _, some false => some false
  | some true, some true => some true
  | _, _ => none

/-- True if one is true, false if both are false, else unknown. -/
def or3 : Option Bool → Option Bool → Option Bool
  | some true, _ => some true
  | _, some true => some true
  | some false, some false => some false
  | _, _ => none

def logic (name : String) (combine : Option Bool → Option Bool → Option Bool) (a b : Value) :
    Except EvalError Value :=
  match truth? a, truth? b with
  | some p, some q => .ok (ofTruth (combine p q))
  | _, _ => mismatch name a b

/-! ## Comparison -/

/-- Whether an outcome of the comparison makes an operator true. -/
def holds? : String → Option (Ordering → Bool)
  | "==" => some (· == .eq)
  | "!=" => some (· != .eq)
  | "<" => some (· == .lt)
  | "<=" => some (· != .gt)
  | ">" => some (· == .gt)
  | ">=" => some (· != .lt)
  | _ => none

/-- A comparison; null where the values cannot be compared. -/
def comparison (holds : Ordering → Bool) (a b : Value) : Value :=
  match a.compare? b with
  | some o => .bool (holds o)
  | none => .null

/-! ## Arithmetic -/

inductive Arithmetic where
  | add
  | sub
  | mul
  | div
  | rem
  deriving DecidableEq, Repr

namespace Arithmetic

def name : Arithmetic → String
  | add => "+"
  | sub => "-"
  | mul => "*"
  | div => "/"
  | rem => "%"

def ofName? : String → Option Arithmetic
  | "+" => some add
  | "-" => some sub
  | "*" => some mul
  | "/" => some div
  | "%" => some rem
  | _ => none

def onFloats (op : Arithmetic) (x y : Float) : Value :=
  match op with
  | add => .float (x + y)
  | sub => .float (x - y)
  | mul => .float (x * y)
  | div => if y == 0.0 then .null else .float (x / y)
  | rem => if y == 0.0 then .null else .float (Number.remainder x y)

/-- The integer result, where there is one: a quotient is no integer. -/
def integerResult? (op : Arithmetic) (x y : Int) : Option Int :=
  match op with
  | add => some (x + y)
  | sub => some (x - y)
  | mul => some (x * y)
  | div => none
  | rem => some (x.tmod y)

/-- The operation on integers. The remainder of the least integer by minus one counts as
beyond 64 bits, since the quotient is. -/
def onInts (op : Arithmetic) (x y : Int64) : Value :=
  if op = rem ∧ y = 0 then .null
  else if op = rem ∧ x = Int64.minValue ∧ y = -1 then
    op.onFloats (Number.ofInt64 x) (Number.ofInt64 y)
  else ((op.integerResult? x.toInt y.toInt).bind Value.ofInt?).getD
    (op.onFloats (Number.ofInt64 x) (Number.ofInt64 y))

def apply (op : Arithmetic) (a b : Value) : Except EvalError Value :=
  match a, b with
  | .null, _ => .ok .null
  | _, .null => .ok .null
  | .int x, .int y => .ok (op.onInts x y)
  | a, b =>
    match a.toFloat?, b.toFloat? with
    | some x, some y => .ok (op.onFloats x y)
    | _, _ => mismatch op.name a b

end Arithmetic

def binary (name : String) (a b : Value) : Except EvalError Value :=
  if name = "and" then logic name and3 a b
  else if name = "or" then logic name or3 a b
  else match holds? name, Arithmetic.ofName? name with
    | some holds, _ => .ok (comparison holds a b)
    | _, some op => op.apply a b
    | none, none => .error (.unknownFunction name 2)

/-! ## Named functions -/

def onNumber (name : String) (f : Float → Float) (v : Value) : Except EvalError Value :=
  match v, v.toFloat? with
  | .null, _ => .ok .null
  | _, some x => .ok (.float (f x))
  | v, none => mismatch name v .null

def opposite (name : String) (v : Value) : Except EvalError Value :=
  match truth? v with
  | some p => .ok (ofTruth (p.map (!·)))
  | none => mismatch name v .null

/-- A function that is exact on integers whose result has 64 bits. -/
def onSigned (name : String) (g : Int → Int) (f : Float → Float) (v : Value) :
    Except EvalError Value :=
  match v with
  | .int i => .ok ((Value.ofInt? (g i.toInt)).getD (.float (f (Number.ofInt64 i))))
  | v => onNumber name f v

def unary? : String → Option (String → Value → Except EvalError Value)
  | "not" => some opposite
  | "neg" => some fun name => onSigned name (- ·) (- ·)
  | "abs" => some fun name => onSigned name (fun i => i.natAbs) Float.abs
  | "exp" => some fun name => onNumber name Float.exp
  | "log" | "ln" => some fun name => onNumber name Float.log
  | "sqrt" => some fun name => onNumber name Float.sqrt
  | "floor" => some fun name => onNumber name Number.floor
  | "ceil" => some fun name => onNumber name Number.ceil
  | "round" => some fun name => onNumber name Number.round
  | "is_null" => some fun _ v => .ok (.bool v.isNull)
  | _ => none

/-- The second value if the first is true, the third if it is false, null if it is null. -/
def ifElse (name : String) (condition whenTrue whenFalse : Value) : Except EvalError Value :=
  match condition with
  | .null => .ok .null
  | .bool true => .ok whenTrue
  | .bool false => .ok whenFalse
  | v => mismatch name v .null

/-- The first value that is not null. -/
def coalesce (vs : List Value) : Value :=
  (vs.find? (!·.isNull)).getD .null

def call (name : String) (vs : List Value) : Except EvalError Value :=
  if name = "coalesce" then .ok (coalesce vs)
  else if name = "if_else" then
    match vs with
    | [c, a, b] => ifElse name c a b
    | _ => .error (.unknownFunction name vs.length)
  else match unary? name, vs with
    | some f, [v] => f name v
    | _, _ => .error (.unknownFunction name vs.length)

/-! ## Aggregates -/

/-- The sum, exact as long as it is an integer of 64 bits; null of nothing. -/
def sum : List Value → Except EvalError Value
  | [] => .ok .null
  | vs => vs.foldlM Arithmetic.add.apply (.int 0)

/-- The sum of the values as doubles. -/
def floatSum (name : String) : Float → List Value → Except EvalError Float
  | total, [] => .ok total
  | total, v :: rest =>
    match v.toFloat? with
    | some x => floatSum name (total + x) rest
    | none => mismatch name v .null

/-- The mean as a double; null of nothing. -/
def mean (name : String) : List Value → Except EvalError Value
  | [] => .ok .null
  | vs => do
    let total ← floatSum name 0.0 vs
    .ok (.float (total / Number.ofInt vs.length))

/-- The value that no later one goes beyond: later values replace it where they compare as
wanted. -/
def best (wanted : Ordering) (vs : List Value) : Value :=
  match vs with
  | [] => .null
  | v :: rest => rest.foldl (fun b v => if v.compare? b = some wanted then v else b) v

/-- An aggregate of the values of a column, nulls left out. -/
def aggregate (name : String) (vs : List Value) : Except EvalError Value :=
  let present := vs.filter (!·.isNull)
  match name with
  | "count" => .ok (.int (Int64.ofNat present.length))
  | "sum" => sum present
  | "mean" | "avg" => mean name present
  | "min" => .ok (best .lt present)
  | "max" => .ok (best .gt present)
  | _ => .error (.unknownAggregate name)

end TableFlow.Eval
