import TableFlow.NameSet
import TableFlow.Value.Order

/-!
# Formulas over columns

A formula is a constant, a column, or a function or operator applied to formulas. An
operator and a function of one name are different heads: `Form` tells them apart.
-/

namespace TableFlow

/-- Whether a name is applied as an operator between two arguments or as a function. -/
inductive Form where
  | operator
  | call
  deriving DecidableEq, Repr

inductive Formula where
  | constant (v : Value)
  | column (name : String)
  | apply (name : String) (args : List Formula) (form : Form)

namespace Formula

/-- The operators written between their arguments. -/
def operatorNames : List String :=
  ["+", "-", "*", "/", "%", "==", "!=", "<", "<=", ">", ">=", "and", "or"]

/-- The functions that make one value of a whole column. -/
def aggregateNames : List String :=
  ["sum", "mean", "avg", "min", "max", "count"]

/-- The words that read as literals or operators. -/
def keywords : List String :=
  ["and", "or", "not", "true", "false", "null", "None", "nan", "inf"]

/-! ## Building -/

def binary (name : String) (a b : Formula) : Formula := apply name [a, b] .operator

def call (name : String) (args : List Formula) : Formula := apply name args .call

def int (i : Int64) : Formula := constant (.int i)

/-- The opposite: of a constant number the number itself, else a difference from zero. -/
def negate : Formula → Formula
  | constant (.int i) =>
    match Value.ofInt? (-i.toInt) with
    | some v => constant v
    | none => binary "-" (int 0) (int i)
  | constant (.float x) => constant (.float (-x))
  | other => binary "-" (int 0) other

/-- The number of a row within its window, from one on. -/
def rowNumber : Formula := call "row_number" []

def ifElse (condition whenTrue whenFalse : Formula) : Formula :=
  call "if_else" [condition, whenTrue, whenFalse]

/-! ## Looking at -/

def head? : Formula → Option String
  | apply name _ _ => some name
  | _ => none

def args : Formula → List Formula
  | apply _ args _ => args
  | _ => []

/-- The name of a formula that is just a column. -/
def asColumn? : Formula → Option String
  | column name => some name
  | _ => none

/-- A call of a function that makes one value of a whole column. -/
def isAggregate : Formula → Bool
  | apply name _ .call => aggregateNames.contains name
  | _ => false

/-- A call that is answered over a window, not row by row: an aggregate, or a function
without arguments. -/
def isWindowCall : Formula → Bool
  | apply name args .call => args.isEmpty || aggregateNames.contains name
  | _ => false

mutual

/-- The columns of a formula, in the order of their appearance. -/
def columnList : Formula → List String
  | constant _ => []
  | column name => [name]
  | apply _ args _ => columnLists args

def columnLists : List Formula → List String
  | [] => []
  | e :: rest => columnList e ++ columnLists rest

end

def columns (e : Formula) : NameSet := .ofList e.columnList

def columnsOfAll (es : List Formula) : NameSet := .ofList (columnLists es)

mutual

/-- Equality of formulas; constants are compared by `Value.equal`. -/
def equal : Formula → Formula → Bool
  | constant a, constant b => a.equal b
  | column a, column b => a == b
  | apply f as p, apply g bs q => f == g && equalAll as bs && p == q
  | _, _ => false

def equalAll : List Formula → List Formula → Bool
  | [], [] => true
  | a :: as, b :: bs => equal a b && equalAll as bs
  | _, _ => false

end

end Formula

end TableFlow
