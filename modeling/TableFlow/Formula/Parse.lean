import TableFlow.Formula.Basic
import TableFlow.Formula.Scan
import TableFlow.NameMap

/-!
# Reading formulas

From the loosest to the tightest, the levels are `or`, `and`, the operator `not` before
its operand, comparisons, sums, products, signs, and calls written after their first
argument. Operators of one level group from the left. A word or a quoted name is a column
first, then a named constant (`Scope.resolve`).
-/

namespace TableFlow.Formula

/-- The names that a formula may use. -/
structure Scope where
  columns : List String
  constants : NameMap Value

/-- A name as a column, or else as a constant. -/
def Scope.resolve (scope : Scope) (name : String) : Except Error Formula :=
  if scope.columns.contains name then .ok (column name)
  else match scope.constants.get? name with
    | some v => .ok (constant v)
    | none => .error (.unknownName name)

/-- How tightly an operator binds. -/
inductive Level where
  | or
  | and
  | not
  | comparison
  | sum
  | product
  | sign
  | call
  deriving DecidableEq, Repr

def Level.tighter : Level → Level
  | .or => .and
  | .and => .not
  | .not => .comparison
  | .comparison => .sum
  | .sum => .product
  | .product => .sign
  | .sign => .call
  | .call => .call

def Symbol.level? : Symbol → Option Level
  | .or => some .or
  | .and => some .and
  | .eq | .ne | .lt | .le | .gt | .ge => some .comparison
  | .plus | .minus => some .sum
  | .times | .divide | .percent => some .product
  | .not => none

/-- The tokens that are left to read. -/
abbrev Tokens := List Located

/-- The first token left; the end, if there is none. -/
def peek : Tokens → Token
  | [] => .eof
  | t :: _ => t.token

def failAt {α : Type} (ts : Tokens) (fault : Token → SyntaxFault) : Except Error α :=
  match ts with
  | [] => .error (.badFormula 0 (fault .eof))
  | t :: _ => .error (.badFormula t.offset (fault t.token))

def expect (wanted : Token) (ts : Tokens) : Except Error Tokens :=
  if peek ts = wanted then .ok ts.tail else failAt ts (.expected wanted)

/-- The operator of a level that comes first. -/
def operatorAt? (level : Level) (ts : Tokens) : Option Symbol :=
  (peek ts).symbol?.filter (·.level? = some level)

def literal? : String → Option Value
  | "true" => some (.bool true)
  | "false" => some (.bool false)
  | "null" => some .null
  | "None" => some .null
  | "nan" => some (.float (0.0 / 0.0))
  | "inf" => some (.float (1.0 / 0.0))
  | _ => none

/-- A whole number as a constant; beyond 64 bits with a sign it becomes a double. -/
def wholeConstant (n : Nat) : Formula :=
  constant ((Value.ofInt? n).getD (.float (Number.ofDecimal n 0)))

mutual

/-- Reads a formula whose operators outside parentheses bind at least as tightly as a
level. -/
def readAt (scope : Scope) : Nat → Level → Tokens → Except Error (Formula × Tokens)
  | 0, _, ts => failAt ts .unexpected
  | steps + 1, .not, ts =>
    if (peek ts).symbol? = some .not then do
      let (e, ts) ← readAt scope steps .not ts.tail
      .ok (call "not" [e], ts)
    else readAt scope steps .comparison ts
  | steps + 1, .sign, ts =>
    match (peek ts).symbol? with
    | some .minus =>
      if peek ts.tail = .whole 0x8000000000000000 ∧ peek ts.tail.tail ≠ .dot then
        .ok (int Int64.minValue, ts.tail.tail)
      else do
        let (e, ts) ← readAt scope steps .sign ts.tail
        .ok (negate e, ts)
    | some .plus => readAt scope steps .sign ts.tail
    | _ => readAt scope steps .call ts
  | steps + 1, .call, ts => do
    let (e, ts) ← readPrimary scope steps ts
    readMethods scope steps e ts
  | steps + 1, level, ts => do
    let (e, ts) ← readAt scope steps level.tighter ts
    readOperators scope steps level e ts

def readOperators (scope : Scope) :
    Nat → Level → Formula → Tokens → Except Error (Formula × Tokens)
  | 0, _, _, ts => failAt ts .unexpected
  | steps + 1, level, left, ts =>
    match operatorAt? level ts with
    | some s => do
      let (right, ts) ← readAt scope steps level.tighter ts.tail
      readOperators scope steps level (binary s.text left right) ts
    | none => .ok (left, ts)

def readMethods (scope : Scope) : Nat → Formula → Tokens → Except Error (Formula × Tokens)
  | 0, _, ts => failAt ts .unexpected
  | steps + 1, e, ts =>
    if peek ts = .dot then
      match peek ts.tail with
      | .word name => do
        let ts ← expect .leftParen ts.tail.tail
        let (args, ts) ← readArguments scope steps ts
        readMethods scope steps (call name (e :: args)) ts
      | _ => failAt ts.tail .expectedMethod
    else .ok (e, ts)

/-- Reads the arguments of a call after its opening parenthesis, and the closing one. -/
def readArguments (scope : Scope) : Nat → Tokens → Except Error (List Formula × Tokens)
  | 0, ts => failAt ts .unexpected
  | steps + 1, ts =>
    if peek ts = .rightParen then .ok ([], ts.tail)
    else readMoreArguments scope steps ts

/-- Reads at least one argument, and the closing parenthesis. -/
def readMoreArguments (scope : Scope) : Nat → Tokens → Except Error (List Formula × Tokens)
  | 0, ts => failAt ts .unexpected
  | steps + 1, ts => do
    let (e, ts) ← readAt scope steps .or ts
    match peek ts with
    | .comma => do
      let (rest, ts) ← readMoreArguments scope steps ts.tail
      .ok (e :: rest, ts)
    | .rightParen => .ok ([e], ts.tail)
    | _ => failAt ts .expectedCommaOrParen

/-- Reads a constant, a name, a call or a formula in parentheses. -/
def readPrimary (scope : Scope) : Nat → Tokens → Except Error (Formula × Tokens)
  | 0, ts => failAt ts .unexpected
  | steps + 1, ts =>
    match peek ts with
    | .whole n => .ok (wholeConstant n, ts.tail)
    | .decimal x => .ok (constant (.float x), ts.tail)
    | .text s => .ok (constant (.text s), ts.tail)
    | .leftParen => do
      let (e, ts) ← readAt scope steps .or ts.tail
      let ts ← expect .rightParen ts
      .ok (e, ts)
    | .name name => do
      let e ← scope.resolve name
      .ok (e, ts.tail)
    | .word name =>
      if peek ts.tail = .leftParen then do
        let (args, ts) ← readArguments scope steps ts.tail.tail
        .ok (call name args, ts)
      else match literal? name with
        | some v => .ok (constant v, ts.tail)
        | none => do
          let e ← scope.resolve name
          .ok (e, ts.tail)
    | _ => failAt ts .unexpected

end

/-- Reads a formula from all of the tokens. A token is read at most once on each level, so
the steps suffice. -/
def ofTokens (scope : Scope) (ts : Tokens) : Except Error Formula := do
  let (e, rest) ← readAt scope (12 * ts.length + 12) .or ts
  if peek rest = .eof then .ok e else failAt rest .trailing

def parse (source : String) (scope : Scope) : Except Error Formula := do
  ofTokens scope (← scan source)

end TableFlow.Formula
