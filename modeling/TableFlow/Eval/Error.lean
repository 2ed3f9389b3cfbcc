import TableFlow.Error

/-!
# Errors of evaluation
-/

namespace TableFlow

inductive EvalError where
  | missingTable (key : String)
  /-- A bound table lacks columns of its description. -/
  | missingColumns (key : String) (names : List String)
  /-- A table between two steps lacks a column. -/
  | missingBetween (name : String)
  /-- The table that a formula is evaluated on lacks a column. -/
  | missingOperand (name : String)
  /-- A grouping takes an aggregate of one column and nothing else. -/
  | nonTrivialAggregate (head : String)
  | windowArgument (function : String)
  | unknownAggregate (name : String)
  | unknownWindowFunction (name : String)
  | noWindowCall (source : String)
  | unknownFunction (name : String) (arity : Nat)
  | typeMismatch (operation left right : String)
  | misplacedAggregate (name : String)
  /-- A column of a batch has a type that no cell has. -/
  | unsupportedType (type column : String)
  /-- A batch must have a column. -/
  | emptyBatch
  /-- A row beyond the end of a column is asked for. -/
  | rowOutOfRange
  /-- A sort gave up on cells that no order fits. -/
  | unsortable
  | model (e : Error)
  deriving DecidableEq

/-- The wording of an error; a row out of range and a sort that gave up have none. -/
def EvalError.message : EvalError → String
  | .missingTable key => "[EV001] no table bound for '" ++ key ++ "'"
  | .missingColumns key names =>
    "[EV002] table '" ++ key ++ "' is missing columns: " ++ nameList names
  | .missingBetween name =>
    "[EV002] table 'intermediate result' is missing columns: " ++ nameList [name]
  | .missingOperand name => "[EV002] table 'expression input' is missing columns: " ++ name
  | .nonTrivialAggregate head =>
    "[EV003] project: aggregate '" ++ head ++ "' must take a single column argument"
  | .windowArgument function =>
    "[EV004] window function '" ++ function ++ "' must take a single column argument"
  | .unknownAggregate name => "[EV005] 'aggregate '" ++ name ++ "'' is not implemented"
  | .unknownWindowFunction name =>
    "[EV005] 'window function '" ++ name ++ "'' is not implemented"
  | .noWindowCall source => "[EV005] 'window expression '" ++ source ++ "'' is not implemented"
  | .unsupportedType type column =>
    "[EV005] 'Arrow type " ++ type ++ " in column '" ++ column ++ "'' is not implemented"
  | .unknownFunction name arity =>
    "[EV006] unknown function '" ++ name ++ "' with " ++ toString arity ++ " argument(s)"
  | .typeMismatch operation left right =>
    "[EV007] '" ++ operation ++ "' cannot be applied to " ++ left ++ " and " ++ right
  | .misplacedAggregate name =>
    "[EV008] aggregate '" ++ name
      ++ "' is only allowed as a whole extend assignment or in project"
  | .emptyBatch => "[EV009] Arrow error"
  | .rowOutOfRange | .unsortable => ""
  | .model e => "[EV010] " ++ e.message

end TableFlow
