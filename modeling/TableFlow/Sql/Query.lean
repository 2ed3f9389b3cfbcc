import TableFlow.Sql.Term

/-!
# Nested queries

Every step of a pipeline becomes one `SELECT` over the query of its source, which stands
in parentheses under an alias.
-/

namespace TableFlow.Sql

/-- What an alias stands for: the one source of a step, or a side of a join. -/
inductive AliasRole where
  | source
  | left
  | right
  deriving DecidableEq, Repr

/-- The alias of a nested query; numbers are given once. -/
structure Alias where
  role : AliasRole
  number : Nat
  deriving DecidableEq, Repr

def Alias.name (a : Alias) : String :=
  (match a.role with
    | .source => "SQ_"
    | .left => "LQ_"
    | .right => "RQ_") ++ toString a.number

structure OrderTerm where
  column : String
  falling : Bool
  nullsLast : Bool
  deriving DecidableEq, Repr

/-- The window of a function. Ordered aggregates span the whole partition. -/
structure Over where
  partitionBy : List String
  orderBy : List OrderTerm
  aggregate : Bool
  deriving DecidableEq, Repr

inductive Item where
  | column (name : String)
  | renamed (old new : String)
  | computed (term : Term) (placement : Option Over) (name : String)
  /-- The left side's value of a column, or else the right side's. -/
  | coalesced (left right : Alias) (name : String)

/-- What follows the nested query. -/
inductive Tail where
  | nothing
  | condition (term : Term)
  | groups (columns : List String)
  | order (terms : List OrderTerm) (limit : Option Nat)

inductive Query where
  | table (items : List Item) (path : List String)
  | nested (items : List Item) (source : Query) (sourceAlias : Alias) (tail : Tail)
  | join (items : List Item) (left : Query) (leftAlias : Alias) (type : JoinType)
    (right : Query) (rightAlias : Alias) (keys : List String)

def namePieces (names : List String) : List Piece :=
  separated ", " (names.map fun n => [.name n])

def OrderTerm.pieces (t : OrderTerm) : List Piece :=
  .name t.column :: (if t.falling then [.plain " DESC"] else [])
    ++ (if t.nullsLast then [.plain " NULLS LAST"] else [])

def orderPieces (terms : List OrderTerm) : List Piece :=
  .plain "ORDER BY " :: separated ", " (terms.map OrderTerm.pieces)

def Over.pieces (w : Over) : List Piece :=
  let partition :=
    if w.partitionBy.isEmpty then [] else [.plain "PARTITION BY " :: namePieces w.partitionBy]
  let order := if w.orderBy.isEmpty then [] else [orderPieces w.orderBy]
  let frame :=
    if !w.orderBy.isEmpty && w.aggregate then
      [[.plain "ROWS BETWEEN UNBOUNDED PRECEDING AND UNBOUNDED FOLLOWING"]]
    else []
  .plain " OVER (" :: separated " " (partition ++ order ++ frame) ++ [.plain ")"]

def Item.pieces : Item → List Piece
  | column name => [.name name]
  | renamed old new => [.name old, .plain " AS ", .name new]
  | computed term placement name =>
    term.pieces ++ (placement.map Over.pieces).getD [] ++ [.plain " AS ", .name name]
  | coalesced left right name =>
    [.plain "COALESCE(", .name left.name, .plain ".", .name name, .plain ", ",
      .name right.name, .plain ".", .name name, .plain ") AS ", .name name]

def Tail.pieces : Tail → List Piece
  | nothing => []
  | condition term => .plain " WHERE " :: term.pieces
  | groups columns => if columns.isEmpty then [] else .plain " GROUP BY " :: namePieces columns
  | order terms limit =>
    (if terms.isEmpty then [] else .plain " " :: orderPieces terms)
      ++ (limit.map fun n => [Piece.plain (" LIMIT " ++ toString n)]).getD []

def selectPieces (items : List Item) : List Piece :=
  .plain "SELECT " :: separated ", " (items.map Item.pieces) ++ [.plain " FROM "]

def Query.pieces : Query → List Piece
  | table items path => selectPieces items ++ separated "." (path.map fun n => [.name n])
  | nested items source sourceAlias tail =>
    selectPieces items ++ .plain "( " :: source.pieces
      ++ [.plain " ) ", .name sourceAlias.name] ++ tail.pieces
  | join items left leftAlias type right rightAlias keys =>
    selectPieces items ++ .plain "( " :: left.pieces
      ++ [.plain " ) ", .name leftAlias.name, .plain (" " ++ type.name ++ " JOIN ( ")]
      ++ right.pieces ++ [.plain " ) ", .name rightAlias.name, .plain " USING ( "]
      ++ namePieces keys ++ [.plain " )"]

def Query.text (s : Settings) (q : Query) : String := render s q.pieces

end TableFlow.Sql
