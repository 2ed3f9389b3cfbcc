import TableFlow.Sql.Dialect
import TableFlow.Text.Upper

/-!
# SQL expressions

A formula becomes a `Term` in a dialect (`Dialect.term`) and a term becomes text. The text
is put together from pieces (`Piece`): quoted names, quoted texts and everything else.
-/

namespace TableFlow.Sql

/-- A stretch of SQL text. -/
inductive Piece where
  | plain (s : String)
  /-- A name between quotes. -/
  | name (s : String)
  /-- Text between quotes. -/
  | text (s : String)
  deriving DecidableEq, Repr

def Piece.render (s : Settings) : Piece → String
  | plain p => p
  | name n => Dialect.quoteName s n
  | text t => Dialect.quoteText s t

def render (s : Settings) (ps : List Piece) : String :=
  String.join (ps.map (Piece.render s))

/-- Pieces of several parts with a separator between them. -/
def separated (separator : String) : List (List Piece) → List Piece
  | [] => []
  | [part] => part
  | part :: rest => part ++ .plain separator :: separated separator rest

inductive Term where
  /-- A word, a number or the text of a template. -/
  | plain (s : String)
  | name (s : String)
  | text (s : String)
  /-- Text converted to a double. -/
  | double (s : String)
  | operation (grouped : Bool) (op : String) (a b : Term)
  | call (function : String) (args : List Term)
  | isNull (a : Term)
  | choice (condition whenTrue whenFalse : Term)

namespace Term

mutual

def pieces : Term → List Piece
  | plain s => [.plain s]
  | name s => [.name s]
  | text s => [.text s]
  | double s => [.plain "CAST(", .text s, .plain " AS DOUBLE PRECISION)"]
  | operation grouped op a b =>
    let body := a.pieces ++ .plain (" " ++ op ++ " ") :: b.pieces
    if grouped then .plain "(" :: body ++ [.plain ")"] else body
  | call function args =>
    .plain (function ++ "(") :: separated ", " (piecesOfAll args) ++ [.plain ")"]
  | isNull a => .plain "(" :: a.pieces ++ [.plain " IS NULL)"]
  | choice c a b =>
    .plain "CASE WHEN " :: c.pieces ++ .plain " THEN " :: a.pieces
      ++ .plain " ELSE " :: b.pieces ++ [.plain " END"]

def piecesOfAll : List Term → List (List Piece)
  | [] => []
  | t :: rest => t.pieces :: piecesOfAll rest

end

/-- A constant. Neither NaN nor an infinity has a literal: NaN is null, an infinity is
converted from its name. -/
def ofValue : Value → Term
  | .null => plain "NULL"
  | .bool true => plain "TRUE"
  | .bool false => plain "FALSE"
  | .int i => plain (toString i.toInt)
  | .float x =>
    if x.isNaN then plain "NULL"
    else if x.isInf then double (if x > 0.0 then "Infinity" else "-Infinity")
    else plain (Value.layout.finite x)
  | .text s => text s

end Term

/-- The slot of an argument in a template. -/
def slot (i : Nat) : String := "\x7b" ++ toString i ++ "\x7d"

/-- A template with the slots from `i` on filled in turn, each wherever it occurs by then;
`texts` are the arguments from `i` on, of `actual` in all. -/
def fillSlots (function : String) (actual : Nat) :
    Nat → Nat → List (Except SqlError String) → String → Except SqlError String
  | 0, _, _, template => .ok template
  | slots + 1, i, texts, template =>
    match template.splitOn (slot i) with
    | [_] => fillSlots function actual slots (i + 1) (texts.drop 1) template
    | parts =>
      match texts with
      | [] => .error (.argumentCount function (i + 1) actual)
      | text :: rest => do
        fillSlots function actual slots (i + 1) rest ((← text).intercalate parts)

namespace Dialect

mutual

/-- A formula as an SQL expression. A nested operation is grouped by parentheses. -/
def term (d : Dialect) (grouped : Bool) : Formula → Except SqlError Term
  | .constant v => .ok (.ofValue v)
  | .column name => do .ok (.name (← d.checkName name))
  | .apply function args form =>
    match d.forms.get? (d.rename function) with
    | some (.template text) => do
      let texts := (d.termEach args).map (·.map fun t => render d.settings t.pieces)
      .ok (.plain (← fillSlots function args.length 3 0 texts text))
    | some .isNull =>
      match args with
      | [a] => do .ok (.isNull (← d.term true a))
      | _ => .error (.argumentCount function 1 args.length)
    | some .choice =>
      match args with
      | [c, a, b] => do
        let c ← d.term false c
        let a ← d.term false a
        .ok (.choice c a (← d.term false b))
      | _ => .error (.argumentCount function 3 args.length)
    | none =>
      match form, args with
      | .operator, [a, b] => do
        let a ← d.term true a
        let b ← d.term true b
        .ok (.operation grouped (Text.upper (d.rename function)) a b)
      | _, args => do .ok (.call (Text.upper (d.rename function)) (← d.terms args))

def terms (d : Dialect) : List Formula → Except SqlError (List Term)
  | [] => .ok []
  | e :: rest => do
    let t ← d.term true e
    .ok (t :: (← d.terms rest))

/-- Each argument of a template as an SQL expression of its own. -/
def termEach (d : Dialect) : List Formula → List (Except SqlError Term)
  | [] => []
  | e :: rest => d.term false e :: d.termEach rest

end

def formulaText (d : Dialect) (grouped : Bool) (e : Formula) : Except SqlError String := do
  .ok (render d.settings (← d.term grouped e).pieces)

end Dialect

end TableFlow.Sql
