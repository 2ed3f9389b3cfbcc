import TableFlow.Sql.Dialect

/-!
# Statements of SQL text

Statements end at semicolons outside quotes. Not every dialect takes a `SELECT` without a
select list; the others complain about the token after `FROM`.
-/

namespace TableFlow.Sql

/-- A token of SQL text and where it starts; lines and columns count from one. A word is in
upper case, and of a quoted token only the quote is kept. -/
structure Mark where
  text : String
  line : Nat
  column : Nat
  deriving DecidableEq, Repr

/-- What the characters read so far belong to. -/
inductive Reading where
  | between
  | word
  | quoted (quote : Char)
  deriving DecidableEq, Repr

/-- How far a text has been cut into tokens; the last token comes first. -/
structure Scanner where
  line : Nat
  column : Nat
  reading : Reading
  marks : List Mark

namespace Scanner

/-- The place after one more character. -/
def advance (s : Scanner) (c : Char) (reading : Reading) : Scanner :=
  if c = '\n' then { s with line := s.line + 1, column := 1, reading := reading }
  else { s with column := s.column + 1, reading := reading }

def start (s : Scanner) (c : Char) (reading : Reading) : Scanner :=
  advance { s with marks := ⟨c.toUpper.toString, s.line, s.column⟩ :: s.marks } c reading

def outside (s : Scanner) (c : Char) : Scanner :=
  if c.isWhitespace then s.advance c .between
  else if c = '"' ∨ c = '\'' ∨ c = '`' then s.start c (.quoted c)
  else if c.isAlphanum ∨ c = '_' then s.start c .word
  else s.start c .between

def extend (s : Scanner) (c : Char) : Scanner :=
  match s.marks with
  | [] => s.advance c .word
  | m :: rest =>
    advance { s with marks := { m with text := m.text ++ c.toUpper.toString } :: rest } c .word

def step (s : Scanner) (c : Char) : Scanner :=
  match s.reading with
  | .quoted quote => s.advance c (if c = quote then .between else s.reading)
  | .word => if c.isAlphanum ∨ c = '_' then s.extend c else s.outside c
  | .between => s.outside c

end Scanner

def marks (text : String) : List Mark :=
  (text.toList.foldl Scanner.step ⟨1, 1, .between, []⟩).marks.reverse

/-- The tokens between semicolons, where there are any. -/
def statements (ms : List Mark) : List (List Mark) :=
  (ms.splitOnP (·.text = ";")).filter (!·.isEmpty)

/-- Whether a dialect takes a `SELECT` without a select list. -/
def Base.allowsEmptySelect : Base → Bool
  | .generic | .postgresql => true
  | .duckdb | .sqlite => false

/-- A statement is refused after `SELECT FROM` where that is not allowed; a missing token
has no place. -/
def checkStatement (b : Base) (ms : List Mark) : Except SqlError Unit :=
  match ms with
  | first :: second :: rest =>
    if first.text = "SELECT" ∧ second.text = "FROM" ∧ b.allowsEmptySelect = false then
      match rest with
      | m :: _ => .error (.badStatement m.line m.column)
      | [] => .error (.badStatement 0 0)
    else .ok ()
  | _ => .ok ()

def countStatements (b : Base) (text : String) : Except SqlError Nat := do
  let ss := statements (marks text)
  ss.forM (checkStatement b)
  .ok ss.length

end TableFlow.Sql
