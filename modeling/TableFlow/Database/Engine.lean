import TableFlow.Database.Cell
import TableFlow.Database.Error

/-!
# A database engine as a record

An engine is known by what is asked of it and what it replies: it holds the replies still to
come and the requests made so far. A session is a computation that makes requests; the
requests stay on record when it fails (`Session.run`).
-/

namespace TableFlow.Database

/-- What is asked of an engine. -/
inductive Request where
  | openPath (path : String)
  | execute (sql : String)
  | batch (sql : String)
  | prepare (sql : String)
  /-- The prepared statement run for its rows. -/
  | query (parameters : List Cell)
  /-- The prepared statement run for its effect. -/
  | run (parameters : List Cell)

/-- The rows of a query under the names of their columns. -/
structure Rows where
  names : List String
  rows : List (List Cell)

/-- What an engine replies. -/
inductive Reply where
  | fail (reason : String)
  | affected (rows : Nat)
  | rows (r : Rows)

structure Engine where
  /-- The replies to come, the next one first. -/
  replies : List Reply
  /-- The requests made, in order. -/
  log : List Request

def engineName : String := "duckdb"

/-- A computation that makes requests and may fail. -/
abbrev Session (α : Type) := ExceptT DatabaseError (StateM Engine) α

namespace Session

/-- The result of a session and the engine afterwards. -/
def run {α : Type} (s : Session α) (e : Engine) : Except DatabaseError α × Engine :=
  StateT.run (ExceptT.run s) e

/-- The failure that comes next, taken from the replies. -/
def takeFailure : Engine → Option String × Engine
  | ⟨.fail reason :: rest, log⟩ => (some reason, ⟨rest, log⟩)
  | e => (none, e)

/-- The number of rows that comes next, taken from the replies; without one it is zero. -/
def takeAffected : Engine → Nat × Engine
  | ⟨.affected n :: rest, log⟩ => (n, ⟨rest, log⟩)
  | e => (0, e)

/-- The rows that come next, taken from the replies; without any there are no columns. -/
def takeRows : Engine → Rows × Engine
  | ⟨.rows r :: rest, log⟩ => (r, ⟨rest, log⟩)
  | e => (⟨[], []⟩, e)

/-- Makes a request, which fails if a failure comes next. -/
def request (r : Request) (failure : String → DatabaseError) : Session Unit := do
  modify fun e => { e with log := e.log ++ [r] }
  match ← modifyGet takeFailure with
  | some reason => throw (failure reason)
  | none => return

def openPath (path : String) : Session Unit :=
  request (.openPath path) .notOpened

def execute (sql : String) : Session Nat := do
  request (.execute sql) fun reason => .failed (reason ++ ": " ++ sql)
  modifyGet takeAffected

def executeBatch (sql : String) : Session Unit :=
  request (.batch sql) .ofReason

def prepare (sql : String) : Session Unit :=
  request (.prepare sql) .ofReason

/-- Runs the prepared statement for its rows. -/
def query (parameters : List Cell) : Session Rows := do
  request (.query parameters) .ofReason
  modifyGet takeRows

/-- Runs the prepared statement for its effect. -/
def runPrepared (parameters : List Cell) : Session Unit :=
  request (.run parameters) .ofReason

end Session

end TableFlow.Database
