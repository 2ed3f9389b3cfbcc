import TableFlow.Sql.Error

/-!
# Errors of a database
-/

namespace TableFlow

inductive DatabaseError where
  | notOpened (reason : String)
  | failed (reason : String)
  /-- A table or a view is not there. -/
  | notFound (reason : String)
  /-- A column holds a value that has no counterpart on the other side. -/
  | unsupportedValue (column value : String)
  | missingBinding (key : String)
  | sql (e : SqlError)
  | model (e : Error)
  deriving DecidableEq

namespace DatabaseError

def message : DatabaseError → String
  | notOpened reason => "[D001] Database connection failed: " ++ reason
  | failed reason => "[D002] SQL execution failed: " ++ reason
  | notFound reason => "[D003] Table or view not found: " ++ reason
  | unsupportedValue column value =>
    "[D005] Column '" ++ column ++ "' holds an unsupported value: " ++ value
  | missingBinding key => "[D006] No table bound for '" ++ key ++ "'"
  | sql e => "[D007] " ++ e.message
  | model e => "[D008] " ++ e.message

def occurs (part : List Char) : List Char → Bool
  | [] => part.isEmpty
  | c :: rest => part.isPrefixOf (c :: rest) || occurs part rest

/-- The failure that an engine reports; a missing relation is told by its wording. -/
def ofReason (reason : String) : DatabaseError :=
  let mentions (part : String) := occurs part.toList reason.toList
  if mentions "Table with name" || mentions "View with name" || mentions "Table or view with name"
    || (mentions "Catalog Error" && mentions "Table" && mentions "not found") then notFound reason
  else failed reason

end DatabaseError

end TableFlow
