import TableFlow.Error

/-!
# Errors of SQL generation
-/

namespace TableFlow

inductive ConfigFault where
  /-- The text is no configuration. -/
  | malformed
  | unreadable
  /-- Names and text would be quoted alike. -/
  | equalQuotes
  deriving DecidableEq, Repr

def ConfigFault.message : ConfigFault → String
  | .malformed => "malformed configuration"
  | .unreadable => "unreadable file"
  | .equalQuotes => "identifier_quote and string_quote must differ"

inductive SqlError where
  | badStatement (line column : Nat)
  | quoteInName (name : String) (quote : Char)
  | unsupportedQualifiers (dialect : String) (keys : List String)
  | emptySelection (kind : Kind)
  | unknownColumns (kind : Kind) (names : List String)
  | unknownDialect (name : String)
  | configNotFound (path : String)
  | badConfig (path : String) (fault : ConfigFault)
  | argumentCount (function : String) (expected actual : Nat)
  | model (e : Error)
  deriving DecidableEq

def SqlError.message : SqlError → String
  | .badStatement line column =>
    "[S001] SQL parse error at line " ++ toString line ++ ", column " ++ toString column
  | .quoteInName name quote =>
    "[S002] identifier " ++ Text.quoted name ++ " contains the quote character '"
      ++ quote.toString ++ "'"
  | .unsupportedQualifiers dialect keys =>
    "[S003] dialect '" ++ dialect ++ "' does not support table qualifiers: "
      ++ ", ".intercalate keys
  | .emptySelection kind => "[S004] " ++ kind.name ++ ": must select at least one column"
  | .unknownColumns kind names =>
    "[S005] " ++ kind.name ++ ": referred to unknown columns: " ++ ", ".intercalate names
  | .unknownDialect name => "[S006] unknown SQL dialect '" ++ name ++ "'"
  | .configNotFound path => "[S007] dialect config not found: " ++ path
  | .badConfig path fault => "[S008] invalid dialect config '" ++ path ++ "': " ++ fault.message
  | .argumentCount function expected actual =>
    "[S009] '" ++ function ++ "' expects " ++ toString expected ++ " arguments, got "
      ++ toString actual
  | .model e => "[S010] " ++ e.message

end TableFlow
