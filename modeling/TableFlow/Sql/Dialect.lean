import TableFlow.Formula.Source
import TableFlow.Pipeline.Basic
import TableFlow.Sql.Error

/-!
# SQL dialects

A dialect is one of four bases with settings: how names and text are quoted, which
operators and functions have other names, which table qualifiers are written and whether
null placement is spelled out. Some functions are written in a form of their own
(`CustomForm`).
-/

namespace TableFlow.Sql

/-- The database that a dialect is made for. -/
inductive Base where
  | generic
  | postgresql
  | duckdb
  | sqlite
  deriving DecidableEq, Repr

namespace Base

def name : Base → String
  | generic => "generic"
  | postgresql => "postgresql"
  | duckdb => "duckdb"
  | sqlite => "sqlite"

/-- The table qualifiers that are written, outermost first. -/
def qualifiers : Base → List String
  | postgresql | duckdb => ["schema"]
  | generic | sqlite => []

/-- A base by its name or a synonym, in upper or lower case. -/
def ofName? (s : String) : Option Base :=
  match String.ofList (s.toList.map Char.toLower) with
  | "generic" | "ansi" => some generic
  | "postgresql" | "postgres" => some postgresql
  | "duckdb" => some duckdb
  | "sqlite" => some sqlite
  | _ => none

end Base

structure Settings where
  nameQuote : Char
  textQuote : Char
  /-- Other names of operators and functions. -/
  renames : NameMap String
  /-- The table qualifiers that are written, outermost first. -/
  qualifiers : List String
  /-- Whether every order term says that nulls come last. -/
  nullsLast : Bool
  deriving DecidableEq

/-- The names that SQL has for operators and functions of formulas. -/
def defaultRenames : NameMap String :=
  .ofList [("==", "="), ("!=", "<>"), ("mean", "avg"), ("log", "ln")]

/-- Double quotes around names, single quotes around text, no qualifiers. -/
def Settings.default : Settings where
  nameQuote := '"'
  textQuote := '\''
  renames := defaultRenames
  qualifiers := []
  nullsLast := true

/-- How a function is written that has no plain call. -/
inductive CustomForm where
  /-- A test with `IS NULL`. -/
  | isNull
  /-- A `CASE` with two branches. -/
  | choice
  /-- A text with slots for the first three arguments. -/
  | template (text : String)
  deriving DecidableEq, Repr

/-- The forms that every dialect has. -/
def builtinForms : NameMap CustomForm :=
  .ofList [("is_null", .isNull), ("if_else", .choice)]

structure Dialect where
  base : Base
  settings : Settings
  forms : NameMap CustomForm

namespace Dialect

def ofBase (b : Base) : Dialect :=
  ⟨b, { Settings.default with qualifiers := b.qualifiers }, builtinForms⟩

def withSettings (b : Base) (settings : Settings) : Dialect :=
  ⟨b, settings, builtinForms⟩

/-- A dialect by name; given settings replace its own but for the qualifiers. -/
def named (name : String) (settings : Option Settings) : Except SqlError Dialect :=
  match Base.ofName? name, settings with
  | none, _ => .error (.unknownDialect name)
  | some b, none => .ok (ofBase b)
  | some b, some s => .ok (withSettings b { s with qualifiers := b.qualifiers })

def withForm (d : Dialect) (function : String) (form : CustomForm) : Dialect :=
  { d with forms := d.forms.insert function form }

def rename (d : Dialect) (name : String) : String :=
  (d.settings.renames.get? name).getD name

/-- A name that can be quoted: one without the quote. -/
def checkName (d : Dialect) (name : String) : Except SqlError String :=
  if name.toList.contains d.settings.nameQuote then
    .error (.quoteInName name d.settings.nameQuote)
  else .ok name

def quoteName (s : Settings) (name : String) : String :=
  s.nameQuote.toString ++ name ++ s.nameQuote.toString

/-- Text between quotes; a quote inside is written twice. -/
def quoteText (s : Settings) (text : String) : String :=
  s.textQuote.toString ++ Formula.doubled s.textQuote text ++ s.textQuote.toString

/-- The parts of a table's name: its qualifiers, which the dialect must know, and the
name. -/
def tablePath (d : Dialect) (t : TableRef) : Except SqlError (List String) :=
  match t.qualifiers.names.filter (!d.settings.qualifiers.contains ·) with
  | [] => (d.settings.qualifiers.filterMap t.qualifiers.get? ++ [t.name]).mapM d.checkName
  | keys => .error (.unsupportedQualifiers d.base.name keys)

def tableName (d : Dialect) (t : TableRef) : Except SqlError String := do
  .ok (".".intercalate ((← d.tablePath t).map (quoteName d.settings)))

def quotedName (d : Dialect) (name : String) : Except SqlError String := do
  .ok (quoteName d.settings (← d.checkName name))

/-- The list of functions with a form of their own, as messages show it. -/
def showForms (forms : NameMap CustomForm) : String :=
  "FormatterRegistry \x7b formatters: [" ++ ", ".intercalate (forms.names.map Text.quoted)
    ++ "] \x7d"

end Dialect

end TableFlow.Sql
