import TableFlow.Sql.Dialect
import TableFlow.Yaml.Plain

/-!
# Dialect configurations

A configuration is a YAML mapping that names a dialect and may replace its quotes, add to its
renames and turn off the placement of nulls. `Config.ofYaml` refuses fields of other names
and two given quotes that are equal.
-/

namespace TableFlow.Sql

/-- A dialect by name with what replaces its settings. -/
structure Config where
  dialect : String
  nameQuote : Option Char
  textQuote : Option Char
  /-- Put over the default renames. -/
  renames : NameMap String
  nullsLast : Option Bool
  deriving DecidableEq

namespace Config

def default : Config := ⟨"duckdb", none, none, .empty, none⟩

def settings (c : Config) : Settings :=
  let d := Settings.default
  { d with
    nameQuote := c.nameQuote.getD d.nameQuote
    textQuote := c.textQuote.getD d.textQuote
    renames := d.renames.addAll c.renames.entries
    nullsLast := c.nullsLast.getD d.nullsLast }

def build (c : Config) : Except SqlError Dialect := Dialect.named c.dialect (some c.settings)

/-! ## Reading -/

open Yaml (Node)

/-- Any scalar, as it is written. -/
def text? : Node → Option String
  | .scalar text _ _ => some text
  | _ => none

def optional? {α : Type} (read : Node → Option α) : Node → Option (Option α)
  | .scalar text .plain none =>
    if text = "" ∨ Yaml.isNullWord text then some none
    else (read (.scalar text .plain none)).map some
  | .scalar text .plain (some tag) =>
    if tag = .core "null" then if Yaml.isNullWord text then some none else none
    else (read (.scalar text .plain (some tag))).map some
  | n => (read n).map some

def char? (n : Node) : Option Char :=
  match (text? n).map String.toList with
  | some [c] => some c
  | _ => none

/-- A truth value: a plain scalar, or a literal one with the tag of truth values. -/
def bool? : Node → Option Bool
  | .scalar text .plain _ => Yaml.truthWord? text
  | .scalar text .literal tag =>
    if tag = some (.core "bool") then Yaml.truthWord? text else none
  | _ => none

/-- A mapping between scalars in which the last entry of a key stays. -/
def renames? : Node → Option (NameMap String)
  | .map entries _ => (entries.mapM fun (k, v) => do some (← text? k, ← text? v)).map .ofList
  | n => if n.isBlank then some .empty else none

def fieldNames : List String :=
  ["dialect", "identifier_quote", "string_quote", "op_replacements", "nulls_last"]

def field? {α : Type} (l : List (String × Node)) (name : String) (missing : α)
    (read : Node → Option α) : Option α :=
  match l.lookup name with
  | some n => read n
  | none => some missing

/-- A configuration from the entries of its mapping. -/
def ofEntries? (entries : List (Node × Node)) : Option Config := do
  let l ← entries.mapM fun (k, v) => do some (← text? k, v)
  let names := l.map (·.1)
  if (firstRepeat? [] names).isSome ∨ !names.all (fieldNames.contains ·) then none
  some {
    dialect := ← field? l "dialect" default.dialect text?
    nameQuote := ← field? l "identifier_quote" none (optional? char?)
    textQuote := ← field? l "string_quote" none (optional? char?)
    renames := ← field? l "op_replacements" .empty renames?
    nullsLast := ← field? l "nulls_last" none (optional? bool?) }

def ofNode? : Option Node → Option Config
  | none => some default
  | some (.map entries _) => ofEntries? entries
  | some n => if n.isBlank then some default else none

def ofYamlAt (path source : String) : Except SqlError Config :=
  match (Yaml.read? source).bind ofNode? with
  | none => .error (.badConfig path .malformed)
  | some c =>
    if c.nameQuote.isSome ∧ c.nameQuote = c.textQuote then .error (.badConfig path .equalQuotes)
    else .ok c

def ofYaml (source : String) : Except SqlError Config := ofYamlAt "<string>" source

/-- What there is under a path. -/
inductive Entry where
  | absent
  | directory
  | file (contents : String)

def load (path : String) : Entry → Except SqlError Config
  | .absent => .error (.configNotFound path)
  | .directory => .error (.badConfig path .unreadable)
  | .file contents => ofYamlAt path contents

end Config

end TableFlow.Sql
