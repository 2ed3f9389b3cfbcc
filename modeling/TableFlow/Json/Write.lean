import TableFlow.Document
import TableFlow.Number.Decimal

/-!
# Documents as JSON text

`Json.compact` writes no space at all, `Json.pretty` one entry a line. Numbers that are not
finite are written as null; entries whose key is no text are left out.
-/

namespace TableFlow.Json

/-- Doubles from `1e-5` to below `1e16` are written without an exponent. -/
def layout : Number.Layout where
  plainFrom := -5
  plainBelow := 16
  plus := "+"
  tie := .even

def floatText (x : Float) : String :=
  if x.isFinite then layout.finite x else "null"

def hexDigits (n : Nat) : List Char := Nat.toDigits 16 n

def escaped (c : Char) : List Char :=
  match c with
  | '"' => ['\\', '"']
  | '\\' => ['\\', '\\']
  | '\n' => ['\\', 'n']
  | '\r' => ['\\', 'r']
  | '\t' => ['\\', 't']
  | '\x08' => ['\\', 'b']
  | '\x0c' => ['\\', 'f']
  | c =>
    if c.toNat < 16 then '\\' :: 'u' :: '0' :: '0' :: '0' :: hexDigits c.toNat
    else if c.toNat < 32 then '\\' :: 'u' :: '0' :: '0' :: hexDigits c.toNat
    else [c]

def quoted (s : String) : String :=
  String.ofList ('"' :: s.toList.flatMap escaped ++ ['"'])

/-- What separates entries besides the comma: the start of a line at a depth, or nothing in
a text without space. -/
def gap : Option Nat → String
  | none => ""
  | some depth => "\n" ++ String.ofList (List.replicate (2 * depth) ' ')

def enclose (opening closing : String) (depth : Option Nat) (l : List String) : String :=
  if l.isEmpty then opening ++ closing
  else
    let inner := gap (depth.map (· + 1))
    opening ++ inner ++ ("," ++ inner).intercalate l ++ gap depth ++ closing

mutual

/-- A document as text at a depth; without space if there is no depth. -/
def write (depth : Option Nat) : Document → String
  | .null => "null"
  | .bool b => if b then "true" else "false"
  | .whole i => toString i
  | .decimal x => floatText x
  | .text s => quoted s
  | .list items => enclose "[" "]" depth (writeItems (depth.map (· + 1)) items)
  | .map entries => enclose "\x7b" "\x7d" depth (writeEntries (depth.map (· + 1)) entries)

def writeItems (depth : Option Nat) : List Document → List String
  | [] => []
  | d :: rest => write depth d :: writeItems depth rest

def writeEntries (depth : Option Nat) : List (Document × Document) → List String
  | [] => []
  | (.text k, d) :: rest =>
    (quoted k ++ (if depth.isSome then ": " else ":") ++ write depth d)
      :: writeEntries depth rest
  | _ :: rest => writeEntries depth rest

end

/-- A document on one line, without space. -/
def compact : Document → String := write none

/-- A document with one entry a line, indented by two spaces. -/
def pretty : Document → String := write (some 0)

end TableFlow.Json
