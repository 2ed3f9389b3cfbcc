import TableFlow.Number.Decimal
import TableFlow.Yaml.Plain

/-!
# Documents as YAML text

Lists and mappings are written as blocks, indented by two spaces, and lists not at all under
their key. A text is plain where that reads back as the same text; otherwise it stands in
single quotes, in double quotes if it has special characters, and as a literal block if it
has line ends.
-/

namespace TableFlow.Yaml

/-! ## The form of a text -/

def isPrintable (c : Char) : Bool :=
  let n := c.toNat
  n == 0x0A || (0x20 ≤ n && n ≤ 0x7E) || (0xA0 ≤ n && n ≤ 0xFFFD && n != 0xFEFF) || 0x10000 ≤ n

/-- Whether two characters follow each other anywhere in a text, the first with one property
and the second with another. -/
def anyPair (p q : Char → Bool) : List Char → Bool
  | a :: b :: rest => (p a && q b) || anyPair p q (b :: rest)
  | _ => false

def isSpace (c : Char) : Bool := c == ' '

def isMultiline (s : List Char) : Bool := s.any isBreak

/-- Whether a text would read as syntax: by how it starts, by a colon before a gap or by a
number sign after one. -/
def looksLikeSyntax (s : List Char) : Bool :=
  s.take 3 == ['-', '-', '-'] || s.take 3 == ['.', '.', '.']
    || s.head?.any (isOneOf "#,[]\x7b\x7d&*!|>'\"%@`")
    || (s.head?.any (isOneOf "?-") && isGap s[1]?)
    || anyPair (· == ':') (isGap ∘ some) s || s.getLast? == some ':'
    || anyPair (isGap ∘ some) (· == '#') s

/-- Whether a text can be written in single quotes: without special characters, and without
spaces around its line ends. -/
def allowsSingle (s : List Char) : Bool :=
  s.all isPrintable && !anyPair isSpace isBreak s && !anyPair isBreak isSpace s

/-- Whether a text can be written as a literal block: as before, but lines may start with
spaces and the text may not end in one. -/
def allowsLiteral (s : List Char) : Bool :=
  s.all isPrintable && !anyPair isSpace isBreak s && !s.getLast?.any isSpace

def allowsPlain (s : List Char) : Bool :=
  allowsSingle s && !isMultiline s && !s.head?.any isSpace && !s.getLast?.any isSpace
    && !looksLikeSyntax s

/-- Whether a plain scalar stands for itself. -/
def readsAsText (s : String) : Bool :=
  match plain? s with
  | some (.text _) => !isZeroPadded s.toList
  | _ => false

/-! ## Texts -/

def margin (indent : Nat) : List Char := List.replicate indent ' '

/-- A text in single quotes: quotes are doubled, and lines are indented. -/
def singleBody (indent : Nat) : Bool → List Char → List Char
  | afterBreak, [] => if afterBreak then margin indent else []
  | afterBreak, c :: rest =>
    if isBreak c then c :: singleBody indent true rest
    else
      (if afterBreak then margin indent else [])
        ++ (if c = '\'' then ['\'', '\''] else [c]) ++ singleBody indent false rest

def hexText (width n : Nat) : List Char :=
  let digits := (Nat.toDigits 16 n).map Char.toUpper
  List.replicate (width - digits.length) '0' ++ digits

def escapeLetter? (c : Char) : Option Char :=
  match c with
  | '\x00' => some '0'
  | '\x07' => some 'a'
  | '\x08' => some 'b'
  | '\t' => some 't'
  | '\n' => some 'n'
  | '\x0b' => some 'v'
  | '\x0c' => some 'f'
  | '\r' => some 'r'
  | '\x1b' => some 'e'
  | '"' => some '"'
  | '\\' => some '\\'
  | '\u0085' => some 'N'
  | '\u2028' => some 'L'
  | '\u2029' => some 'P'
  | _ => none

def escaped (c : Char) : List Char :=
  match escapeLetter? c with
  | some e => ['\\', e]
  | none =>
    if isPrintable c then [c]
    else if c.toNat ≤ 0xFF then '\\' :: 'x' :: hexText 2 c.toNat
    else if c.toNat ≤ 0xFFFF then '\\' :: 'u' :: hexText 4 c.toNat
    else '\\' :: 'U' :: hexText 8 c.toNat

/-- The lines of a literal block, each at an indentation unless it is empty. -/
def literalBody (indent : Nat) : Bool → List Char → List Char
  | _, [] => []
  | atStart, c :: rest =>
    if isBreak c then c :: literalBody indent true rest
    else (if atStart then margin indent else []) ++ c :: literalBody indent false rest

/-- The indicators of a literal block: an indentation if the text does not show it, and what
becomes of the line ends at its end. -/
def literalHead (s : List Char) : List Char :=
  let stated := if s.head?.any fun c => isSpace c || isBreak c then ['2'] else []
  let ends := s.reverse.takeWhile isBreak
  let chomp := if ends.isEmpty then ['-']
    else if ends.length = 1 ∧ 1 < s.length then []
    else ['+']
  '|' :: stated ++ chomp

def doubleQuoted (s : List Char) : List Char := '"' :: s.flatMap escaped ++ ['"']

/-- A text; its further lines start at an indentation. -/
def scalarText (indent : Nat) (text : String) : String :=
  let s := text.toList
  String.ofList (
    if s.contains '\n' then
      if allowsLiteral s then literalHead s ++ '\n' :: literalBody indent true s
      else doubleQuoted s
    else if readsAsText text && allowsPlain s then s
    else if allowsSingle s then '\'' :: singleBody indent false s ++ ['\'']
    else doubleQuoted s)

/-! ## Documents -/

/-- Doubles from `1e-5` to below `1e16` are written without an exponent. -/
def layout : Number.Layout where
  plainFrom := -5
  plainBelow := 16
  plus := ""
  tie := .even

def floatText (x : Float) : String :=
  if x.isNaN then ".nan"
  else if x.isInf then (if x > 0.0 then ".inf" else "-.inf")
  else layout.finite x

def line (s : String) : String :=
  if s.toList.getLast?.any isBreak then s else s ++ "\n"

def lines (indent : Nat) : List String → String
  | [] => ""
  | [s] => s
  | s :: rest => line s ++ String.ofList (margin indent) ++ lines indent rest

/-- A key that fits before a colon: short and on one line. -/
def isSimpleKey : Document → Bool
  | .text s => !isMultiline s.toList && s.utf8ByteSize ≤ 128
  | .list l => l.isEmpty
  | .map l => l.isEmpty
  | _ => true

/-- Whether a document is written as lines of its own under its key, and how much deeper. -/
def deeper? : Document → Option Nat
  | .list (_ :: _) => some 0
  | .map (_ :: _) => some 2
  | _ => none

mutual

/-- A document whose lines after the first start at an indentation. -/
def write (indent : Nat) : Document → String
  | .null => "null"
  | .bool b => if b then "true" else "false"
  | .whole i => toString i
  | .decimal x => floatText x
  | .text s => scalarText indent s
  | .list [] => "[]"
  | .list items => lines indent (writeItems indent items)
  | .map [] => "\x7b\x7d"
  | .map entries => lines indent (writeEntries indent entries)

def writeItems (indent : Nat) : List Document → List String
  | [] => []
  | d :: rest => ("- " ++ write (indent + 2) d) :: writeItems indent rest

def writeEntries (indent : Nat) : List (Document × Document) → List String
  | [] => []
  | (k, d) :: rest =>
    (if isSimpleKey k then
        match deeper? d with
        | some n => write indent k ++ ":\n" ++ String.ofList (margin (indent + n))
            ++ write (indent + n) d
        | none => write indent k ++ ": " ++ write (indent + 2) d
      else
        lines indent ["? " ++ write (indent + 2) k, ": " ++ write (indent + 2) d])
      :: writeEntries indent rest

end

def text (d : Document) : String := line (write 0 d)

end TableFlow.Yaml
