/-!
# Places in a YAML text

A `Cursor` is a place in a text: what is still to be read, and the line and the column, on
which the structure of a YAML text depends.
-/

namespace TableFlow.Yaml

/-! ## Characters -/

def isAllowed (c : Char) : Bool :=
  let n := c.toNat
  c == '\t' || c == '\n' || c == '\r' || (0x20 ≤ n && n ≤ 0x7E) || n == 0x85
    || (0xA0 ≤ n && n ≤ 0xFFFD) || 0x10000 ≤ n

def isBlank (c : Char) : Bool := c == ' ' || c == '\t'

def isBreak (c : Char) : Bool :=
  c == '\n' || c == '\r' || c == '\u0085' || c == '\u2028' || c == '\u2029'

/-- A blank, the end of a line or the end of the text. -/
def isGap : Option Char → Bool
  | none => true
  | some c => isBlank c || isBreak c

def isNameChar (c : Char) : Bool := c.isAlphanum || c == '_' || c == '-'

def isOneOf (s : String) (c : Char) : Bool := s.toList.contains c

def byteSize (text : List Char) : Nat := text.foldl (fun n c => n + c.utf8Size) 0

/-! ## Places -/

structure Cursor where
  rest : List Char
  /-- The number of bytes before. -/
  index : Nat
  line : Nat
  column : Nat

namespace Cursor

def start (source : String) : Cursor := ⟨source.toList, 0, 0, 0⟩

def peek (c : Cursor) (n : Nat) : Option Char := c.rest[n]?

def isEnd (c : Cursor) : Bool := c.rest.isEmpty

def atBreak (c : Cursor) : Bool := c.rest.head?.any isBreak

/-- The place `n` characters further on in the same line. -/
def advance (c : Cursor) (n : Nat) : Cursor :=
  ⟨c.rest.drop n, c.index + byteSize (c.rest.take n), c.line, c.column + n⟩

/-- The characters from here on that have a property, and the place after them. -/
def takeWhile (c : Cursor) (p : Char → Bool) : List Char × Cursor :=
  let run := c.rest.takeWhile p
  (run, c.advance run.length)

def skipWhile (c : Cursor) (p : Char → Bool) : Cursor := (c.takeWhile p).2

/-- The line end that stands here as it counts in text, and the start of the next line. A
carriage return and a line feed are one line end; only the separators beyond Latin-1 stay
what they are. -/
def takeBreak (c : Cursor) : List Char × Cursor :=
  match c.rest with
  | '\r' :: '\n' :: rest => (['\n'], ⟨rest, c.index + 2, c.line + 1, 0⟩)
  | b :: rest =>
    if isBreak b then
      ([if b.toNat < 0x100 then '\n' else b], ⟨rest, c.index + b.utf8Size, c.line + 1, 0⟩)
    else ([], c)
  | [] => ([], c)

def skipBreak (c : Cursor) : Cursor := c.takeBreak.2

/-- Whether a byte order mark stands at the start of a line. It takes a column there. -/
def atOrderMark (c : Cursor) : Bool := c.column == 0 && c.rest.head? == some '\ufeff'

/-- Whether three characters and a gap stand at the start of a line. -/
def atMarker (c : Cursor) (marker : Char) : Bool :=
  c.column == 0 && c.rest.take 3 == [marker, marker, marker] && isGap (c.peek 3)

/-- Whether the start or the end of a document is marked here. -/
def atDocumentMarker (c : Cursor) : Bool := c.atMarker '-' || c.atMarker '.'

/-- Skips the blanks of a line and a comment; none if other text follows. -/
def finishLine? (c : Cursor) : Option Cursor :=
  let c := c.skipWhile isBlank
  let c := if c.peek 0 = some '#' then c.skipWhile (!isBreak ·) else c
  if c.isEnd then some c else if c.atBreak then some c.skipBreak else none

end Cursor

end TableFlow.Yaml
