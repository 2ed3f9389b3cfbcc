import TableFlow.Yaml.Cursor

/-!
# Scalars of YAML texts

Each function reads a scalar and gives its text and the place after it. Plain and quoted
scalars fold line ends: one alone is a space, further ones stay. Block scalars are read line
by line at one indentation.
-/

namespace TableFlow.Yaml

/-! ## Gaps inside plain and quoted scalars -/

/-- Blanks and line ends between the words of a scalar. -/
structure Gap where
  /-- The blanks before any line end. -/
  blanks : List Char
  /-- Whether the line ended. -/
  broken : Bool
  /-- The first line end, if it counts. -/
  first : List Char
  /-- The further line ends. -/
  further : List Char

namespace Gap

def empty : Gap := ⟨[], false, [], []⟩

/-- The gap after a line end that does not count. -/
def afterEscape : Gap := ⟨[], true, [], []⟩

def addBlank (g : Gap) (c : Char) : Gap :=
  if g.broken then g else { g with blanks := g.blanks ++ [c] }

def addBreak (g : Gap) (b : List Char) : Gap :=
  if g.broken then { g with further := g.further ++ b } else ⟨[], true, b, []⟩

/-- What the gap stands for: its blanks, or its line ends folded. -/
def text (g : Gap) : List Char :=
  if !g.broken then g.blanks
  else if g.first = ['\n'] then (if g.further.isEmpty then [' '] else g.further)
  else g.first ++ g.further

/-- The gap from a place on. A tab that indents a line to below the column `indent` is an
error. -/
def read? (indent : Int) : Nat → Gap → Cursor → Option (Gap × Cursor)
  | 0, g, c => some (g, c)
  | steps + 1, g, c =>
    match c.rest with
    | [] => some (g, c)
    | b :: _ =>
      if isBlank b then
        if g.broken ∧ b = '\t' ∧ c.column < indent then none
        else read? indent steps (g.addBlank b) (c.advance 1)
      else if isBreak b then
        let (text, next) := c.takeBreak
        read? indent steps (g.addBreak text) next
      else some (g, c)

end Gap

/-! ## Plain scalars -/

/-- The characters of a plain scalar up to a gap, or to what ends it: a colon before a gap,
and inside flow brackets a bracket or a comma. -/
def plainRun? (inFlow : Bool) : List Char → Option (List Char)
  | [] => some []
  | c :: rest =>
    if isGap (some c) then some []
    else if inFlow ∧ c = ':' ∧ rest.head?.any (isOneOf ",?[]\x7b\x7d") then none
    else if (c == ':' && isGap rest.head?) || (inFlow && isOneOf ",[]\x7b\x7d" c) then some []
    else (plainRun? inFlow rest).map (c :: ·)

/-- A plain scalar after `text`, whether lines ended after it, and the place of the next
token or gap. -/
def readPlain? (inFlow : Bool) (indent : Int) :
    Nat → List Char → Gap → Cursor → Option (List Char × Bool × Cursor)
  | 0, text, g, c => some (text, g.broken, c)
  | steps + 1, text, g, c => do
    if c.atDocumentMarker ∨ c.peek 0 = some '#' then return (text, g.broken, c)
    let run ← plainRun? inFlow c.rest
    if run.isEmpty then return (text, g.broken, c)
    let text := text ++ g.text ++ run
    let c := c.advance run.length
    if c.isEnd ∨ !isGap (c.peek 0) then return (text, false, c)
    let (g, c) ← Gap.read? indent c.rest.length .empty c
    if !inFlow ∧ c.column < indent then return (text, g.broken, c)
    readPlain? inFlow indent steps text g c

/-! ## Quoted scalars -/

def singleRun : List Char → List Char × Nat
  | '\'' :: '\'' :: rest =>
    let (run, n) := singleRun rest
    ('\'' :: run, n + 2)
  | c :: rest =>
    if c = '\'' ∨ isGap (some c) then ([], 0)
    else
      let (run, n) := singleRun rest
      (c :: run, n + 1)
  | [] => ([], 0)

def escape? : Char → Option Char
  | '0' => some '\x00'
  | 'a' => some '\x07'
  | 'b' => some '\x08'
  | 't' | '\t' => some '\t'
  | 'n' => some '\n'
  | 'v' => some '\x0b'
  | 'f' => some '\x0c'
  | 'r' => some '\r'
  | 'e' => some '\x1b'
  | ' ' => some ' '
  | '"' => some '"'
  | '/' => some '/'
  | '\\' => some '\\'
  | 'N' => some '\u0085'
  | '_' => some '\u00a0'
  | 'L' => some '\u2028'
  | 'P' => some '\u2029'
  | _ => none

def hexDigit? (c : Char) : Option Nat :=
  if c.isDigit then some (c.toNat - '0'.toNat)
  else if 'a' ≤ c ∧ c ≤ 'f' then some (c.toNat - 'a'.toNat + 10)
  else if 'A' ≤ c ∧ c ≤ 'F' then some (c.toNat - 'A'.toNat + 10)
  else none

def hexValue? (digits : List Char) : Option Nat :=
  digits.foldlM (fun n c => (hexDigit? c).map (16 * n + ·)) 0

def escapeCode? (digits : List Char) : Option Char := do
  let n ← hexValue? digits
  if (0xD800 ≤ n ∧ n < 0xE000) ∨ 0x10FFFF < n then none
  some (Char.ofNat n)

/-- What a run of characters in double quotes ends with. -/
structure DoubleRun where
  text : List Char
  /-- How many characters spell the text. -/
  size : Nat
  /-- Whether an escaped line end stops it. -/
  escapedBreak : Bool

/-- A run with one more character before it, which is spelled by `size` characters. -/
def DoubleRun.cons (c : Char) (size : Nat) (run : DoubleRun) : DoubleRun :=
  { run with text := c :: run.text, size := run.size + size }

/-- The characters in double quotes up to a gap, an escaped line end or the closing quote. -/
def doubleRun? : List Char → Option DoubleRun
  | [] => some ⟨[], 0, false⟩
  | '\\' :: 'x' :: a :: b :: rest => do
    let c ← escapeCode? [a, b]
    (doubleRun? rest).map (.cons c 4)
  | '\\' :: 'u' :: a :: b :: c :: d :: rest => do
    let e ← escapeCode? [a, b, c, d]
    (doubleRun? rest).map (.cons e 6)
  | '\\' :: 'U' :: a :: b :: c :: d :: a' :: b' :: c' :: d' :: rest => do
    let e ← escapeCode? [a, b, c, d, a', b', c', d']
    (doubleRun? rest).map (.cons e 10)
  | '\\' :: c :: rest =>
    if isBreak c then some ⟨[], 1, true⟩
    else do
      let e ← escape? c
      (doubleRun? rest).map (.cons e 2)
  | c :: rest =>
    if c = '\\' then none
    else if c = '"' ∨ isGap (some c) then some ⟨[], 0, false⟩
    else (doubleRun? rest).map (.cons c 1)

/-- The text of a quoted scalar after `text`, from behind its opening quote on, and the place
behind the closing one. -/
def readQuoted? (quote : Char) : Nat → List Char → Cursor → Option (List Char × Cursor)
  | 0, _, _ => none
  | steps + 1, text, c => do
    if c.atDocumentMarker ∨ c.isEnd then none
    let run ← if quote = '"' then doubleRun? c.rest
      else
        let (text, size) := singleRun c.rest
        some ⟨text, size, false⟩
    let text := text ++ run.text
    let c := c.advance run.size
    let c := if run.escapedBreak then c.skipBreak else c
    if c.peek 0 = some quote then return (text, c.advance 1)
    let start := if run.escapedBreak then Gap.afterEscape else .empty
    let (g, c) ← Gap.read? 0 c.rest.length start c
    readQuoted? quote steps (text ++ g.text) c

/-! ## Block scalars -/

inductive Chomp where
  | strip
  | clip
  | keep
  deriving DecidableEq, Repr

/-- The indicators at the head of a block scalar: what becomes of its last line ends, and its
indentation. -/
structure BlockHead where
  chomp : Chomp
  indent : Option Nat

def chompOf? : Option Char → Option Chomp
  | some '+' => some .keep
  | some '-' => some .strip
  | _ => none

/-- An indentation from 1 to 9; none for the digit 0, which is an error. -/
def indentOf? (c : Cursor) : Option (Option Nat × Cursor) :=
  match c.peek 0 with
  | some d =>
    if d = '0' then none
    else if d.isDigit then some (some (d.toNat - '0'.toNat), c.advance 1)
    else some (none, c)
  | none => some (none, c)

/-- Reads the indicators in either order, and the rest of their line. -/
def readHead? (c : Cursor) : Option (BlockHead × Cursor) := do
  match chompOf? (c.peek 0) with
  | some chomp =>
    let (indent, c) ← indentOf? (c.advance 1)
    some (⟨chomp, indent⟩, ← c.finishLine?)
  | none =>
    let (indent, c) ← indentOf? c
    match indent.bind fun _ => chompOf? (c.peek 0) with
    | some chomp => some (⟨chomp, indent⟩, ← (c.advance 1).finishLine?)
    | none => some (⟨.clip, indent⟩, ← c.finishLine?)

/-- Skips empty lines and the indentation of the next line, up to `indent` if it is known.
Gives the deepest column that was reached and the line ends. A tab in the indentation is an
error. -/
def readBlankLines? (indent : Option Nat) :
    Nat → Nat → List Char → Cursor → Option (Nat × List Char × Cursor)
  | 0, deepest, breaks, c => some (deepest, breaks, c)
  | steps + 1, deepest, breaks, c =>
    let spaces := (c.rest.takeWhile (· == ' ')).length
    let c := c.advance (match indent with
      | some n => min spaces (n - c.column)
      | none => spaces)
    let deepest := max deepest c.column
    if c.peek 0 = some '\t' ∧ indent.all (c.column < ·) then none
    else if c.atBreak then
      let (b, c) := c.takeBreak
      readBlankLines? indent steps deepest (breaks ++ b) c
    else some (deepest, breaks, c)

/-- What a block scalar ends with. -/
structure BlockBody where
  text : List Char
  /-- The end of the last line of text. -/
  last : List Char
  /-- The ends of the empty lines after it. -/
  further : List Char
  cursor : Cursor

/-- The line ends between two lines of a block scalar: folded between lines that do not start
with a blank, unless the scalar is literal. -/
def blockGap (literal : Bool) (b : BlockBody) (afterBlank beforeBlank : Bool) : List Char :=
  if !literal ∧ b.last = ['\n'] ∧ !afterBlank ∧ !beforeBlank then
    if b.further.isEmpty then [' '] else b.further
  else b.last ++ b.further

def readLines? (literal : Bool) (indent : Nat) :
    Nat → Bool → BlockBody → Option BlockBody
  | 0, _, b => some b
  | steps + 1, afterBlank, b =>
    if b.cursor.column ≠ indent ∨ b.cursor.isEnd then some b
    else do
      let startsBlank := b.cursor.rest.head?.any isBlank
      let text := b.text ++ blockGap literal b afterBlank startsBlank
      let (line, c) := b.cursor.takeWhile (!isBreak ·)
      let (last, c) := c.takeBreak
      let (_, further, c) ← readBlankLines? (some indent) (c.rest.length + 1) 0 [] c
      readLines? literal indent steps startsBlank ⟨text ++ line, last, further, c⟩

/-- The text of a block scalar inside a block at the column `parent`, from behind its first
indicator on. -/
def readBlock? (literal : Bool) (parent : Int) (c : Cursor) :
    Option (List Char × Cursor) := do
  let (head, c) ← readHead? c
  let outer := (max parent 0).toNat
  let stated := head.indent.map (outer + ·)
  let (deepest, breaks, c) ← readBlankLines? stated (c.rest.length + 1) 0 [] c
  let indent := stated.getD (max (max deepest (parent + 1).toNat) 1)
  let b ← readLines? literal indent c.rest.length false ⟨[], [], breaks, c⟩
  let text := match head.chomp with
    | .strip => b.text
    | .clip => b.text ++ b.last
    | .keep => b.text ++ b.last ++ b.further
  some (text, b.cursor)

end TableFlow.Yaml
