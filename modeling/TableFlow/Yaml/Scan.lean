import TableFlow.Yaml.Name

/-!
# YAML texts to tokens

`Yaml.tokens?` cuts a text into tokens. A mapping key is only known as one when its colon is
met, so the places where a key may have started are remembered (`Candidate`), and the tokens
that open keys are put in between the others in the end (`Scanner.insertions`).
-/

namespace TableFlow.Yaml

/-- A place where a key may have started. -/
structure Candidate where
  /-- The number of tokens before it. -/
  position : Nat
  /-- Whether only a key can stand there. -/
  required : Bool
  index : Nat
  line : Nat
  column : Nat

structure Scanner where
  cursor : Cursor
  /-- The column of the innermost block, or -1 outside of blocks. -/
  indent : Int
  /-- The columns of the blocks around it. -/
  outer : List Int
  /-- Whether a key may start here. -/
  keyAllowed : Bool
  /-- The candidate outside of flow brackets. -/
  candidate : Option Candidate
  /-- The candidates at each level of flow brackets around, innermost first. -/
  around : List (Option Candidate)
  /-- The tokens read, last first. -/
  tokens : List Token
  /-- The number of tokens read. -/
  count : Nat
  /-- Tokens that belong before the token of a position. -/
  insertions : List (Nat × List Token)

namespace Scanner

def start (source : String) : Scanner :=
  ⟨.start source, -1, [], true, none, [], [], 0, []⟩

def inFlow (s : Scanner) : Bool := !s.around.isEmpty

def emit (token : Token) (s : Scanner) : Scanner :=
  { s with tokens := token :: s.tokens, count := s.count + 1 }

def moveTo (cursor : Cursor) (s : Scanner) : Scanner := { s with cursor := cursor }

def allowKey (allowed : Bool) (s : Scanner) : Scanner := { s with keyAllowed := allowed }

/-! ## Blocks -/

/-- Opens a block at a column that is deeper than the innermost block. Its token belongs at
`position`, or here if there is none. -/
def openBlock (column : Nat) (token : Token) (position : Option Nat) (s : Scanner) : Scanner :=
  if s.inFlow ∨ column ≤ s.indent then s
  else
    let s := { s with indent := column, outer := s.indent :: s.outer }
    match position with
    | some n => { s with insertions := (n, [token]) :: s.insertions }
    | none => s.emit token

/-- Closes the blocks that are deeper than a column. -/
def closeBlocks (column : Int) (s : Scanner) : Scanner :=
  if s.inFlow then s
  else
    let inner := (s.indent :: s.outer).takeWhile (column < ·)
    match (s.indent :: s.outer).drop inner.length with
    | indent :: outer =>
      { s with
        indent := indent
        outer := outer
        tokens := List.replicate inner.length .blockEnd ++ s.tokens
        count := s.count + inner.length }
    | [] => s

/-! ## Candidates -/

/-- Forgets a candidate; none if it had to be a key. -/
def forget? : Option Candidate → Option (Option Candidate)
  | some k => if k.required then none else some none
  | none => some none

/-- A candidate after the text went on to a place: a key stands on one line and is not
longer than 1024 bytes. -/
def keep? (c : Cursor) : Option Candidate → Option (Option Candidate)
  | some k =>
    if k.line < c.line ∨ k.index + 1024 < c.index then forget? (some k) else some (some k)
  | none => some none

def keepCandidates? (s : Scanner) : Option Scanner := do
  some { s with
    candidate := ← keep? s.cursor s.candidate
    around := ← s.around.mapM (keep? s.cursor) }

def forgetCandidate? (s : Scanner) : Option Scanner := do
  some { s with candidate := ← forget? s.candidate }

/-- Remembers this place as a candidate where a key may start. -/
def markCandidate? (s : Scanner) : Option Scanner :=
  if s.keyAllowed then do
    let c := s.cursor
    let required := !s.inFlow ∧ s.indent = c.column
    let s ← s.forgetCandidate?
    some { s with candidate := some ⟨s.count, required, c.index, c.line, c.column⟩ }
  else some s

/-! ## Tokens -/

/-- Skips blanks, comments and line ends up to the next token. A new line allows a key, tabs
count as blanks only where no key may start, and a line may start with a byte order mark. -/
def skipGap : Nat → Scanner → Scanner
  | 0, s => s
  | steps + 1, s =>
    let tabs := s.inFlow || !s.keyAllowed
    let c := if s.cursor.atOrderMark then s.cursor.advance 1 else s.cursor
    let c := c.skipWhile fun b => b == ' ' || (tabs && b == '\t')
    let c := if c.peek 0 = some '#' then c.skipWhile (!isBreak ·) else c
    if c.atBreak then
      skipGap steps { s with cursor := c.skipBreak, keyAllowed := s.keyAllowed || !s.inFlow }
    else s.moveTo c

/-- A token that ends all blocks and is no part of a key. -/
def outermost? (s : Scanner) : Option Scanner := do
  some ((← (s.closeBlocks (-1)).forgetCandidate?).allowKey false)

def openFlow? (token : Token) (s : Scanner) : Option Scanner := do
  let s ← s.markCandidate?
  let s := { s with candidate := none, around := s.candidate :: s.around, keyAllowed := true }
  some ((s.moveTo (s.cursor.advance 1)).emit token)

def closeFlow? (token : Token) (s : Scanner) : Option Scanner := do
  let s ← s.forgetCandidate?
  let s := match s.around with
    | k :: around => { s with candidate := k, around := around }
    | [] => s
  some (((s.allowKey false).moveTo (s.cursor.advance 1)).emit token)

def separator? (s : Scanner) : Option Scanner := do
  let s ← s.forgetCandidate?
  some (((s.allowKey true).moveTo (s.cursor.advance 1)).emit .separator)

def entry? (s : Scanner) : Option Scanner := do
  if !s.inFlow ∧ !s.keyAllowed then none
  let s ← (s.openBlock s.cursor.column .blockList none).forgetCandidate?
  some (((s.allowKey true).moveTo (s.cursor.advance 1)).emit .entry)

def key? (s : Scanner) : Option Scanner := do
  if !s.inFlow ∧ !s.keyAllowed then none
  let s ← (s.openBlock s.cursor.column .blockMap none).forgetCandidate?
  some (((s.allowKey (!s.inFlow)).moveTo (s.cursor.advance 1)).emit .key)

/-- The colon before a value: it makes a key of the candidate, if there is one. -/
def value? (s : Scanner) : Option Scanner := do
  let s ← match s.candidate with
    | some k =>
      let s := { s with insertions := (k.position, [.key]) :: s.insertions }
      let s := s.openBlock k.column .blockMap (some k.position)
      some { s with candidate := none, keyAllowed := false }
    | none =>
      if !s.inFlow ∧ !s.keyAllowed then none
      else some ((s.openBlock s.cursor.column .blockMap none).allowKey (!s.inFlow))
  some ((s.moveTo (s.cursor.advance 1)).emit .value)

def keyPart? (token : Token) (after : Cursor) (s : Scanner) : Option Scanner := do
  let s ← s.markCandidate?
  some (((s.allowKey false).moveTo after).emit token)

def name? (token : String → Token) (s : Scanner) : Option Scanner := do
  let (name, c) ← readName? (s.cursor.advance 1)
  s.keyPart? (token name) c

def block? (style : Style) (s : Scanner) : Option Scanner := do
  let s ← s.forgetCandidate?
  let (text, c) ← readBlock? (style = .literal) s.indent (s.cursor.advance 1)
  some (((s.allowKey true).moveTo c).emit (.scalar (String.ofList text) style))

def quoted? (quote : Char) (s : Scanner) : Option Scanner := do
  let (text, c) ← readQuoted? quote s.cursor.rest.length [] (s.cursor.advance 1)
  s.keyPart? (.scalar (String.ofList text) .quoted) c

def plain? (s : Scanner) : Option Scanner := do
  let c := s.cursor
  let (text, broken, c) ← readPlain? s.inFlow (s.indent + 1) c.rest.length [] .empty c
  let s ← s.keyPart? (.scalar (String.ofList text) .plain) c
  some (if broken then s.allowKey true else s)

def finish? (s : Scanner) : Option Scanner := do
  some ((← s.outermost?).emit .textEnd)

/-- Whether a plain scalar starts with a character, given the one after it. -/
def startsPlain (inFlow : Bool) (c : Char) (next : Option Char) : Bool :=
  if c = '-' then !next.any isBlank
  else if c = '?' ∨ c = ':' then !inFlow && !isGap next
  else !isBlank c && !isOneOf ",[]\x7b\x7d#&*!|>'\"%@`" c

def next? (c : Char) (s : Scanner) : Option Scanner := do
  let here := s.cursor
  let gapFollows := isGap (here.peek 1)
  if here.column = 0 ∧ c = '%' then
    let s ← s.outermost?
    let (token, c) ← readDirective? (here.advance 1)
    some ((s.moveTo c).emit token)
  else if here.atMarker '-' then
    some (((← s.outermost?).moveTo (here.advance 3)).emit .documentStart)
  else if here.atMarker '.' then
    some (((← s.outermost?).moveTo (here.advance 3)).emit .documentEnd)
  else if c = '[' then s.openFlow? .openList
  else if c = '\x7b' then s.openFlow? .openMap
  else if c = ']' then s.closeFlow? .closeList
  else if c = '\x7d' then s.closeFlow? .closeMap
  else if c = ',' then s.separator?
  else if c = '-' ∧ gapFollows then s.entry?
  else if c = '?' ∧ (s.inFlow ∨ gapFollows) then s.key?
  else if c = ':' ∧ (s.inFlow ∨ gapFollows) then s.value?
  else if c = '*' then s.name? .reference
  else if c = '&' then s.name? .anchor
  else if c = '!' then
    let (token, after) ← readTag? s.inFlow here
    s.keyPart? token after
  else if c = '|' ∧ !s.inFlow then s.block? .literal
  else if c = '>' ∧ !s.inFlow then s.block? .folded
  else if c = '\'' ∨ c = '"' then s.quoted? c
  else if startsPlain s.inFlow c (here.peek 1) then s.plain?
  else none

/-- Reads all tokens. Every token has a character of its own. -/
def run? : Nat → Scanner → Option Scanner
  | 0, _ => none
  | steps + 1, s => do
    let s ← (skipGap (s.cursor.rest.length + 1) s).keepCandidates?
    let s := s.closeBlocks s.cursor.column
    match s.cursor.peek 0 with
    | none => s.finish?
    | some c => run? steps (← s.next? c)

end Scanner

/-- The tokens with others put in between, which come in the order of their positions. -/
def merge (position : Nat) : List Token → List (Nat × List Token) → List Token
  | tokens, (n, more) :: rest =>
    if n ≤ position then more ++ merge position tokens rest
    else match tokens with
      | [] => []
      | t :: tokens => t :: merge (position + 1) tokens ((n, more) :: rest)
  | tokens, [] => tokens
termination_by tokens insertions => tokens.length + insertions.length

def tokens? (source : String) : Option (List Token) := do
  if !source.toList.all isAllowed then none
  let s ← (Scanner.start source).run? (source.length + 1)
  some (merge 0 s.tokens.reverse (s.insertions.mergeSort (·.1 ≤ ·.1)))

end TableFlow.Yaml
