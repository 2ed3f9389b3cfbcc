import TableFlow.Formula.Scan

/-!
# Reading SQL expressions

A reader for the expressions of SQL, by its rules and not by how the text was made. `scan` cuts
a text into tokens: a name stands between double quotes and a text between single ones, where a
quote written twice is one of the content. `read?` groups the tokens by the levels of SQL's
operators. From the loosest to the tightest these are `OR`, `AND`, the prefix `NOT`, comparisons
and `IS NULL`, sums, products and the sign; what stands on its own (`readFirst`) is a literal, a
name, a group in parentheses, a call or a `CASE`.
-/

namespace TableFlow.Sql

/-! ## Tokens -/

inductive Token where
  /-- A word without quotes. -/
  | word (s : String)
  | symbol (s : String)
  | number (s : String)
  /-- A name between double quotes. -/
  | name (s : String)
  /-- A text between single quotes. -/
  | text (s : String)
  deriving DecidableEq, Repr

/-- A letter or an underscore starts a word. All characters beyond ASCII count as letters. -/
def startsWord (c : Char) : Bool := c.isAlpha || c == '_' || 128 ≤ c.toNat

def continuesWord (c : Char) : Bool := startsWord c || c.isDigit || c == '$'

def folded (s : String) : String := String.ofList (s.toList.map Char.toUpper)

/-- The symbol at the head of a text; longer ones win, and a comment is no symbol. -/
def symbolAt? : List Char → Option (String × List Char)
  | '-' :: '-' :: _ => none
  | '/' :: '*' :: _ => none
  | '<' :: '=' :: rest => some ("<=", rest)
  | '<' :: '>' :: rest => some ("<>", rest)
  | '>' :: '=' :: rest => some (">=", rest)
  | '!' :: '=' :: rest => some ("<>", rest)
  | '<' :: rest => some ("<", rest)
  | '>' :: rest => some (">", rest)
  | '=' :: rest => some ("=", rest)
  | '+' :: rest => some ("+", rest)
  | '-' :: rest => some ("-", rest)
  | '*' :: rest => some ("*", rest)
  | '/' :: rest => some ("/", rest)
  | '%' :: rest => some ("%", rest)
  | '(' :: rest => some ("(", rest)
  | ')' :: rest => some (")", rest)
  | ',' :: rest => some (",", rest)
  | '.' :: rest => some (".", rest)
  | _ => none

/-- The token at the head of a text that does not start with white space, and what follows. -/
def nextToken? : List Char → Option (Token × List Char)
  | [] => none
  | c :: rest =>
    if c = '"' then
      (Formula.closeQuote '"' rest).map fun (s, tail) => (.name (String.ofList s), tail)
    else if c = '\'' then
      (Formula.closeQuote '\'' rest).map fun (s, tail) => (.text (String.ofList s), tail)
    else if c.isDigit then
      let (text, _, tail) := Formula.numberRun false (c :: rest)
      some (.number (String.ofList text), tail)
    else if startsWord c then
      some (.word (folded (String.ofList (c :: rest.takeWhile continuesWord))),
        rest.dropWhile continuesWord)
    else (symbolAt? (c :: rest)).map fun (s, tail) => (.symbol s, tail)

/-- The tokens of a text. Every token has a character of its own, so as many steps as there are
characters suffice. -/
def scanFrom : Nat → List Char → Option (List Token)
  | 0, _ => some []
  | steps + 1, text =>
    match text.dropWhile Char.isWhitespace with
    | [] => some []
    | c :: rest => do
      let (token, tail) ← nextToken? (c :: rest)
      some (token :: (← scanFrom steps tail))

def scan (source : String) : Option (List Token) :=
  scanFrom source.toList.length source.toList

/-! ## Groups -/

inductive Tree where
  /-- A number without a sign. -/
  | number (s : String)
  /-- `NULL`, `TRUE` or `FALSE`. -/
  | literal (s : String)
  | name (s : String)
  | text (s : String)
  | negative (a : Tree)
  | operation (op : String) (a b : Tree)
  | not (a : Tree)
  | isNull (a : Tree)
  | call (function : String) (args : List Tree)
  | choice (condition whenTrue whenFalse : Tree)
  /-- A value converted to a double. -/
  | double (a : Tree)

/-- The words that are no names. -/
def reserved : List String :=
  ["OR", "AND", "NOT", "IS", "NULL", "TRUE", "FALSE", "CASE", "WHEN", "THEN", "ELSE", "END",
    "CAST", "AS"]

def literals : List String := ["NULL", "TRUE", "FALSE"]

/-- An operator between two operands, with its level: the lower, the looser it binds. -/
def operator? : Token → Option (Nat × String)
  | .word "OR" => some (0, "OR")
  | .word "AND" => some (1, "AND")
  | .symbol "=" => some (3, "=")
  | .symbol "<>" => some (3, "<>")
  | .symbol "<" => some (3, "<")
  | .symbol "<=" => some (3, "<=")
  | .symbol ">" => some (3, ">")
  | .symbol ">=" => some (3, ">=")
  | .symbol "+" => some (4, "+")
  | .symbol "-" => some (4, "-")
  | .symbol "*" => some (5, "*")
  | .symbol "/" => some (5, "/")
  | .symbol "%" => some (5, "%")
  | _ => none

def notLevel : Nat := 2

/-- The level of comparisons, and of `IS NULL`. -/
def testLevel : Nat := 3

def expect (token : Token) : List Token → Option (List Token)
  | [] => none
  | t :: rest => if t = token then some rest else none

mutual

/-- An expression of operators that bind at least as tight as `least`, and what follows. -/
def readAt : Nat → Nat → List Token → Option (Tree × List Token)
  | 0, _, _ => none
  | fuel + 1, least, tokens => do
    let (first, rest) ← readFirst fuel tokens
    readOn fuel least first rest

def readOn : Nat → Nat → Tree → List Token → Option (Tree × List Token)
  | 0, _, _, _ => none
  | _, _, left, [] => some (left, [])
  | fuel + 1, least, left, token :: rest =>
    match operator? token with
    | some (level, op) =>
      if least ≤ level then do
        let (right, rest) ← readAt fuel (level + 1) rest
        readOn fuel least (.operation op left right) rest
      else some (left, token :: rest)
    | none =>
      if token = .word "IS" ∧ least ≤ testLevel then do
        readOn fuel least (.isNull left) (← expect (.word "NULL") rest)
      else some (left, token :: rest)

/-- What stands on its own, or behind a prefix. -/
def readFirst : Nat → List Token → Option (Tree × List Token)
  | 0, _ => none
  | _, [] => none
  | fuel + 1, token :: rest =>
    match token with
    | .number s => some (.number s, rest)
    | .name s => some (.name s, rest)
    | .text s => some (.text s, rest)
    | .symbol s =>
      if s = "(" then do
        let (a, rest) ← readAt fuel 0 rest
        some (a, ← expect (.symbol ")") rest)
      else if s = "-" then do
        let (a, rest) ← readFirst fuel rest
        some (.negative a, rest)
      else none
    | .word w =>
      if literals.contains w then some (.literal w, rest)
      else if w = "NOT" then do
        let (a, rest) ← readAt fuel notLevel rest
        some (.not a, rest)
      else if w = "CASE" then do
        let rest ← expect (.word "WHEN") rest
        let (c, rest) ← readAt fuel 0 rest
        let rest ← expect (.word "THEN") rest
        let (a, rest) ← readAt fuel 0 rest
        let rest ← expect (.word "ELSE") rest
        let (b, rest) ← readAt fuel 0 rest
        some (.choice c a b, ← expect (.word "END") rest)
      else if w = "CAST" then do
        let rest ← expect (.symbol "(") rest
        let (a, rest) ← readAt fuel 0 rest
        let rest ← expect (.word "AS") rest
        let rest ← expect (.word "DOUBLE") rest
        let rest ← expect (.word "PRECISION") rest
        some (.double a, ← expect (.symbol ")") rest)
      else if reserved.contains w then none
      else match rest with
        | .symbol "(" :: rest => do
          let (args, rest) ← readArguments fuel rest
          some (.call w args, rest)
        | _ => some (.name w, rest)

def readArguments : Nat → List Token → Option (List Tree × List Token)
  | 0, _ => none
  | fuel + 1, tokens =>
    match tokens with
    | .symbol ")" :: rest => some ([], rest)
    | _ => do
      let (a, rest) ← readAt fuel 0 tokens
      let (args, rest) ← readMore fuel rest
      some (a :: args, rest)

def readMore : Nat → List Token → Option (List Tree × List Token)
  | 0, _ => none
  | fuel + 1, tokens =>
    match tokens with
    | .symbol ")" :: rest => some ([], rest)
    | .symbol "," :: rest => do
      let (a, rest) ← readAt fuel 0 rest
      let (args, rest) ← readMore fuel rest
      some (a :: args, rest)
    | _ => none

end

/-- The expression that tokens spell, all of them. Two steps for each token suffice, and one
more. -/
def readTokens? (tokens : List Token) : Option Tree := do
  let (a, rest) ← readAt (2 * tokens.length + 1) 0 tokens
  if rest = [] then some a else none

def read? (source : String) : Option Tree := (scan source).bind readTokens?

/-! ## Functions -/

mutual

/-- Every function called is a word of no other use. -/
def Tree.Free : Tree → Prop
  | .number _ | .literal _ | .name _ | .text _ => True
  | .negative a | .not a | .isNull a | .double a => a.Free
  | .operation _ a b => a.Free ∧ b.Free
  | .call function args => function ∉ reserved ∧ Tree.FreeAll args
  | .choice c a b => c.Free ∧ a.Free ∧ b.Free

def Tree.FreeAll : List Tree → Prop
  | [] => True
  | a :: rest => a.Free ∧ Tree.FreeAll rest

end

/-- What is read, if anything is, has a property. -/
def Gives {α : Type} (read : Option (α × List Token)) (post : α → Prop) : Prop :=
  ∀ a rest, read = some (a, rest) → post a

section
variable {α β : Type} {post : α → Prop} {mid : β → Prop}

theorem gives_none : Gives none post := fun _ _ none => (nomatch none)

theorem gives_some {a : α} {rest : List Token} (h : post a) : Gives (some (a, rest)) post := by
  rintro _ _ ⟨⟩
  exact h

theorem Gives.bind {x : Option (β × List Token)} {f : β × List Token → Option (α × List Token)}
    (first : Gives x mid) (next : ∀ b rest, mid b → Gives (f (b, rest)) post) :
    Gives (x >>= f) post := by
  intro a rest read
  obtain ⟨⟨b, more⟩, some, read⟩ := Option.bind_eq_some_iff.1 read
  exact next b more (first b more some) a rest read

theorem gives_expect {token : Token} {tokens : List Token}
    {f : List Token → Option (α × List Token)} (next : ∀ rest, Gives (f rest) post) :
    Gives (expect token tokens >>= f) post := by
  intro a rest read
  obtain ⟨more, -, read⟩ := Option.bind_eq_some_iff.1 read
  exact next more a rest read

end

/-- What the reader gives with some number of steps. -/
structure ReadsFree (fuel : Nat) : Prop where
  whole : ∀ least tokens, Gives (readAt fuel least tokens) Tree.Free
  continued : ∀ least left tokens, left.Free → Gives (readOn fuel least left tokens) Tree.Free
  first : ∀ tokens, Gives (readFirst fuel tokens) Tree.Free
  arguments : ∀ tokens, Gives (readArguments fuel tokens) Tree.FreeAll
  more : ∀ tokens, Gives (readMore fuel tokens) Tree.FreeAll

/-- One more step for what stands on its own. -/
theorem ReadsFree.atom {fuel : Nat} (h : ReadsFree fuel) (token : Token) (rest : List Token) :
    Gives (readFirst (fuel + 1) (token :: rest)) Tree.Free := by
  rw [readFirst.eq_def]
  dsimp only
  cases token with
  | number s => exact gives_some trivial
  | name s => exact gives_some trivial
  | text s => exact gives_some trivial
  | symbol s =>
    dsimp only
    split
    · exact (h.whole _ _).bind fun a rest free => gives_expect fun _ => gives_some free
    · split
      · exact (h.first _).bind fun a rest free => gives_some free
      · exact gives_none
  | word w =>
    dsimp only
    split
    · exact gives_some trivial
    split
    · exact (h.whole _ _).bind fun a rest free => gives_some free
    split
    · refine gives_expect fun rest => (h.whole _ _).bind fun c rest freec => ?_
      refine gives_expect fun rest => (h.whole _ _).bind fun a rest freea => ?_
      refine gives_expect fun rest => (h.whole _ _).bind fun b rest freeb => ?_
      exact gives_expect fun rest => gives_some ⟨freec, freea, freeb⟩
    split
    · refine gives_expect fun rest => (h.whole _ _).bind fun a rest free => ?_
      exact gives_expect fun _ => gives_expect fun _ => gives_expect fun _ =>
        gives_expect fun _ => gives_some free
    split
    · exact gives_none
    · rename_i other
      split
      · refine (h.arguments _).bind fun args rest free => gives_some ⟨?_, free⟩
        simpa using other
      · exact gives_some trivial

theorem readsFree (fuel : Nat) : ReadsFree fuel := by
  induction fuel with
  | zero =>
    exact ⟨fun _ _ => gives_none, fun _ _ _ _ => gives_none, fun _ => gives_none,
      fun _ => gives_none, fun _ => gives_none⟩
  | succ fuel ih =>
    refine ⟨fun least tokens => ?_, fun least left tokens free => ?_, fun tokens => ?_,
      fun tokens => ?_, fun tokens => ?_⟩
    · rw [readAt]
      exact (ih.first tokens).bind fun a rest => ih.continued least a rest
    · cases tokens with
      | nil => exact gives_some free
      | cons token rest =>
        rw [readOn]
        split
        · split
          · exact (ih.whole _ _).bind fun right rest free' => ih.continued _ _ _ ⟨free, free'⟩
          · exact gives_some free
        · split
          · exact gives_expect fun rest => ih.continued _ _ _ free
          · exact gives_some free
    · cases tokens with
      | nil => exact gives_none
      | cons token rest => exact ih.atom token rest
    · rw [readArguments.eq_def]
      dsimp only
      split
      · exact gives_some trivial
      · exact (ih.whole _ _).bind fun a rest free => (ih.more _).bind fun args rest frees =>
          gives_some ⟨free, frees⟩
    · rw [readMore.eq_def]
      dsimp only
      split
      · exact gives_some trivial
      · exact (ih.whole _ _).bind fun a rest free => (ih.more _).bind fun args rest frees =>
          gives_some ⟨free, frees⟩
      · exact gives_none

/-- No word of another use is read as a function. -/
theorem free_of_read? {source : String} {a : Tree} (read : read? source = some a) : a.Free := by
  obtain ⟨tokens, -, read⟩ := Option.bind_eq_some_iff.1 read
  obtain ⟨⟨b, rest⟩, whole, read⟩ := Option.bind_eq_some_iff.1 read
  dsimp only at read
  split at read
  · cases read
    exact (readsFree _).whole _ _ _ _ whole
  · cases read

end TableFlow.Sql
