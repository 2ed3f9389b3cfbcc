import TableFlow.Json.Numeral

/-!
# Tokens of JSON texts

`Json.tokens?` cuts a text into brackets, separators, words, numerals and strings. A string
whose escapes spell half a character is kept as such: it is an error only where it is read.
-/

namespace TableFlow.Json

inductive Token where
  | openList
  | closeList
  | openMap
  | closeMap
  | comma
  | colon
  | null
  | bool (b : Bool)
  | number (n : Numeral)
  /-- The text, unless its escapes spell half a character. -/
  | text (s : Option String)
  deriving DecidableEq

/-! ## Strings -/

/-- A part of a string: a character, or one of the two halves in which escapes spell
characters beyond the first 65536. -/
inductive Piece where
  | char (c : Char)
  | half (code : Nat)

def hexDigit? (c : Char) : Option Nat :=
  if c.isDigit then some (c.toNat - '0'.toNat)
  else if 'a' ≤ c ∧ c ≤ 'f' then some (c.toNat - 'a'.toNat + 10)
  else if 'A' ≤ c ∧ c ≤ 'F' then some (c.toNat - 'A'.toNat + 10)
  else none

def hexFour? (a b c d : Char) : Option Nat := do
  some ((((← hexDigit? a) * 16 + (← hexDigit? b)) * 16 + (← hexDigit? c)) * 16
    + (← hexDigit? d))

def pieceOf (code : Nat) : Piece :=
  if 0xD800 ≤ code ∧ code < 0xE000 then .half code else .char (Char.ofNat code)

def escape? : Char → Option Char
  | '"' => some '"'
  | '\\' => some '\\'
  | '/' => some '/'
  | 'b' => some '\x08'
  | 'f' => some '\x0c'
  | 'n' => some '\n'
  | 'r' => some '\r'
  | 't' => some '\t'
  | _ => none

/-- The pieces of a string up to its closing quote, and what follows it. -/
def stringBody? : List Char → Option (List Piece × List Char)
  | [] => none
  | '"' :: rest => some ([], rest)
  | '\\' :: 'u' :: a :: b :: c :: d :: rest => do
    let code ← hexFour? a b c d
    let (pieces, tail) ← stringBody? rest
    some (pieceOf code :: pieces, tail)
  | '\\' :: e :: rest => do
    let c ← escape? e
    let (pieces, tail) ← stringBody? rest
    some (.char c :: pieces, tail)
  | c :: rest =>
    if c.toNat < 32 ∨ c = '\\' then none
    else (stringBody? rest).map fun (pieces, tail) => (.char c :: pieces, tail)

/-- The characters of a string; a leading half must be followed by a trailing one. -/
def join? : List Piece → Option (List Char)
  | [] => some []
  | .char c :: rest => (join? rest).map (c :: ·)
  | .half lead :: .half trail :: rest =>
    if lead < 0xDC00 ∧ 0xDC00 ≤ trail then
      (join? rest).map (Char.ofNat ((lead - 0xD800) * 1024 + (trail - 0xDC00) + 0x10000) :: ·)
    else none
  | .half _ :: _ => none

/-! ## Numerals -/

/-- At least one digit, and what follows the digits. -/
def digits? (text : List Char) : Option (List Char × List Char) :=
  match text.takeWhile Char.isDigit with
  | [] => none
  | ds => some (ds, text.dropWhile Char.isDigit)

def exponent? : List Char → Option (Option (Bool × List Char) × List Char)
  | [] => some (none, [])
  | e :: rest =>
    if e = 'e' ∨ e = 'E' then do
      let (negative, unsigned) := Number.splitSign rest
      let (ds, tail) ← digits? unsigned
      some (some (negative, ds), tail)
    else some (none, e :: rest)

def fraction? : List Char → Option (Option (List Char) × List Char)
  | '.' :: rest => do
    let (ds, tail) ← digits? rest
    some (some ds, tail)
  | text => some (none, text)

/-- The numeral at the head of a text; only zero starts with a zero. -/
def numeral? (text : List Char) : Option (Numeral × List Char) := do
  let (negative, unsigned) := match text with
    | '-' :: rest => (true, rest)
    | _ => (false, text)
  let (whole, rest) ← digits? unsigned
  if whole.head? = some '0' ∧ 1 < whole.length then none
  let (fraction, rest) ← fraction? rest
  let (exponent, rest) ← exponent? rest
  some (⟨negative, whole, fraction, exponent⟩, rest)

/-! ## Tokens -/

def isSpace (c : Char) : Bool := c == ' ' || c == '\n' || c == '\t' || c == '\r'

/-- The token at the head of a text without leading space, and what follows it. -/
def nextToken? : List Char → Option (Token × List Char)
  | '[' :: rest => some (.openList, rest)
  | ']' :: rest => some (.closeList, rest)
  | '\x7b' :: rest => some (.openMap, rest)
  | '\x7d' :: rest => some (.closeMap, rest)
  | ',' :: rest => some (.comma, rest)
  | ':' :: rest => some (.colon, rest)
  | 'n' :: 'u' :: 'l' :: 'l' :: rest => some (.null, rest)
  | 't' :: 'r' :: 'u' :: 'e' :: rest => some (.bool true, rest)
  | 'f' :: 'a' :: 'l' :: 's' :: 'e' :: rest => some (.bool false, rest)
  | '"' :: rest => do
    let (pieces, tail) ← stringBody? rest
    some (.text ((join? pieces).map String.ofList), tail)
  | text => (numeral? text).map fun (n, tail) => (.number n, tail)

/-- The tokens of a text. Every token has a character of its own, so as many steps as there
are characters suffice. -/
def tokensFrom? : Nat → List Char → Option (List Token)
  | 0, text => if text.all isSpace then some [] else none
  | steps + 1, text =>
    match text.dropWhile isSpace with
    | [] => some []
    | head => do
      let (token, tail) ← nextToken? head
      (tokensFrom? steps tail).map (token :: ·)

def tokens? (source : String) : Option (List Token) :=
  tokensFrom? source.length source.toList

end TableFlow.Json
