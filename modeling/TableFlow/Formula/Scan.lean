import TableFlow.Error
import TableFlow.Number.Reading
import TableFlow.Text.Letter

/-!
# Formula text to tokens

`Formula.scan` cuts a text into its tokens, each with the number of characters before it,
and ends them with one `eof`. White space separates tokens and is dropped.
-/

namespace TableFlow.Formula

def startsWord (c : Char) : Bool :=
  Text.isLetter c || c == '_'

def continuesWord (c : Char) : Bool :=
  Text.isWordPart c || c == '_'

/-- Text up to the closing quote, and what follows that quote. A quote written twice is a
quote in the text; `none` if the text never ends. -/
def closeQuote (quote : Char) : List Char → Option (List Char × List Char)
  | [] => none
  | c :: rest =>
    if c = quote then
      match rest with
      | d :: after =>
        if d = quote then (closeQuote quote after).map fun (s, tail) => (quote :: s, tail)
        else some ([], d :: after)
      | [] => some ([], [])
    else (closeQuote quote rest).map fun (s, tail) => (c :: s, tail)

/-- Whether digits, or a sign and digits, follow an exponent mark. -/
def exponentFollows : List Char → Bool
  | c :: rest => c.isDigit || ((c == '+' || c == '-') && rest.head?.any Char.isDigit)
  | [] => false

/-- The longest run of characters of a number: its text, whether it has a point or an
exponent, and what follows. A point belongs to it once and only before a digit. -/
def numberRun : Bool → List Char → List Char × Bool × List Char
  | fractional, [] => ([], fractional, [])
  | fractional, c :: rest =>
    if c.isDigit then
      let (text, f, tail) := numberRun fractional rest
      (c :: text, f, tail)
    else if c = '.' ∧ fractional = false ∧ rest.head?.any Char.isDigit = true then
      let (text, f, tail) := numberRun true rest
      (c :: text, f, tail)
    else if (c = 'e' ∨ c = 'E') ∧ exponentFollows rest = true then
      match rest with
      | s :: after =>
        if s = '+' ∨ s = '-' then
          let (text, f, tail) := numberRun true after
          (c :: s :: text, f, tail)
        else
          let (text, f, tail) := numberRun true (s :: after)
          (c :: text, f, tail)
      | [] => ([c], true, [])
    else ([], fractional, c :: rest)

/-- The token of a number's text. Whole numbers beyond 64 bits become decimals. -/
def numberToken? (text : List Char) (fractional : Bool) : Option Token :=
  if fractional then (Number.readFloat? text).map .decimal
  else match Number.readNat? text with
    | some n => if n < UInt64.size then some (.whole n) else (Number.readFloat? text).map .decimal
    | none => (Number.readFloat? text).map .decimal

def symbolAt? : List Char → Option (Symbol × List Char)
  | '=' :: '=' :: rest => some (.eq, rest)
  | '!' :: '=' :: rest => some (.ne, rest)
  | '<' :: '=' :: rest => some (.le, rest)
  | '<' :: '>' :: rest => some (.ne, rest)
  | '>' :: '=' :: rest => some (.ge, rest)
  | '&' :: '&' :: rest => some (.and, rest)
  | '|' :: '|' :: rest => some (.or, rest)
  | '+' :: rest => some (.plus, rest)
  | '-' :: rest => some (.minus, rest)
  | '*' :: rest => some (.times, rest)
  | '/' :: rest => some (.divide, rest)
  | '%' :: rest => some (.percent, rest)
  | '!' :: rest => some (.not, rest)
  | '<' :: rest => some (.lt, rest)
  | '>' :: rest => some (.gt, rest)
  | '&' :: rest => some (.and, rest)
  | '|' :: rest => some (.or, rest)
  | _ => none

/-- The token at the head of a text that does not start with white space, and what follows
it. -/
def nextToken : List Char → Except SyntaxFault (Token × List Char)
  | [] => .ok (.eof, [])
  | c :: rest =>
    if c = '(' then .ok (.leftParen, rest)
    else if c = ')' then .ok (.rightParen, rest)
    else if c = ',' then .ok (.comma, rest)
    else if c = '.' ∧ rest.head?.any Char.isDigit = false then .ok (.dot, rest)
    else if c = '\'' ∨ c = '"' then
      match closeQuote c rest with
      | some (s, tail) => .ok (.text (String.ofList s), tail)
      | none => .error (.unterminated c)
    else if c = '`' then
      match closeQuote c rest with
      | some (s, tail) => .ok (.name (String.ofList s), tail)
      | none => .error (.unterminated c)
    else match symbolAt? (c :: rest) with
      | some (s, tail) => .ok (.op s, tail)
      | none =>
        if c = '=' then .error .singleEquals
        else if c.isDigit ∨ c = '.' then
          let (text, fractional, tail) := numberRun false (c :: rest)
          match numberToken? text fractional with
          | some token => .ok (token, tail)
          | none => .error (.invalidNumber (String.ofList text))
        else if startsWord c then
          .ok (.word (String.ofList (c :: rest.takeWhile continuesWord)),
            rest.dropWhile continuesWord)
        else .error (.unexpectedCharacter c)

/-- The tokens of what is left of a text of `size` characters. Every token but `eof` has a
character of its own, so as many steps as there are characters suffice. -/
def scanFrom (size : Nat) : Nat → List Char → Except Error (List Located)
  | 0, _ => .ok [⟨.eof, size⟩]
  | steps + 1, text =>
    match text.dropWhile Text.isBlank with
    | [] => .ok [⟨.eof, size⟩]
    | c :: rest =>
      let offset := size - (c :: rest).length
      match nextToken (c :: rest) with
      | .error fault => .error (.badFormula offset fault)
      | .ok (token, tail) =>
        (scanFrom size steps tail).map (⟨token, offset⟩ :: ·)

def scan (source : String) : Except Error (List Located) :=
  let text := source.toList
  scanFrom text.length text.length text

end TableFlow.Formula
