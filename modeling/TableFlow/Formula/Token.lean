import TableFlow.Text.Printable
import TableFlow.Value.Basic

/-!
# Tokens of formula text

Operator symbols have one spelling here (`Symbol.text`); the words `and`, `or` and `not`
come as words and are operators where one is looked for (`Token.symbol?`).
-/

namespace TableFlow.Formula

inductive Symbol where
  | plus
  | minus
  | times
  | divide
  | percent
  | eq
  | ne
  | lt
  | le
  | gt
  | ge
  | and
  | or
  | not
  deriving DecidableEq, Repr

def Symbol.text : Symbol → String
  | .plus => "+"
  | .minus => "-"
  | .times => "*"
  | .divide => "/"
  | .percent => "%"
  | .eq => "=="
  | .ne => "!="
  | .lt => "<"
  | .le => "<="
  | .gt => ">"
  | .ge => ">="
  | .and => "and"
  | .or => "or"
  | .not => "not"

inductive Token where
  /-- Digits without a sign, below `2 ^ 64`. -/
  | whole (magnitude : Nat)
  | decimal (x : Float)
  | text (s : String)
  /-- A word, which may be a keyword. -/
  | word (s : String)
  /-- A name in back quotes, which never is a keyword. -/
  | name (s : String)
  | op (s : Symbol)
  | leftParen
  | rightParen
  | comma
  | dot
  | eof
  deriving DecidableEq

/-- How messages show a token. -/
def Token.show : Token → String
  | .whole n => "Integer(" ++ toString n ++ ")"
  | .decimal x => "Float(" ++ Value.floatText x ++ ")"
  | .text s => "Str(" ++ Text.quoted s ++ ")"
  | .word s => "Ident(" ++ Text.quoted s ++ ")"
  | .name s => "QuotedIdent(" ++ Text.quoted s ++ ")"
  | .op s => "Op(" ++ Text.quoted s.text ++ ")"
  | .leftParen => "LParen"
  | .rightParen => "RParen"
  | .comma => "Comma"
  | .dot => "Dot"
  | .eof => "Eof"

def Token.symbol? : Token → Option Symbol
  | .op s => some s
  | .word "and" => some .and
  | .word "or" => some .or
  | .word "not" => some .not
  | _ => none

/-- A token and the number of characters before it. -/
structure Located where
  token : Token
  offset : Nat
  deriving DecidableEq

inductive SyntaxFault where
  | unterminated (quote : Char)
  | invalidNumber (text : String)
  | singleEquals
  | unexpectedCharacter (c : Char)
  | trailing (found : Token)
  | unexpected (found : Token)
  | expected (wanted found : Token)
  | expectedMethod (found : Token)
  | expectedCommaOrParen (found : Token)
  deriving DecidableEq

def SyntaxFault.message : SyntaxFault → String
  | .unterminated quote => "unterminated " ++ quote.toString ++ "-quoted text"
  | .invalidNumber text => "invalid number '" ++ text ++ "'"
  | .singleEquals => "single '=' is not an operator, use '=='"
  | .unexpectedCharacter c => "unexpected character '" ++ c.toString ++ "'"
  | .trailing found => "unexpected trailing " ++ found.show
  | .unexpected found => "unexpected " ++ found.show
  | .expected wanted found => "expected " ++ wanted.show ++ ", found " ++ found.show
  | .expectedMethod found => "expected method name, found " ++ found.show
  | .expectedCommaOrParen found => "expected ',' or ')', found " ++ found.show

end TableFlow.Formula
