import TableFlow.Number.Binary

/-!
# Reading decimal text

A number is written as digits with at most one point among or around them, an optional
exponent and an optional sign. `readFloat?` also knows the words for infinity and NaN.
-/

namespace TableFlow.Number

def digitsValue (digits : List Char) : Nat :=
  digits.foldl (fun n c => 10 * n + (c.toNat - '0'.toNat)) 0

def readNat? (text : List Char) : Option Nat :=
  if !text.isEmpty && text.all Char.isDigit then some (digitsValue text) else none

/-- A leading sign, and what follows it. -/
def splitSign : List Char → Bool × List Char
  | '-' :: rest => (true, rest)
  | '+' :: rest => (false, rest)
  | text => (false, text)

def readInt? (text : List Char) : Option Int :=
  let (negative, rest) := splitSign text
  (readNat? rest).map fun n => if negative then -(n : Int) else n

/-- An exponent part, or nothing at all, which stands for zero. -/
def readExponent? : List Char → Option Int
  | [] => some 0
  | c :: rest => if c = 'e' ∨ c = 'E' then readInt? rest else none

/-- The nearest double to a number without a sign. -/
def readMagnitude? (text : List Char) : Option Float :=
  let whole := text.takeWhile Char.isDigit
  let afterWhole := text.dropWhile Char.isDigit
  let afterPoint := if afterWhole.head? = some '.' then afterWhole.drop 1 else []
  let fraction := afterPoint.takeWhile Char.isDigit
  let tail :=
    if afterWhole.head? = some '.' then afterPoint.dropWhile Char.isDigit else afterWhole
  if (whole ++ fraction).isEmpty then none
  else (readExponent? tail).map fun e =>
    ofDecimal (digitsValue (whole ++ fraction)) (e - fraction.length)

def readFloat? (text : List Char) : Option Float :=
  let (negative, rest) := splitSign text
  let word := String.ofList (rest.map Char.toLower)
  (if word = "inf" ∨ word = "infinity" then some (1.0 / 0.0)
    else if word = "nan" then some (0.0 / 0.0)
    else readMagnitude? rest).map (signed negative)

end TableFlow.Number
