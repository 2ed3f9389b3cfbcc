import TableFlow.Number.Reading

/-!
# Numbers of JSON texts

A numeral without a point and an exponent that fits 64 bits is a whole number. Any other is
a double: its first digits, as many as fit 64 bits, are scaled by one power of ten, so long
numerals can be an ulp away from the nearest double.
-/

namespace TableFlow.Json

structure Numeral where
  negative : Bool
  whole : List Char
  fraction : Option (List Char)
  /-- The sign and the digits of the exponent. -/
  exponent : Option (Bool × List Char)
  deriving DecidableEq, Repr

/-- A whole number, or a double. -/
inductive Number where
  | whole (i : Int)
  | decimal (x : Float)

namespace Numeral

/-- Digits appended to a number as long as it keeps to 64 bits, and the digits left over. -/
def extend (n : Nat) : List Char → Nat × List Char
  | [] => (n, [])
  | c :: rest =>
    let m := 10 * n + (c.toNat - '0'.toNat)
    if m < UInt64.size then extend m rest else (n, c :: rest)

/-- The significand and the exponent that the digits alone stand for: whole digits that do
not fit raise the exponent, such digits of the fraction are dropped. -/
def scaled (n : Numeral) : Nat × Int :=
  let (a, left) := extend 0 n.whole
  let fraction := n.fraction.getD []
  let (b, dropped) := extend a fraction
  (b, (left.length : Int) - (fraction.length - dropped.length : Nat))

def tenTo (k : Nat) : Float := Number.ofDecimal 1 k

/-- A significand scaled by a power of ten, below `1e-308` in two divisions and more; none
beyond the range of doubles. -/
def scale? : Nat → Float → Int → Option Float
  | 0, x, _ => some x
  | steps + 1, x, e =>
    if e.natAbs ≤ 308 then
      if 0 ≤ e then
        let y := x * tenTo e.natAbs
        if y.isInf then none else some y
      else some (x / tenTo e.natAbs)
    else if x == 0.0 then some x
    else if 0 ≤ e then none
    else scale? steps (x / 1e308) (e + 308)

/-- The double that a numeral stands for, if it is in range. Three divisions bring any
significand to zero. -/
def toFloat? (n : Numeral) : Option Float :=
  let (significand, e) := n.scaled
  let x := significand.toUInt64.toFloat
  let magnitude := match n.exponent with
    | none => scale? 4 x e
    | some (negative, digits) =>
      let d := Number.digitsValue digits
      if d < 0x80000000 then scale? 4 x (if negative then e - d else e + d)
      else if significand = 0 ∨ negative then some 0.0 else none
  magnitude.map (Number.signed n.negative)

/-- The number that a numeral stands for, if it is in range. A negative zero is a double. -/
def value? (n : Numeral) : Option Number :=
  let i := Number.digitsValue n.whole
  if n.fraction.isNone ∧ n.exponent.isNone ∧ n.negative = false ∧ i < UInt64.size then
    some (.whole i)
  else if n.fraction.isNone ∧ n.exponent.isNone ∧ n.negative ∧ 0 < i ∧ 2 * i ≤ UInt64.size then
    some (.whole (-i))
  else n.toFloat?.map .decimal

end Numeral

end TableFlow.Json
