/-!
# Doubles as exact binary fractions

`Binary.ofFloat` reads a finite double as `± significand · 2 ^ exponent`. On that
form rounding to an integer, the remainder of a division and the total order of
doubles are exact integer arithmetic. `Float.ofDecimal` goes the other way: it is
the double nearest to a decimal fraction.
-/

namespace TableFlow.Number

/-- The number `± significand · 2 ^ exponent`; the sign is kept apart, for zero too. -/
structure Binary where
  negative : Bool
  significand : Nat
  exponent : Int
  deriving DecidableEq, Repr

namespace Binary

/-- The fraction that a finite double stands for: its bits are the sign, 11 bits of exponent and
52 bits of the significand, whose leading bit is left out. -/
def ofFloat (x : Float) : Binary :=
  let bits := x.toBits.toNat
  let fraction : Nat := bits % 0x10000000000000
  let biased : Nat := bits / 0x10000000000000 % 0x800
  let negative : Bool := 0x8000000000000000 ≤ bits
  if biased = 0 then ⟨negative, fraction, -1074⟩
  else ⟨negative, fraction + 0x10000000000000, (biased : Int) - 1075⟩

/-- The fraction that a finite single-precision number stands for: the exponent has 8 bits and
the significand 23. -/
def ofFloat32 (x : Float32) : Binary :=
  let bits := x.toBits.toNat
  let fraction : Nat := bits % 0x800000
  let biased : Nat := bits / 0x800000 % 0x100
  let negative : Bool := 0x80000000 ≤ bits
  if biased = 0 then ⟨negative, fraction, -149⟩
  else ⟨negative, fraction + 0x800000, (biased : Int) - 150⟩

def whole (b : Binary) : Nat :=
  if 0 ≤ b.exponent then b.significand * Nat.pow 2 b.exponent.toNat
  else b.significand / Nat.pow 2 (-b.exponent).toNat

/-- What the integer part leaves, over the denominator `2 ^ (-exponent)`. -/
def rest (b : Binary) : Nat :=
  if 0 ≤ b.exponent then 0 else b.significand % Nat.pow 2 (-b.exponent).toNat

end Binary

def signed (negative : Bool) (magnitude : Float) : Float :=
  if negative then -magnitude else magnitude

/-- `digits · 10 ^ exponent` rounded to the nearest double. Exponents beyond the range
of doubles are settled first, so the powers of ten stay small. -/
def ofDecimal (digits : Nat) (exponent : Int) : Float :=
  let size : Int := (toString digits).length
  if digits = 0 ∨ exponent + size < -400 then 0.0
  else if 400 < exponent + size then 1.0 / 0.0
  else if exponent < 0 then Float.ofScientific digits true (-exponent).toNat
  else Float.ofScientific digits false exponent.toNat

/-- The double nearest to `n · 2 ^ e`: a negative power of two is a power of five over a
power of ten. -/
def ofBinary (n : Nat) (e : Int) : Float :=
  if 0 ≤ e then ofDecimal (n * Nat.pow 2 e.toNat) 0
  else ofDecimal (n * Nat.pow 5 (-e).toNat) e

def ofInt (i : Int) : Float :=
  signed (i < 0) (ofDecimal i.natAbs 0)

def ofInt64 (i : Int64) : Float :=
  signed (i.toInt < 0) i.toInt.natAbs.toUInt64.toFloat

/-! ## Rounding to an integer -/

/-- Rounds a finite double to an integer: `up negative rest half` tells whether the
magnitude goes to the next integer, where `rest` is what is cut off, in units of which
`2 * half` make one. Doubles without a fraction, infinities and NaN stay. -/
def roundBy (up : Bool → Nat → Nat → Bool) (x : Float) : Float :=
  let b := Binary.ofFloat x
  if !x.isFinite || b.exponent ≥ 0 then x
  else
    let half := Nat.pow 2 ((-b.exponent).toNat - 1)
    let n := if up b.negative b.rest half then b.whole + 1 else b.whole
    signed b.negative (ofDecimal n 0)

def floor : Float → Float :=
  roundBy fun negative rest _ => negative && rest != 0

def ceil : Float → Float :=
  roundBy fun negative rest _ => !negative && rest != 0

/-- The nearest integer; a half goes away from zero. -/
def round : Float → Float :=
  roundBy fun _ rest half => half ≤ rest

/-! ## Remainder -/

/-- The remainder of the division that truncates toward zero; it has the sign of the
dividend. NaN for an infinite dividend or a zero divisor. -/
def remainder (x y : Float) : Float :=
  if x.isNaN || y.isNaN || x.isInf || y == 0.0 then 0.0 / 0.0
  else if y.isInf then x
  else
    let a := Binary.ofFloat x
    let b := Binary.ofFloat y
    let e := min a.exponent b.exponent
    let m := a.significand * Nat.pow 2 (a.exponent - e).toNat
    let n := b.significand * Nat.pow 2 (b.exponent - e).toNat
    signed a.negative (ofBinary (m % n) e)

/-! ## Order -/

/-- Doubles in their total order, as integers: by sign, then by the bits of the
magnitude, so that `-0.0` stands right below `0.0`. -/
def rank (x : Float) : Int :=
  let bits := x.toBits.toNat
  if 0x8000000000000000 ≤ bits then -((bits - 0x8000000000000000 : Nat) : Int) - 1 else bits

def totalCompare (x y : Float) : Ordering :=
  compare (rank x) (rank y)

/-- The order of the numbers that two doubles stand for; none with a NaN. -/
def partialCompare (x y : Float) : Option Ordering :=
  if x < y then some .lt
  else if x == y then some .eq
  else if x > y then some .gt
  else none

end TableFlow.Number
