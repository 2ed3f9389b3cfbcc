import TableFlow.Number.Binary

/-!
# Shortest decimal text of a double

`Decimal.shortest` finds the fewest digits that read back as the same double, and of
those the ones nearest to it. `Layout` says how such digits are written: where the
point goes, from where on an exponent is used and which way an exact tie goes.
-/

namespace TableFlow.Number

structure Decimal where
  digits : Nat
  exponent : Int
  deriving DecidableEq, Repr

/-- Which of two equally near decimals is taken. -/
inductive Tie where
  | up
  | even
  deriving DecidableEq, Repr

/-- The binary fractions of a format: their least exponent, and the power of two that their
significand reaches in all but the smallest of them. -/
structure Precision where
  leading : Nat
  least : Int
  deriving DecidableEq, Repr

def double : Precision := ⟨0x10000000000000, -1074⟩

def single : Precision := ⟨0x800000, -149⟩

namespace Decimal

/-- The interval of reals that round to `significand · 2 ^ exponent`, in quarters of the
last place: it ends half a place above and below, but only a quarter below a power of
two, where the fractions get denser. Its ends round to an even significand. -/
structure Interval where
  low : Nat
  value : Nat
  high : Nat
  closed : Bool

def Interval.of (p : Precision) (b : Binary) : Interval where
  low := if b.significand = p.leading ∧ p.least < b.exponent then 4 * b.significand - 1
    else 4 * b.significand - 2
  value := 4 * b.significand
  high := 4 * b.significand + 2
  closed := b.significand % 2 = 0

/-- Whether a number in the same unit reads back. -/
def Interval.holds (i : Interval) (n scale : Nat) : Bool :=
  if i.closed then i.low * scale ≤ n && n ≤ i.high * scale
  else i.low * scale < n && n < i.high * scale

/-- The decimal on the grid `10 ^ k` that reads back and is nearest to the value, if
there is one. With `e` the exponent of the interval's unit, both sides are multiplied
out to integers. -/
def onGrid? (tie : Tie) (i : Interval) (e k : Int) : Option Decimal :=
  let scale := Nat.pow 2 e.toNat * Nat.pow 10 (-k).toNat
  let grid := Nat.pow 10 k.toNat * Nat.pow 2 (-e).toNat
  let below := i.value * scale / grid
  let above := below + 1
  match i.holds (below * grid) scale, i.holds (above * grid) scale with
  | false, false => none
  | true, false => some ⟨below, k⟩
  | false, true => some ⟨above, k⟩
  | true, true =>
    match compare (2 * (i.value * scale)) ((below + above) * grid), tie with
    | .lt, _ => some ⟨below, k⟩
    | .gt, _ => some ⟨above, k⟩
    | .eq, .up => some ⟨above, k⟩
    | .eq, .even => some ⟨if below % 2 = 0 then below else above, k⟩

def search (tie : Tie) (i : Interval) (e : Int) : Nat → Int → Decimal
  | 0, k => (onGrid? tie i e k).getD ⟨0, 0⟩
  | steps + 1, k => (onGrid? tie i e k).getD (search tie i e steps (k - 1))

/-- Trailing zeros moved into the exponent. -/
def trim : Nat → Decimal → Decimal
  | 0, d => d
  | fuel + 1, d =>
    if d.digits ≠ 0 ∧ d.digits % 10 = 0 then trim fuel ⟨d.digits / 10, d.exponent + 1⟩ else d

/-- The shortest decimal that reads back as a positive fraction. The first grid is
coarser than the number; twenty steps later there are more than seventeen digits, which
always suffice. -/
def shortest (tie : Tie) (p : Precision) (b : Binary) : Decimal :=
  let size : Int := b.significand.log2 + b.exponent
  let start := (size + 1) * 30103 / 100000 + 1
  trim 20 (search tie (Interval.of p b) (b.exponent - 2) 20 start)

end Decimal

/-- How decimals are laid out as text. -/
structure Layout where
  /-- Numbers whose leading digit stands for `10 ^ e` are written without an exponent for
  `plainFrom ≤ e < plainBelow`. -/
  plainFrom : Int
  plainBelow : Int
  /-- Written before an exponent that is not negative. -/
  plus : String
  tie : Tie

namespace Layout

/-- A decimal with at least one digit on each side of the point, or with one digit
before the point and an exponent. -/
def place (l : Layout) (d : Decimal) : String :=
  let digits := (toString d.digits).toList
  let lead : Int := digits.length - 1 + d.exponent
  let zeros (n : Int) : List Char := List.replicate n.toNat '0'
  if l.plainFrom ≤ lead ∧ lead < l.plainBelow then
    if lead < 0 then String.ofList (['0', '.'] ++ zeros (-lead - 1) ++ digits)
    else if 0 ≤ d.exponent then String.ofList (digits ++ zeros d.exponent ++ ['.', '0'])
    else String.ofList (digits.take (lead.toNat + 1) ++ '.' :: digits.drop (lead.toNat + 1))
  else
    let fraction := digits.drop 1
    let point := if fraction.isEmpty then [] else '.' :: fraction
    String.ofList (digits.take 1 ++ point) ++ "e" ++ (if lead < 0 then "-" else l.plus)
      ++ toString lead.natAbs

/-- A binary fraction; a zero keeps its sign. -/
def fraction (l : Layout) (p : Precision) (b : Binary) : String :=
  let sign := if b.negative then "-" else ""
  if b.significand = 0 then sign ++ "0.0"
  else sign ++ l.place (Decimal.shortest l.tie p b)

def finite (l : Layout) (x : Float) : String := l.fraction double (Binary.ofFloat x)

end Layout

end TableFlow.Number
