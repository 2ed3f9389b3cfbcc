import Mathlib
import TableFlow.Proofs.Number.Rounding

/-!
# The order of doubles

Without its sign, a double is ordered as the number that its bits are. So two numbers compare as
the integers of their signs and bits do (`partialCompare_eq`), and the total order of doubles says
the same of them, the two zeros apart: `-0.0` and `0.0` are one number and stand in two places.
-/

namespace TableFlow.Number

open Float.Model Float.Model.UnpackedFloat

/-! ## Signs and magnitudes -/

/-- The bits of a double without the sign, as an integer of that sign. -/
def level (x : Float) : Int :=
  let bits := x.toBits.toNat
  if 0x8000000000000000 ≤ bits then -((bits - 0x8000000000000000 : Nat) : Int) else bits

/-- The bits of the exponent and the significand, as an integer of the sign. -/
def signedBits : UnpackedFloat → Int
  | .notANumber => 0
  | .infinity s => s.apply 0x7FF0000000000000
  | .zero _ => 0
  | .finite s m e _ => s.apply ((e + 1074) * 2 ^ 52 + m)

/-- A significand of at most 53 bits, at an exponent that a double has; it is shorter only at the
least exponent. -/
def Fits : UnpackedFloat → Prop
  | .finite _ m e _ => m < 2 ^ 53 ∧ -1074 ≤ e ∧ e ≤ 971 ∧ (e = -1074 ∨ 2 ^ 52 ≤ m)
  | _ => True

/-- Exponents come first, and significands of one exponent next. -/
theorem compare_fields {m n : Nat} {e f : Int} (here : m < 2 ^ 53 ∧ (e = -1074 ∨ 2 ^ 52 ≤ m))
    (there : n < 2 ^ 53 ∧ (f = -1074 ∨ 2 ^ 52 ≤ n)) (low : -1074 ≤ e) (low' : -1074 ≤ f) :
    (compare e f).then (compare m n) =
      compare ((e + 1074) * 2 ^ 52 + m) ((f + 1074) * 2 ^ 52 + n) := by
  obtain less | rfl | greater := Int.lt_trichotomy e f
  · have below : (e + 1074) * 2 ^ 52 + m < (f + 1074) * 2 ^ 52 + n := by omega
    rw [compare_lt_iff_lt.2 less, compare_lt_iff_lt.2 below]
    rfl
  · rw [compare_eq_iff_eq.2 rfl, Ordering.eq_then]
    obtain less | rfl | greater := Nat.lt_trichotomy m n
    · rw [compare_lt_iff_lt.2 less, eq_comm, compare_lt_iff_lt]
      omega
    · rw [compare_eq_iff_eq.2 rfl, compare_eq_iff_eq.2 rfl]
    · rw [compare_gt_iff_gt.2 greater, eq_comm, compare_gt_iff_gt]
      omega
  · have above : (f + 1074) * 2 ^ 52 + n < (e + 1074) * 2 ^ 52 + m := by omega
    rw [compare_gt_iff_gt.2 greater, compare_gt_iff_gt.2 above]
    rfl

/-- A finite number is above zero and below infinity. -/
theorem Fits.between {s : Sign} {m : Nat} {e : Int} {pos : 0 < m}
    (fits : Fits (.finite s m e pos)) :
    0 < (e + 1074) * 2 ^ 52 + m ∧ (e + 1074) * 2 ^ 52 + m < 0x7FF0000000000000 := by
  obtain ⟨short, low, high, -⟩ := fits
  omega

theorem some_lt {a b : Int} (less : a < b) : some Ordering.lt = some (compare a b) :=
  congrArg some (compare_lt_iff_lt.2 less).symm

theorem some_gt {a b : Int} (greater : b < a) : some Ordering.gt = some (compare a b) :=
  congrArg some (compare_gt_iff_gt.2 greater).symm

theorem compare_opposite (a b : Int) : (compare a b).swap = compare (-a) (-b) := by
  obtain less | rfl | greater := Int.lt_trichotomy a b
  · rw [compare_lt_iff_lt.2 less, eq_comm]
    exact compare_gt_iff_gt.2 (Int.neg_lt_neg less)
  · rw [compare_eq_iff_eq.2 rfl, compare_eq_iff_eq.2 rfl]
    rfl
  · rw [compare_gt_iff_gt.2 greater, eq_comm]
    exact compare_lt_iff_lt.2 (Int.neg_lt_neg greater)

/-- What is compared is the signed integer of exponent and significand. -/
theorem compare_signedBits {u v : UnpackedFloat} (fits : Fits u) (fits' : Fits v)
    (number : u ≠ .notANumber) (number' : v ≠ .notANumber) :
    u.compare v = some (compare (signedBits u) (signedBits v)) := by
  cases u with
  | notANumber => exact absurd rfl number
  | zero s =>
    cases v with
    | notANumber => exact absurd rfl number'
    | zero t => cases s <;> cases t <;> rfl
    | infinity t => cases s <;> cases t <;> rfl
    | finite t n f pos =>
      have := fits'.between
      cases t
      · exact some_gt (by simp only [signedBits, Sign.apply]; omega)
      · exact some_lt (by simp only [signedBits, Sign.apply]; omega)
  | infinity s =>
    cases v with
    | notANumber => exact absurd rfl number'
    | zero t => cases s <;> cases t <;> rfl
    | infinity t => cases s <;> cases t <;> rfl
    | finite t n f pos =>
      have := fits'.between
      cases s
      · exact some_lt (by cases t <;> simp only [signedBits, Sign.apply] <;> omega)
      · exact some_gt (by cases t <;> simp only [signedBits, Sign.apply] <;> omega)
  | finite s m e pos =>
    have := fits.between
    cases v with
    | notANumber => exact absurd rfl number'
    | zero t =>
      cases s
      · exact some_lt (by simp only [signedBits, Sign.apply]; omega)
      · exact some_gt (by simp only [signedBits, Sign.apply]; omega)
    | infinity t =>
      cases t
      · cases s <;> exact some_gt (by simp only [signedBits, Sign.apply]; omega)
      · cases s <;> exact some_lt (by simp only [signedBits, Sign.apply]; omega)
    | finite t n f pos' =>
      have := fits'.between
      have fields := compare_fields ⟨fits.1, fits.2.2.2⟩ ⟨fits'.1, fits'.2.2.2⟩ fits.2.1 fits'.2.1
      cases s <;> cases t
      · refine congrArg some ?_
        rw [fields]
        exact compare_opposite _ _
      · exact some_lt (by simp only [signedBits, Sign.apply]; omega)
      · exact some_gt (by simp only [signedBits, Sign.apply]; omega)
      · exact congrArg some fields

/-! ## From the bits of a double -/

/-- The bits of a double are those of its sign, its exponent and its significand. -/
theorem toNat_toBits (x : Float) :
    x.toBits.toNat = (@unpackSign .binary64 x.toBits.toBitVec).toNat * 2 ^ 63 +
      (@unpackExponent .binary64 x.toBits.toBitVec).toNat * 2 ^ 52 +
      (@unpackMantissa .binary64 x.toBits.toBitVec).toNat := by
  rw [← Sign.toBitVec_ofBitVec (unpackSign _), ← toNat_packComponents,
    packComponents_unpackSign_unpackExponent_unpackMantissa]
  rfl


theorem level_eq (x : Float) :
    level x = (Sign.ofBitVec (@unpackSign .binary64 x.toBits.toBitVec)).apply
      ((@unpackExponent .binary64 x.toBits.toBitVec).toNat * 2 ^ 52 +
        (@unpackMantissa .binary64 x.toBits.toBitVec).toNat) := by
  have bits := toNat_toBits x
  generalize @unpackSign .binary64 x.toBits.toBitVec = sign at bits ⊢
  generalize @unpackExponent .binary64 x.toBits.toBitVec = exponent at bits ⊢
  generalize @unpackMantissa .binary64 x.toBits.toBitVec = mantissa at bits ⊢
  have short : exponent.toNat < 2 ^ 11 := exponent.isLt
  have short' : mantissa.toNat < 2 ^ 52 := mantissa.isLt
  obtain rfl | rfl := BitVec.eq_zero_or_eq_one sign
  · have positive : Sign.ofBitVec 0#1 = .positive := rfl
    have zero : (0#1).toNat = 0 := rfl
    rw [positive, Sign.apply, level, if_neg (by omega)]
    omega
  · have negative : Sign.ofBitVec 1#1 = .negative := rfl
    have one : (1#1).toNat = 1 := rfl
    rw [negative, Sign.apply, level, if_pos (by omega)]
    omega

/-- The sign, the exponent and the significand of a double, or what it is instead. -/
def parts (x : Float) : UnpackedFloat := UnpackedFloat.unpack .binary64 x.toBits.toBitVec

/-- The parts of a number are those of a double, and make the integer of its bits. -/
theorem parts_cases {x : Float} {u : UnpackedFloat} (same : parts x = u)
    (number : u ≠ .notANumber) : Fits u ∧ signedBits u = level x := by
  rw [level_eq]
  unfold parts UnpackedFloat.unpack at same
  dsimp only at same
  have short : (@unpackMantissa .binary64 x.toBits.toBitVec).toNat < 2 ^ 52 :=
    (@unpackMantissa .binary64 x.toBits.toBitVec).isLt
  have long : (@unpackExponent .binary64 x.toBits.toBitVec).toNat < 2 ^ 11 :=
    (@unpackExponent .binary64 x.toBits.toBitVec).isLt
  have bias : ((Format.binary64.exponentBias : Int) + (52 : Nat)) = 1075 := rfl
  split at same
  · rename_i ones
    split at same
    · rename_i none
      subst same
      rw [ones, none]
      exact ⟨trivial, rfl⟩
    · exact absurd same.symm number
  · rename_i finite
    split at same
    · rename_i least
      split at same
      · rename_i none
        subst same
        rw [least, none]
        refine ⟨trivial, ?_⟩
        cases Sign.ofBitVec (@unpackSign .binary64 x.toBits.toBitVec) <;>
          simp [signedBits, Sign.apply]
      · rename_i some
        subst same
        rw [least]
        refine ⟨?_, congrArg (Sign.apply _) rfl⟩
        show _ ∧ _ ∧ _ ∧ _
        rw [bias]
        exact ⟨by omega, by decide, by decide, .inl rfl⟩
    · rename_i normal
      subst same
      have leading : (1#1 ++ @unpackMantissa .binary64 x.toBits.toBitVec).toNat =
          2 ^ 52 + (@unpackMantissa .binary64 x.toBits.toBitVec).toNat := by
        rw [BitVec.toNat_append, ← Nat.shiftLeft_add_eq_or_of_lt (BitVec.isLt _), Nat.shiftLeft_eq]
        rfl
      have most : (@unpackExponent .binary64 x.toBits.toBitVec).toNat ≠ 2047 :=
        fun all => finite (BitVec.eq_of_toNat_eq all)
      have least : (@unpackExponent .binary64 x.toBits.toBitVec).toNat ≠ 0 :=
        fun none => normal (BitVec.eq_of_toNat_eq none)
      refine ⟨?_, congrArg (Sign.apply _) ?_⟩
      · show _ ∧ _ ∧ _ ∧ _
        rw [bias, leading]
        omega
      · rw [bias, leading]
        omega

theorem parts_ne {x : Float} (number : x.isNaN = false) : parts x ≠ .notANumber := by
  intro nan
  have known : (parts x).isNaN = false := number
  rw [nan] at known
  cases known

variable {x y : Float}

theorem compare_parts (hx : x.isNaN = false) (hy : y.isNaN = false) :
    (parts x).compare (parts y) = some (compare (level x) (level y)) := by
  obtain ⟨fits, here⟩ := parts_cases rfl (parts_ne hx)
  obtain ⟨fits', there⟩ := parts_cases rfl (parts_ne hy)
  rw [compare_signedBits fits fits' (parts_ne hx) (parts_ne hy), here, there]

theorem lt_iff : x < y ↔ (parts x).compare (parts y) = some .lt := by
  show decide (((parts x).compare (parts y) == some .lt) = true) = true ↔ _
  simp

theorem beq_iff : (x == y) = true ↔ (parts x).compare (parts y) = some .eq := by
  show ((parts x).compare (parts y) == some .eq) = true ↔ _
  simp

theorem le_iff : x ≤ y ↔ ((parts x).compare (parts y)).any (·.isLE) = true := by
  show decide (((parts x).compare (parts y)).any (·.isLE) = true) = true ↔ _
  simp

/-! ## The two orders -/

/-- Numbers are compared as the integers of their bits. -/
theorem partialCompare_level (hx : x.isNaN = false) (hy : y.isNaN = false) :
    partialCompare x y = some (compare (level x) (level y)) := by
  have less : x < y ↔ level x < level y := by
    rw [lt_iff, compare_parts hx hy, Option.some_inj, compare_lt_iff_lt]
  have same : (x == y) = true ↔ level x = level y := by
    rw [beq_iff, compare_parts hx hy, Option.some_inj, compare_eq_iff_eq]
  have greater : x > y ↔ level y < level x := by
    rw [gt_iff_lt, lt_iff, compare_parts hy hx, Option.some_inj, compare_lt_iff_lt]
  unfold partialCompare
  simp only [less, same, greater]
  obtain below | equal | above := Int.lt_trichotomy (level x) (level y)
  · rw [if_pos below, compare_lt_iff_lt.2 below]
  · rw [if_neg (by omega), if_pos equal, compare_eq_iff_eq.2 equal]
  · rw [if_neg (by omega), if_neg (by omega), if_pos above, compare_gt_iff_gt.2 above]

theorem parts_eq_notANumber (nan : x.isNaN = true) : parts x = .notANumber := by
  have known : (parts x).isNaN = true := nan
  cases u : parts x <;> rw [u] at known <;> first | rfl | cases known

/-- NaN is not compared. -/
theorem partialCompare_nan (nan : x.isNaN = true ∨ y.isNaN = true) : partialCompare x y = none := by
  have unordered : (parts x).compare (parts y) = none ∧ (parts y).compare (parts x) = none := by
    obtain nan | nan := nan
    · rw [parts_eq_notANumber nan]
      exact ⟨rfl, by cases parts y <;> rfl⟩
    · rw [parts_eq_notANumber nan]
      exact ⟨by cases parts x <;> rfl, rfl⟩
  unfold partialCompare
  simp [lt_iff, beq_iff, unordered]

theorem partialCompare_swap (x y : Float) :
    partialCompare x y = (partialCompare y x).map Ordering.swap := by
  cases hx : x.isNaN with
  | true => rw [partialCompare_nan (.inl hx), partialCompare_nan (.inr hx)]; rfl
  | false =>
    cases hy : y.isNaN with
    | true => rw [partialCompare_nan (.inr hy), partialCompare_nan (.inl hy)]; rfl
    | false =>
      rw [partialCompare_level hx hy, partialCompare_level hy hx]
      exact congrArg some Std.OrientedOrd.eq_swap

/-- The two zeros, in either order. -/
def ZeroPair (x y : Float) : Prop := x = 0.0 ∧ y = -0.0 ∨ x = -0.0 ∧ y = 0.0

/-- The integers of two doubles are in the total order, or the doubles are the two zeros. -/
theorem totalCompare_level (apart : ¬ZeroPair x y) :
    totalCompare x y = compare (level x) (level y) := by
  have zero : ∀ z : Float, z.toBits.toNat = 0 → z = 0.0 := fun z bits =>
    eq_of_toBits (UInt64.toNat_inj.1 (bits.trans (by decide)))
  have negative : ∀ z : Float, z.toBits.toNat = 0x8000000000000000 → z = -0.0 := fun z bits =>
    eq_of_toBits (UInt64.toNat_inj.1 (bits.trans (by decide)))
  have first : ¬(x.toBits.toNat = 0 ∧ y.toBits.toNat = 0x8000000000000000) := fun bits =>
    apart (.inl ⟨zero x bits.1, negative y bits.2⟩)
  have second : ¬(x.toBits.toNat = 0x8000000000000000 ∧ y.toBits.toNat = 0) := fun bits =>
    apart (.inr ⟨negative x bits.1, zero y bits.2⟩)
  have less : rank x < rank y ↔ level x < level y := by
    unfold rank level
    dsimp only
    split <;> split <;> omega
  have same : rank x = rank y ↔ level x = level y := by
    unfold rank level
    dsimp only
    split <;> split <;> omega
  unfold totalCompare
  obtain below | equal | above := Int.lt_trichotomy (level x) (level y)
  · rw [compare_lt_iff_lt.2 below, compare_lt_iff_lt.2 (less.2 below)]
  · rw [compare_eq_iff_eq.2 equal, compare_eq_iff_eq.2 (same.2 equal)]
  · rw [compare_gt_iff_gt.2 above, compare_gt_iff_gt.2 (by omega)]

/-- Where two doubles are compared, the total order says the same unless they are the two
zeros. -/
theorem partialCompare_eq_some {o : Ordering} (compared : partialCompare x y = some o) :
    totalCompare x y = o ↔ ¬ZeroPair x y := by
  have hx : x.isNaN = false := by
    cases nan : x.isNaN with
    | false => rfl
    | true => rw [partialCompare_nan (.inl nan)] at compared; cases compared
  have hy : y.isNaN = false := by
    cases nan : y.isNaN with
    | false => rfl
    | true => rw [partialCompare_nan (.inr nan)] at compared; cases compared
  constructor
  · rintro rfl (⟨rfl, rfl⟩ | ⟨rfl, rfl⟩)
    · exact absurd compared (by decide)
    · exact absurd compared (by decide)
  · intro apart
    rw [partialCompare_level hx hy, Option.some_inj] at compared
    rw [totalCompare_level apart, compared]

end TableFlow.Number
