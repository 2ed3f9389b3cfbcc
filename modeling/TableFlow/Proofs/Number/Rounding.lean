import Mathlib
import TableFlow.Proofs.Number.Special

/-!
# Integers rounded to doubles

The double nearest to a 64-bit integer rises with the integer (`rank_ofInt64_mono`): its bits are
those of the exponent, followed by the leading bits of the magnitude rounded to even
(`toBits_toFloat`), and a significand that is rounded up to the next power of two gives the bits
of the next exponent.
-/

namespace TableFlow.Number

open Float.Model Float.Model.UnpackedFloat

/-! ## Shifting and rounding -/

/-- A significand with its two extra bits, as one number. -/
def weight (m : ExtendedMantissa) : Nat :=
  4 * m.mantissa + 2 * m.roundBit.toNat + m.stickyBit.toNat

/-- The weight after one shift: the bit that leaves the round bit is kept in the last one. -/
theorem weight_shiftRightOne (m : ExtendedMantissa) :
    weight m.shiftRightOne = 2 * (weight m / 4) + min 1 (weight m % 4) := by
  obtain ⟨mantissa, roundBit, stickyBit⟩ := m
  have parity : (mantissa % 2 != 0).toNat = mantissa % 2 := by
    rcases Nat.mod_two_eq_zero_or_one mantissa with bit | bit <;> simp [bit]
  cases roundBit <;> cases stickyBit <;>
    simp only [weight, ExtendedMantissa.shiftRightOne, parity, Bool.toNat_false, Bool.toNat_true,
      Bool.or_self, Bool.or_true, Bool.or_false] <;> omega

/-- The weight rounded to the nearest multiple of four, a tie to the even one. -/
theorem roundedMantissa_eq (m : ExtendedMantissa) :
    m.roundedMantissa = weight m / 4 +
      (if weight m % 4 = 3 then 1 else if weight m % 4 = 2 then weight m / 4 % 2 else 0) := by
  obtain ⟨mantissa, roundBit, stickyBit⟩ := m
  have whole : ∀ extra < 4, (4 * mantissa + extra) / 4 = mantissa ∧
      (4 * mantissa + extra) % 4 = extra := by omega
  cases roundBit <;> cases stickyBit
  · simp [weight, ExtendedMantissa.roundedMantissa, ExtendedMantissa.accuracy,
      Accuracy.roundToNearestEven]
  · simp [weight, ExtendedMantissa.roundedMantissa, ExtendedMantissa.accuracy,
      Accuracy.roundToNearestEven, whole 1 (by decide)]
  · simp [weight, ExtendedMantissa.roundedMantissa, ExtendedMantissa.accuracy,
      Accuracy.roundToNearestEven, whole 2 (by decide)]
  · simp [weight, ExtendedMantissa.roundedMantissa, ExtendedMantissa.accuracy,
      Accuracy.roundToNearestEven, whole 3 (by decide), Nat.add_assoc]

theorem roundedMantissa_mono {m n : ExtendedMantissa} (le : weight m ≤ weight n) :
    m.roundedMantissa ≤ n.roundedMantissa := by
  rw [roundedMantissa_eq, roundedMantissa_eq]
  split <;> split <;> try split
  all_goals try split
  all_goals omega

/-- An integer cut by some bits, with what is cut off in the extra bits. -/
def cut (n shift : Nat) : ExtendedMantissa := (⟨n, false, false⟩ : ExtendedMantissa) >>> shift

theorem cut_succ {n shift : Nat} : cut n (shift + 1) = (cut n shift).shiftRightOne := rfl

theorem weight_cut_mono {m n : Nat} (le : m ≤ n) (shift : Nat) :
    weight (cut m shift) ≤ weight (cut n shift) := by
  induction shift with
  | zero => simpa [cut, weight, HShiftRight.hShiftRight, Nat.repeat] using Nat.mul_le_mul_left 4 le
  | succ shift ih =>
    rw [cut_succ, cut_succ, weight_shiftRightOne, weight_shiftRightOne]
    omega

theorem mantissa_cut (n shift : Nat) : (cut n shift).mantissa = n / 2 ^ shift := by
  induction shift with
  | zero => simp [cut, HShiftRight.hShiftRight, Nat.repeat]
  | succ shift ih =>
    rw [cut_succ, ExtendedMantissa.shiftRightOne, ih, Nat.div_div_eq_div_mul, Nat.pow_succ]

theorem mantissa_eq_weight (m : ExtendedMantissa) : m.mantissa = weight m / 4 := by
  obtain ⟨mantissa, roundBit, stickyBit⟩ := m
  cases roundBit <;> cases stickyBit <;> simp [weight] <;> omega

theorem roundedMantissa_bounds (m : ExtendedMantissa) :
    m.mantissa ≤ m.roundedMantissa ∧ m.roundedMantissa ≤ m.mantissa + 1 := by
  rw [mantissa_eq_weight, roundedMantissa_eq]
  split
  · omega
  · split <;> omega

/-! ## The significand of an integer -/

/-- The 53 leading bits of an integer, rounded; rounding up may give one bit more. -/
def significand (n : Nat) : Nat :=
  (cut (n <<< (52 - n.log2)) (n.log2 - 52)).roundedMantissa

theorem significand_bounds {n : Nat} (pos : n ≠ 0) :
    2 ^ 52 ≤ significand n ∧ significand n ≤ 2 ^ 53 := by
  have low : 2 ^ n.log2 ≤ n := Nat.log2_self_le pos
  have high : n < 2 ^ (n.log2 + 1) := Nat.lt_log2_self
  have cut_bounds : 2 ^ 52 ≤ (cut (n <<< (52 - n.log2)) (n.log2 - 52)).mantissa ∧
      (cut (n <<< (52 - n.log2)) (n.log2 - 52)).mantissa < 2 ^ 53 := by
    rw [mantissa_cut, Nat.shiftLeft_eq]
    obtain short | long := Nat.le_total n.log2 52
    · rw [Nat.sub_eq_zero_of_le short, Nat.pow_zero, Nat.div_one]
      have shifted : 2 ^ 52 = 2 ^ n.log2 * 2 ^ (52 - n.log2) := by
        rw [← Nat.pow_add, Nat.add_sub_cancel' short]
      have doubled : 2 ^ 53 = 2 ^ (n.log2 + 1) * 2 ^ (52 - n.log2) := by
        rw [← Nat.pow_add]
        congr 1
        omega
      exact ⟨shifted ▸ Nat.mul_le_mul_right _ low,
        doubled ▸ Nat.mul_lt_mul_of_pos_right high (Nat.two_pow_pos _)⟩
    · rw [Nat.sub_eq_zero_of_le long, Nat.pow_zero, Nat.mul_one]
      have scaled : 2 ^ 52 * 2 ^ (n.log2 - 52) = 2 ^ n.log2 := by
        rw [← Nat.pow_add, Nat.add_sub_cancel' long]
      have doubled : 2 ^ 53 * 2 ^ (n.log2 - 52) = 2 ^ (n.log2 + 1) := by
        rw [← Nat.pow_add]
        congr 1
        omega
      exact ⟨(Nat.le_div_iff_mul_le (Nat.two_pow_pos _)).2 (scaled ▸ low),
        (Nat.div_lt_iff_lt_mul (Nat.two_pow_pos _)).2 (doubled ▸ high)⟩
  have rounded := roundedMantissa_bounds (cut (n <<< (52 - n.log2)) (n.log2 - 52))
  unfold significand
  omega

theorem significand_mono {m n : Nat} (le : m ≤ n) (same : m.log2 = n.log2) :
    significand m ≤ significand n := by
  unfold significand
  rw [same, Nat.shiftLeft_eq, Nat.shiftLeft_eq]
  exact roundedMantissa_mono (weight_cut_mono (Nat.mul_le_mul_right _ le) _)

/-! ## The bits of an integer as a double -/

theorem toNat_packComponents {sign : Sign} {exponent : BitVec 11} {mantissa : BitVec 52} :
    (packComponents .binary64 sign exponent mantissa).toNat =
      sign.toBitVec.toNat * 2 ^ 63 + exponent.toNat * 2 ^ 52 + mantissa.toNat := by
  have outer : (sign.toBitVec ++ exponent ++ mantissa).toNat =
      (sign.toBitVec ++ exponent).toNat * 2 ^ 52 + mantissa.toNat := by
    rw [BitVec.toNat_append, ← Nat.shiftLeft_add_eq_or_of_lt mantissa.isLt, Nat.shiftLeft_eq]
  have inner : (sign.toBitVec ++ exponent).toNat =
      sign.toBitVec.toNat * 2 ^ 11 + exponent.toNat := by
    rw [BitVec.toNat_append, ← Nat.shiftLeft_add_eq_or_of_lt exponent.isLt, Nat.shiftLeft_eq]
  show (sign.toBitVec ++ exponent ++ mantissa).toNat = _
  rw [outer, inner]
  omega

/-- The bits of an exponent and of a significand with its leading bit left out. -/
theorem toNat_pack {m : Nat} {e : Int} (pos : 0 < m) (low : 2 ^ 52 ≤ m) (high : m < 2 ^ 53)
    (least : -1074 ≤ e) (most : e ≤ 971) :
    (UnpackedFloat.pack .binary64 (.finite .positive m e pos)).toNat =
      (e + 1074).toNat * 2 ^ 52 + m := by
  have biased :
      (e + Format.binary64.exponentBias + Format.binary64.mantissaBitsWithoutImplicit).toNat =
        (e + 1074).toNat + 1 := by
    show (e + (1023 : Nat) + (52 : Nat)).toNat = (e + 1074).toNat + 1
    omega
  have inside : ¬ 2 ^ Format.binary64.exponentBits ≤ (e + 1074).toNat + 1 + 1 := by
    show ¬ 2 ^ 11 ≤ (e + 1074).toNat + 1 + 1
    omega
  have normal : m.log2 + 1 = Format.binary64.mantissaBits := by
    rw [(Nat.log2_eq_iff (Nat.ne_of_gt pos)).2 ⟨low, high⟩]
    rfl
  rw [UnpackedFloat.pack]
  simp only [biased, if_neg inside, if_pos normal]
  rw [toNat_packComponents, BitVec.toNat_ofNat, BitVec.toNat_ofNat]
  have sign : Sign.positive.toBitVec.toNat = 0 := rfl
  omega

/-- A significand at its exponent is shifted no further. -/
theorem shiftToTargetExponent_exact {m : Nat} {e : Int} {shift : Nat}
    (place : max (((m.log2 : Int) + 1 + e) - 53) (-1074) = e + shift) :
    shiftToTargetExponent .binary64 m e .exact = (cut m shift, e + shift) := by
  have target : Format.binary64.targetExponent (totalExponent m e) - e = shift := by
    show max (((m.log2 : Int) + 1 + e) - 53) (-1074) - e = shift
    omega
  unfold shiftToTargetExponent shiftToExponent
  simp only [target, Int.toNat_natCast]
  rfl

theorem log2_shiftLeft {n : Nat} (pos : n ≠ 0) (shift : Nat) :
    (n <<< shift).log2 = n.log2 + shift := by
  have scale : 0 < 2 ^ shift := Nat.two_pow_pos shift
  rw [Nat.shiftLeft_eq, Nat.log2_eq_iff (Nat.mul_ne_zero pos (Nat.ne_of_gt scale))]
  have next : n.log2 + shift + 1 = n.log2 + 1 + shift := by omega
  rw [next, Nat.pow_add, Nat.pow_add (n := shift)]
  exact ⟨Nat.mul_le_mul_right _ (Nat.log2_self_le pos),
    Nat.mul_lt_mul_of_pos_right Nat.lt_log2_self scale⟩

/-- The exponent of an integer's last bit, once it is rounded. -/
def lastExponent (n : Nat) : Int := (n.log2 : Int) - 52

theorem roundWithAccuracy_eq {sign : Sign} {m : Nat} {e e₁ e₂ : Int}
    {first second : ExtendedMantissa}
    (shifted : shiftToTargetExponent .binary64 m e .exact = (first, e₁))
    (again : shiftToTargetExponent .binary64 first.roundedMantissa e₁ .exact = (second, e₂))
    (pos : 0 < second.mantissa) :
    roundWithAccuracy .binary64 sign m e .exact = .finite sign second.mantissa e₂ pos := by
  unfold roundWithAccuracy
  simp only [shifted, again, dif_neg (Nat.ne_of_gt pos)]

/-- An integer as a fraction: its significand is shifted again if rounding made it longer. -/
theorem round_integer {n : Nat} (shift : Nat) (pos : n ≠ 0)
    (place : ((significand n).log2 : Int) + 1 + lastExponent n - 53 = lastExponent n + shift)
    (some : 0 < (cut (significand n) shift).mantissa) :
    UnpackedFloat.round .binary64 .positive n 0 =
      .finite .positive (cut (significand n) shift).mantissa (lastExponent n + shift) some := by
  have target : ((0 : Int) - Format.binary64.targetExponent (totalExponent n 0)).toNat =
      52 - n.log2 := by
    show ((0 : Int) - max ((n.log2 : Int) + 1 + 0 - 53) (-1074)).toNat = 52 - n.log2
    omega
  have first : shiftToTargetExponent .binary64 (n <<< (52 - n.log2)) (0 - (52 - n.log2 : Nat))
      .exact = (cut (n <<< (52 - n.log2)) (n.log2 - 52), lastExponent n) := by
    have last : lastExponent n = 0 - (52 - n.log2 : Nat) + (n.log2 - 52 : Nat) := by
      unfold lastExponent
      omega
    rw [last]
    refine shiftToTargetExponent_exact ?_
    rw [log2_shiftLeft pos]
    omega
  have second : shiftToTargetExponent .binary64 (significand n) (lastExponent n) .exact =
      (cut (significand n) shift, lastExponent n + shift) := by
    refine shiftToTargetExponent_exact ?_
    unfold lastExponent at place ⊢
    omega
  unfold UnpackedFloat.round decreaseExponent
  simp only [target]
  exact roundWithAccuracy_eq first second some

/-- The bits of a positive integer as a double. -/
theorem toNat_round {n : Nat} (pos : n ≠ 0) (small : n < 2 ^ 64) :
    (UnpackedFloat.pack .binary64 (UnpackedFloat.round .binary64 .positive n 0)).toNat =
      (n.log2 + 1022) * 2 ^ 52 + significand n := by
  have size : n.log2 < 64 := (Nat.log2_lt pos).2 small
  have bounds := significand_bounds pos
  obtain inside | full := Nat.lt_or_eq_of_le bounds.2
  · have mantissa : (cut (significand n) 0).mantissa = significand n := rfl
    have log := (Nat.log2_eq_iff (by omega)).2 ⟨bounds.1, inside⟩
    rw [round_integer 0 pos (by omega) (by omega),
      toNat_pack _ (by omega) (by omega) (by unfold lastExponent; omega)
        (by unfold lastExponent; omega), mantissa]
    unfold lastExponent
    omega
  · -- the power of two above has a significand of one bit and the next exponent
    have mantissa : (cut (significand n) 1).mantissa = 2 ^ 52 := by
      rw [mantissa_cut, full, Nat.pow_div (by decide) (by decide)]
    have log : (significand n).log2 = 53 := by
      rw [full, Nat.log2_two_pow]
    rw [round_integer 1 pos (by omega) (by omega),
      toNat_pack _ (by omega) (by omega) (by unfold lastExponent; omega)
        (by unfold lastExponent; omega), mantissa]
    unfold lastExponent
    omega

theorem toBits_toFloat {n : UInt64} (pos : n.toNat ≠ 0) :
    n.toFloat.toBits.toNat = (n.toNat.log2 + 1022) * 2 ^ 52 + significand n.toNat := by
  have positive : compare (n.toNat : Int) 0 = .gt := Int.compare_eq_gt.2 (by omega)
  have rounds : UnpackedFloat.ofUInt64 .binary64 n =
      UnpackedFloat.round .binary64 .positive n.toNat 0 := by
    unfold UnpackedFloat.ofUInt64 UnpackedFloat.ofNat UnpackedFloat.ofInt UnpackedFloat.normalize
    simp only [positive, Int.toNat_natCast]
  rw [← toNat_round pos n.toNat_lt, ← rounds]
  rfl

theorem toBits_mono {m n : UInt64} (le : m.toNat ≤ n.toNat) :
    m.toFloat.toBits.toNat ≤ n.toFloat.toBits.toNat := by
  by_cases zero : m.toNat = 0
  · obtain rfl : m = 0 := UInt64.toNat_inj.1 zero
    have least : (0 : UInt64).toFloat.toBits.toNat = 0 := by decide
    omega
  have log : m.toNat.log2 ≤ n.toNat.log2 :=
    (Nat.le_log2 (by omega)).2 (Nat.le_trans (Nat.log2_self_le zero) le)
  have low := significand_bounds zero
  have high := significand_bounds (n := n.toNat) (by omega)
  rw [toBits_toFloat zero, toBits_toFloat (by omega)]
  obtain same | less := Nat.eq_or_lt_of_le log
  · have := significand_mono le same
    omega
  · omega

/-! ## Signs -/

theorem packs_neg {x : UnpackedFloat} (number : x ≠ .notANumber) :
    ∃ sign exponent mantissa,
      UnpackedFloat.pack .binary64 x = packComponents .binary64 sign exponent mantissa ∧
      UnpackedFloat.pack .binary64 x.neg = packComponents .binary64 (-sign) exponent mantissa := by
  cases x with
  | notANumber => exact absurd rfl number
  | infinity sign => exact ⟨sign, _, _, rfl, rfl⟩
  | zero sign => exact ⟨sign, _, _, rfl, rfl⟩
  | finite sign m e pos =>
    unfold UnpackedFloat.neg UnpackedFloat.pack
    dsimp only
    split
    · exact ⟨sign, _, _, rfl, rfl⟩
    · split <;> exact ⟨sign, _, _, rfl, rfl⟩

/-- The bits of the opposite of a number whose sign bit is not set. -/
theorem toBits_neg {x : Float} (number : x.toBits.toNat < 0x7FF8000000000000) :
    (-x).toBits.toNat = x.toBits.toNat + 2 ^ 63 := by
  have back :
      UnpackedFloat.pack .binary64 (unpack .binary64 x.toBits.toBitVec) = x.toBits.toBitVec :=
    pack_unpack_of_valid x.toModel.valid
  have present : unpack .binary64 x.toBits.toBitVec ≠ .notANumber := by
    intro nan
    have bits : (UnpackedFloat.pack .binary64 .notANumber).toNat = 0x7FF8000000000000 := by
      decide
    rw [← nan, back] at bits
    exact absurd bits (Nat.ne_of_lt number)
  obtain ⟨sign, exponent, mantissa, same, opposite⟩ := packs_neg present
  have here : x.toBits.toNat =
      sign.toBitVec.toNat * 2 ^ 63 + exponent.toNat * 2 ^ 52 + mantissa.toNat := by
    rw [← toNat_packComponents, ← same, back]
    rfl
  have there : (-x).toBits.toNat =
      (-sign).toBitVec.toNat * 2 ^ 63 + exponent.toNat * 2 ^ 52 + mantissa.toNat := by
    rw [← toNat_packComponents, ← opposite]
    rfl
  cases sign with
  | positive =>
    have plus : Sign.positive.toBitVec.toNat = 0 := rfl
    have minus : (-Sign.positive).toBitVec.toNat = 1 := rfl
    omega
  | negative =>
    have minus : Sign.negative.toBitVec.toNat = 1 := rfl
    omega

/-! ## The order of doubles -/

theorem rank_neg {x : Float} (number : x.toBits.toNat < 0x7FF8000000000000) :
    rank (-x) = -(x.toBits.toNat : Int) - 1 := by
  unfold rank
  rw [toBits_neg number, if_pos (by omega)]
  omega

theorem rank_of_lt {x : Float} (plus : x.toBits.toNat < 0x8000000000000000) :
    rank x = x.toBits.toNat := by
  unfold rank
  rw [if_neg (by omega)]

theorem rank_injective {x y : Float} (same : rank x = rank y) : x = y := by
  refine eq_of_toBits (UInt64.toNat_inj.1 ?_)
  unfold rank at same
  dsimp only at same
  split at same <;> split at same <;> omega

theorem toBits_natAbs_lt (n : UInt64) : n.toFloat.toBits.toNat < 0x7FF8000000000000 := by
  have most : n.toNat ≤ UInt64.toNat (-1) := by
    have := n.toNat_lt
    show n.toNat ≤ 2 ^ 64 - 1
    omega
  have last : (-1 : UInt64).toFloat.toBits.toNat < 0x7FF8000000000000 := by decide
  exact Nat.lt_of_le_of_lt (toBits_mono most) last

theorem rank_ofInt64 (i : Int64) :
    rank (ofInt64 i) = if i.toInt < 0
      then -(i.toInt.natAbs.toUInt64.toFloat.toBits.toNat : Int) - 1
      else i.toInt.natAbs.toUInt64.toFloat.toBits.toNat := by
  have small := toBits_natAbs_lt i.toInt.natAbs.toUInt64
  unfold ofInt64 signed
  by_cases negative : i.toInt < 0
  · simp only [negative, decide_true, if_true]
    exact rank_neg small
  · simp only [negative, decide_false, if_false, Bool.false_eq_true]
    exact rank_of_lt (by omega)

/-- A greater integer is rounded to a double that is no less. -/
theorem rank_ofInt64_mono {i j : Int64} (le : i.toInt ≤ j.toInt) :
    rank (ofInt64 i) ≤ rank (ofInt64 j) := by
  have magnitude : ∀ k : Int64, k.toInt.natAbs.toUInt64.toNat = k.toInt.natAbs := by
    intro k
    have low := k.le_toInt
    have high := k.toInt_lt
    show k.toInt.natAbs % 2 ^ 64 = k.toInt.natAbs
    omega
  rw [rank_ofInt64, rank_ofInt64]
  split <;> split
  · have := toBits_mono (m := j.toInt.natAbs.toUInt64) (n := i.toInt.natAbs.toUInt64)
      (by rw [magnitude, magnitude]; omega)
    omega
  · omega
  · omega
  · have := toBits_mono (m := i.toInt.natAbs.toUInt64) (n := j.toInt.natAbs.toUInt64)
      (by rw [magnitude, magnitude]; omega)
    omega

/-- An integer is rounded to a number. -/
theorem isNaN_ofInt64 (i : Int64) : (ofInt64 i).isNaN = false := by
  rw [Bool.eq_false_iff]
  intro nan
  have most := rank_ofInt64_mono i.toInt_le
  have greatest : rank (ofInt64 (Int64.ofInt Int64.maxValue.toInt)) < rank (0.0 / 0.0) := by
    decide
  rw [eq_nan nan] at most
  rw [Int64.ofInt_toInt] at greatest
  omega

end TableFlow.Number
