import TableFlow.Proofs.Number.Order

/-!
# Distances between doubles

The distance of two doubles is the magnitude of their difference. It is the same from either side
(`distance_comm`): a difference turned around is rounded in the same way and changes its sign only.
A finite number is at no distance from itself (`distance_self`), and an infinity is at none at all
(`distance_infinity`), since infinity less infinity is not a number.
-/

namespace TableFlow.Number

open Float.Model Float.Model.UnpackedFloat

variable {x y : Float}

/-! ## Differences turned around -/

theorem round_neg (s : Sign) (m : Nat) (e : Int) :
    UnpackedFloat.round .binary64 (-s) m e = (UnpackedFloat.round .binary64 s m e).neg := by
  unfold UnpackedFloat.round roundWithAccuracy
  dsimp only
  split <;> rfl

theorem normalize_neg (m e : Int) :
    normalize .binary64 (-m) e .positive = (normalize .binary64 m e .positive).neg ∨
      normalize .binary64 (-m) e .positive = normalize .binary64 m e .positive := by
  unfold UnpackedFloat.normalize
  obtain less | rfl | greater := Int.lt_trichotomy m 0
  · left
    rw [compare_lt_iff_lt.2 less, compare_gt_iff_gt.2 (show -m > 0 by omega)]
    exact round_neg .negative _ _
  · exact .inr rfl
  · left
    rw [compare_gt_iff_gt.2 greater, compare_lt_iff_lt.2 (show -m < 0 by omega)]
    rw [Int.neg_neg]
    exact round_neg .positive _ _

/-- A difference turned around has the other sign, or is the same zero. -/
theorem sub_swap (u v : UnpackedFloat) :
    UnpackedFloat.sub .binary64 v u = (UnpackedFloat.sub .binary64 u v).neg ∨
      UnpackedFloat.sub .binary64 v u = UnpackedFloat.sub .binary64 u v := by
  cases u with
  | notANumber => cases v <;> exact .inl rfl
  | infinity s =>
    cases v with
    | infinity t => cases s <;> cases t <;> exact .inl rfl
    | notANumber | zero t | finite t n f pos => exact .inl rfl
  | zero s =>
    cases v with
    | zero t => cases s <;> cases t <;> first | exact .inl rfl | exact .inr rfl
    | infinity t | finite t n f pos => cases t <;> exact .inl rfl
    | notANumber => exact .inl rfl
  | finite s m e pos =>
    cases v with
    | notANumber => exact .inl rfl
    | infinity t => cases t <;> exact .inl rfl
    | zero t => cases s <;> exact .inl rfl
    | finite t n f pos' =>
      unfold UnpackedFloat.sub
      dsimp only
      rw [min_comm f e, ← Int.neg_sub]
      exact normalize_neg _ _

/-! ## Magnitudes -/

/-- The bits without the sign say the magnitude. -/
theorem abs_packComponents {s : Sign} {e : BitVec 11} {m : BitVec 52} :
    (UnpackedFloat.unpack .binary64 (packComponents .binary64 (-s) e m)).abs =
      (UnpackedFloat.unpack .binary64 (packComponents .binary64 s e m)).abs := by
  unfold UnpackedFloat.unpack
  simp only [unpackExponent_packComponents, unpackMantissa_packComponents]
  split
  · split <;> simp only [UnpackedFloat.abs]
  · split
    · split <;> simp only [UnpackedFloat.abs]
    · simp only [UnpackedFloat.abs]

def magnitude (u : UnpackedFloat) : UnpackedFloat :=
  (UnpackedFloat.unpack .binary64 (UnpackedFloat.pack .binary64 u)).abs

theorem magnitude_neg (u : UnpackedFloat) : magnitude u.neg = magnitude u := by
  cases nan : u with
  | notANumber => rfl
  | _ =>
    rw [← nan]
    obtain ⟨sign, exponent, mantissa, same, opposite⟩ := packs_neg (x := u) (by simp [nan])
    rw [magnitude, magnitude, same, opposite]
    exact abs_packComponents

theorem bits_distance : (x - y).abs.toBits.toBitVec =
    UnpackedFloat.pack .binary64 (magnitude (UnpackedFloat.sub .binary64 (parts x) (parts y))) :=
  rfl

/-- A distance is the same from either side. -/
theorem distance_comm (x y : Float) : (x - y).abs = (y - x).abs := by
  refine eq_of_toBits (UInt64.toBitVec_inj.1 ?_)
  rw [bits_distance, bits_distance]
  obtain opposite | same := sub_swap (parts x) (parts y)
  · rw [opposite, magnitude_neg]
  · rw [same]

/-! ## Doubles and themselves -/

/-- A finite double is at no distance from itself. -/
theorem distance_self (number : x.isNaN = false) (finite : x.isInf = false) :
    (x - x).abs = 0.0 := by
  have known : (parts x).isNaN = false := number
  have bounded : (parts x).isInf = false := finite
  have zero : UnpackedFloat.sub .binary64 (parts x) (parts x) = .zero .positive := by
    cases u : parts x with
    | notANumber => rw [u] at known; cases known
    | infinity s => rw [u] at bounded; cases bounded
    | zero s => cases s <;> rfl
    | finite s m e pos =>
      unfold UnpackedFloat.sub
      dsimp only
      rw [Int.sub_self]
      rfl
  refine eq_of_toBits (UInt64.toBitVec_inj.1 ?_)
  rw [bits_distance, zero]
  decide

/-- Infinity less infinity is not a number. -/
theorem distance_infinity (infinite : x.isInf = true) : (x - x).abs.isNaN = true := by
  rw [eq_infinity infinite]
  split <;> decide

theorem not_le_nan (nan : x.isNaN = true) : ¬x ≤ y := by
  rw [le_iff, parts_eq_notANumber nan]
  simp [UnpackedFloat.compare]

/-- An integer is rounded to a finite double. -/
theorem isInf_ofInt64 (i : Int64) : (ofInt64 i).isInf = false := by
  refine Bool.eq_false_iff.2 fun infinite => ?_
  have most : rank (ofInt64 i) ≤ rank (ofInt64 Int64.maxValue) := rank_ofInt64_mono i.toInt_le
  have least : rank (ofInt64 Int64.minValue) ≤ rank (ofInt64 i) := rank_ofInt64_mono i.le_toInt
  have bounds : -0x7FF0000000000001 < rank (ofInt64 Int64.minValue) ∧
      rank (ofInt64 Int64.maxValue) < 0x7FF0000000000000 := by decide
  have places : rank (ofInt64 i) = 0x7FF0000000000000 ∨
      rank (ofInt64 i) = -0x7FF0000000000001 := by
    unfold rank
    obtain bits | bits := bits_of_isInf infinite <;> rw [bits] <;> decide
  omega

end TableFlow.Number
