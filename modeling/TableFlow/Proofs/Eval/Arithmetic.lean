import Mathlib.Algebra.Order.Group.Unbundled.Int
import TableFlow.Eval.Function

/-!
# Arithmetic on integers

An operator that is exact on integers gives the integer of its exact result where this has 64
bits, and where it has not, what the operator is on the two numbers as doubles (`Exact`). Sums,
differences and products do so for all operands, and so do opposites and magnitudes. Remainders do
so but for the one of the least integer by minus one: it is zero, and comes out as a double
(`integers_exact_iff`).
-/

namespace TableFlow

namespace Value

def InRange (i : Int) : Prop := Int64.minValue.toInt ≤ i ∧ i ≤ Int64.maxValue.toInt

instance (i : Int) : Decidable (InRange i) := inferInstanceAs (Decidable (_ ∧ _))

variable {i : Int} {n : Int64}

theorem inRange_iff : InRange i ↔ -9223372036854775808 ≤ i ∧ i ≤ 9223372036854775807 := Iff.rfl

theorem inRange_toInt (n : Int64) : InRange n.toInt := ⟨n.minValue_le_toInt, n.toInt_le⟩

theorem InRange.exists_toInt (h : InRange i) : ∃ n : Int64, n.toInt = i := by
  rw [inRange_iff] at h
  exact ⟨Int64.ofInt i, Int64.toInt_ofInt_of_le (by omega) (by omega)⟩

theorem ofInt?_of_toInt (same : n.toInt = i) : ofInt? i = some (int n) := same ▸ ofInt?_toInt n

theorem ofInt?_eq_none (h : ¬InRange i) : ofInt? i = none := if_neg h

end Value

namespace Eval

open Value Number

variable {x y : Int64} {r : Int} {z : Float} {op : Arithmetic}

/-- What comes of an operation on integers whose exact result is `r`: this integer if it has 64
bits, and else a double. -/
inductive Exact (r : Int) (double : Float) : Except EvalError Value → Prop where
  | integer {n : Int64} : n.toInt = r → Exact r double (.ok (.int n))
  | beyond : ¬InRange r → Exact r double (.ok (.float double))

theorem exact_getD : Exact r z (.ok ((ofInt? r).getD (.float z))) := by
  by_cases fits : InRange r
  · obtain ⟨n, same⟩ := fits.exists_toInt
    rw [ofInt?_of_toInt same]
    exact .integer same
  · rw [ofInt?_eq_none fits]
    exact .beyond fits

/-- Operators without a divisor are exact. -/
theorem onInts_exact (plain : op ≠ .rem) (result : op.integerResult? x.toInt y.toInt = some r)
    (doubles : op.onFloats (ofInt64 x) (ofInt64 y) = .float z) :
    Exact r z (.ok (op.onInts x y)) := by
  rw [Arithmetic.onInts, if_neg (fun h => plain h.1), if_neg (fun h => plain h.1), result, doubles]
  exact exact_getD

/-- A remainder has no more bits than the divisor. -/
theorem inRange_tmod (divisor : y ≠ 0) : InRange (x.toInt.tmod y.toInt) := by
  have nonzero : y.toInt ≠ 0 := fun zero => divisor (Int64.toInt_inj.1 zero)
  have size := Int.natAbs_tmod x.toInt y.toInt
  have less := Nat.mod_lt x.toInt.natAbs (Int.natAbs_pos.2 nonzero)
  have bounds := inRange_toInt y
  rw [inRange_iff] at bounds ⊢
  omega

theorem rem_exact (divisor : y ≠ 0) (other : ¬(x = Int64.minValue ∧ y = -1)) :
    Exact (x.toInt.tmod y.toInt) z (.ok (Arithmetic.rem.onInts x y)) := by
  obtain ⟨n, same⟩ := (inRange_tmod (x := x) divisor).exists_toInt
  rw [Arithmetic.onInts, if_neg (fun h => divisor h.2), if_neg (fun h => other h.2)]
  show Exact _ z (.ok ((ofInt? (x.toInt.tmod y.toInt)).getD _))
  rw [ofInt?_of_toInt same]
  exact .integer same

/-- The remainder of the least integer by minus one is a negative zero. -/
theorem rem_least : Arithmetic.rem.onInts Int64.minValue (-1) = .float (-0.0) := by decide

/-! ## Operators by name -/

structure Twofold where
  onIntegers : Int → Int → Int
  onDoubles : Float → Float → Float

/-- The operators that are exact on integers. A remainder is what a division leaves that truncates
toward zero. -/
def exactOperator? : String → Option Twofold
  | "+" => some ⟨(· + ·), (· + ·)⟩
  | "-" => some ⟨(· - ·), (· - ·)⟩
  | "*" => some ⟨(· * ·), (· * ·)⟩
  | "%" => some ⟨Int.tmod, remainder⟩
  | _ => none

/-- Operators on integers give their exact result, or fall back to doubles where this has more
than 64 bits; only the remainder of the least integer by minus one falls back without need. Every
operation has a result. Opposites and magnitudes are exact in the same sense. -/
theorem integers_exact_iff (x y : Int64) :
    (∀ name op, exactOperator? name = some op →
      ((name = "%" → y ≠ 0) →
        (Exact (op.onIntegers x.toInt y.toInt) (op.onDoubles (ofInt64 x) (ofInt64 y))
            (binary name (.int x) (.int y)) ↔
          ¬(name = "%" ∧ x = Int64.minValue ∧ y = -1))) ∧
        ∃ v, binary name (.int x) (.int y) = .ok v) ∧
      Exact (-x.toInt) (-ofInt64 x) (call "neg" [.int x]) ∧
      Exact |x.toInt| (ofInt64 x).abs (call "abs" [.int x]) := by
  refine ⟨fun name op known => ?_, exact_getD, ?_⟩
  · unfold exactOperator? at known
    split at known <;> cases known
    · exact ⟨fun _ => iff_of_true (onInts_exact (by decide) rfl rfl) (by simp), _, rfl⟩
    · exact ⟨fun _ => iff_of_true (onInts_exact (by decide) rfl rfl) (by simp), _, rfl⟩
    · exact ⟨fun _ => iff_of_true (onInts_exact (by decide) rfl rfl) (by simp), _, rfl⟩
    · refine ⟨fun divisor => ⟨?_, fun other => ?_⟩, _, rfl⟩
      · rintro kept ⟨-, rfl, rfl⟩
        have outcome : binary "%" (.int Int64.minValue) (.int (-1)) = .ok (.float (-0.0)) :=
          congrArg Except.ok rem_least
        rw [outcome] at kept
        cases kept with
        | beyond wide => exact wide (by decide)
      · exact rem_exact (divisor rfl) fun least => other ⟨rfl, least⟩
  · rw [Int.abs_eq_natAbs]
    exact exact_getD

/-- The least integer has a remainder by ten, and its opposite is the double next to it. -/
theorem integers_exact_iff_least :
    exactOperator? "%" = some ⟨Int.tmod, remainder⟩ ∧ (10 : Int64) ≠ 0 ∧
      Exact (-8) (remainder (ofInt64 Int64.minValue) (ofInt64 10))
        (binary "%" (.int Int64.minValue) (.int 10)) ∧
      binary "%" (.int Int64.minValue) (.int 10) = .ok (.int (-8)) ∧
      Exact 9223372036854775808 9223372036854775808.0 (call "neg" [.int Int64.minValue]) ∧
      call "neg" [.int Int64.minValue] = .ok (.float 9223372036854775808.0) := by
  obtain ⟨operators, opposite, -⟩ := integers_exact_iff Int64.minValue 10
  obtain ⟨remainder, -⟩ := operators "%" _ rfl
  have double : -ofInt64 Int64.minValue = 9223372036854775808.0 := by decide
  rw [double] at opposite
  exact ⟨rfl, by decide, (remainder fun _ => by decide).2 (by decide), by decide, opposite,
    by decide⟩

/-- The remainder of the least integer by minus one is zero, and comes out as a double. -/
theorem least_remainder_falls_back :
    exactOperator? "%" = some ⟨Int.tmod, remainder⟩ ∧ (-1 : Int64) ≠ 0 ∧
      Int64.minValue.toInt.tmod (-1) = 0 ∧
      binary "%" (.int Int64.minValue) (.int (-1)) = .ok (.float (-0.0)) ∧
      ∀ double, ¬Exact 0 double (binary "%" (.int Int64.minValue) (.int (-1))) := by
  have outcome : binary "%" (.int Int64.minValue) (.int (-1)) = .ok (.float (-0.0)) :=
    congrArg Except.ok rem_least
  refine ⟨rfl, by decide, by decide, outcome, fun double kept => ?_⟩
  rw [outcome] at kept
  cases kept with
  | beyond wide => exact wide (by decide)

end Eval

end TableFlow
