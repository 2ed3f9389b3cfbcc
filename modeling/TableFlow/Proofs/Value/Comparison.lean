import TableFlow.Proofs.Number.Order
import TableFlow.Proofs.Value.SortOrder

/-!
# Comparing values

Formulas compare two values by one order and rows are sorted by another. Where the first has an
outcome the second has the same one, unless the two values are the two zeros
(`sortCompare_compared`).
-/

namespace TableFlow.Value

open Number

variable {a b : Value} {o : Ordering}

/-- One value is the zero of a sign and the other one that of the opposite sign. -/
def OppositeZeros (a b : Value) : Prop :=
  ∃ x y, a.toFloat? = some x ∧ b.toFloat? = some y ∧ ZeroPair x y

/-- An integer is no negative zero. -/
theorem ofInt64_ne (i : Int64) : ofInt64 i ≠ -0.0 := by
  have place : rank (-0.0) = -1 := by decide
  intro zero
  obtain negative | positive := Int.lt_or_le i.toInt 0
  · have le : rank (ofInt64 i) ≤ rank (ofInt64 (-1)) := by
      refine rank_ofInt64_mono ?_
      have one : (-1 : Int64).toInt = -1 := rfl
      omega
    have below : rank (ofInt64 (-1)) < -1 := by decide
    rw [zero] at le
    omega
  · have le : rank (ofInt64 0) ≤ rank (ofInt64 i) := rank_ofInt64_mono positive
    have least : rank (ofInt64 0) = 0 := by decide
    rw [zero] at le
    omega

theorem not_oppositeZeros {i j : Int64} : ¬OppositeZeros (int i) (int j) := by
  rintro ⟨x, y, hx, hy, ⟨-, negative⟩ | ⟨negative, -⟩⟩
  · obtain rfl := Option.some.inj hy
    exact ofInt64_ne j negative
  · obtain rfl := Option.some.inj hx
    exact ofInt64_ne i negative

theorem not_oppositeZeros_of_toFloat? (h : a.toFloat? = none) : ¬OppositeZeros a b := by
  rintro ⟨x, y, hx, -⟩
  rw [h] at hx
  cases hx

theorem oppositeZeros_iff {x y : Float} (ha : a.toFloat? = some x) (hb : b.toFloat? = some y) :
    OppositeZeros a b ↔ ZeroPair x y := by
  simp [OppositeZeros, ha, hb]

/-- Numbers that are compared as doubles are not missing. -/
theorem compared_numbers {x y : Float} (ha : a.toFloat? = some x) (hb : b.toFloat? = some y)
    (compared : partialCompare x y = some o) : a.isMissing = false ∧ b.isMissing = false := by
  have number : ∀ {v : Value} {z : Float}, v.toFloat? = some z → v.isMissing = true →
      z.isNaN = true := by
    intro v z hv missing
    cases v with
    | float x => exact Option.some.inj hv ▸ missing
    | null => cases hv
    | _ => cases missing
  constructor
  · refine Bool.eq_false_iff.2 fun missing => ?_
    rw [partialCompare_nan (.inl (number ha missing))] at compared
    cases compared
  · refine Bool.eq_false_iff.2 fun missing => ?_
    rw [partialCompare_nan (.inr (number hb missing))] at compared
    cases compared

/-- Values that are compared are not missing. -/
theorem present_of_compared (compared : a.compare? b = some o) :
    a.isMissing = false ∧ b.isMissing = false := by
  cases a <;> cases b
  case bool.bool | int.int | text.text => exact ⟨rfl, rfl⟩
  case int.float | float.int | float.float => exact compared_numbers rfl rfl compared
  all_goals cases compared

/-- The two zeros are equal to the comparison. -/
theorem compared_oppositeZeros (zeros : OppositeZeros a b) : a.compare? b = some .eq := by
  have doubles : ∀ x y, ZeroPair x y → partialCompare x y = some .eq := by
    rintro x y (⟨rfl, rfl⟩ | ⟨rfl, rfl⟩) <;> decide
  obtain ⟨x, y, hx, hy, pair⟩ := id zeros
  cases a <;> cases hx <;> cases b <;> cases hy
  case int.refl.int.refl => exact absurd zeros not_oppositeZeros
  all_goals exact doubles _ _ pair

/-- Where two values are compared, sorting has the same outcome unless they are the two zeros. -/
theorem sortCompare_compared (compared : a.compare? b = some o) :
    a.sortCompare b = o ↔ ¬OppositeZeros a b := by
  obtain ⟨present, present'⟩ := present_of_compared compared
  have doubles : ∀ x y, a.toFloat? = some x → b.toFloat? = some y →
      partialCompare x y = some o → presentCompare a b = totalCompare x y →
      (a.sortCompare b = o ↔ ¬OppositeZeros a b) := by
    intro x y ha hb outcome total
    rw [sortCompare_present present present', total, oppositeZeros_iff ha hb]
    exact partialCompare_eq_some outcome
  cases a with
  | null => cases b <;> cases compared
  | bool p =>
    cases b with
    | bool q => exact iff_of_true (Option.some.inj compared) (not_oppositeZeros_of_toFloat? rfl)
    | _ => cases compared
  | text s =>
    cases b with
    | text t => exact iff_of_true (Option.some.inj compared) (not_oppositeZeros_of_toFloat? rfl)
    | _ => cases compared
  | int i =>
    cases b with
    | int j => exact iff_of_true (Option.some.inj compared) not_oppositeZeros
    | float y => exact doubles _ _ rfl rfl compared rfl
    | _ => cases compared
  | float x =>
    cases b with
    | int j => exact doubles _ _ rfl rfl compared rfl
    | float y => exact doubles _ _ rfl rfl compared rfl
    | _ => cases compared

/-- An integer is equal to the double that it is rounded to. -/
theorem compare?_rounded {i : Int64} {x : Float} (same : ofInt64 i = x) :
    (int i).compare? (float x) = some .eq ∧ (float x).compare? (int i) = some .eq := by
  have number : x.isNaN = false := same ▸ isNaN_ofInt64 i
  have equal : partialCompare x x = some .eq := by
    rw [partialCompare_level number number, Std.ReflOrd.compare_self]
  subst same
  exact ⟨equal, equal⟩

end TableFlow.Value
