import TableFlow.Proofs.Number.Distance
import TableFlow.Proofs.Value.SortOrder

/-!
# Values near each other

Nearness is the same from either side (`near_comm`). Values that are equal to the sort are near
each other at every tolerance that is not negative, unless they are an infinity: that is near
nothing that is equal to it (`near_of_sortCompare`, `not_infinite`).
-/

namespace TableFlow.Value

open Number

variable {tolerance : Float} {a b : Value}

def Infinite (v : Value) : Prop := ∃ x, v = float x ∧ x.isInf = true

/-- Two integers are near each other only if they are equal. -/
theorem near_int {i j : Int64} : (int i).near tolerance (int j) = true ↔ i = j := by
  simp [near, isMissing]

theorem near_missing (ha : a.isMissing = true) (hb : b.isMissing = true) :
    a.near tolerance b = true := by
  simp [near, ha, hb]

/-- A number is near a double at a distance up to the tolerance. -/
theorem near_float {x y : Float} (ha : a.toFloat? = some x) (present : a.isMissing = false) :
    a.near tolerance (float y) = decide ((x - y).abs ≤ tolerance) := by
  cases a <;> cases ha <;> simp [near, present, toFloat?]

theorem float_near {x y : Float} (hb : b.toFloat? = some y) (present : b.isMissing = false) :
    (float x).near tolerance b = decide ((x - y).abs ≤ tolerance) := by
  cases b <;> cases hb <;> simp [near, present, toFloat?]

/-- Values are near each other from either side. -/
theorem near_comm (a b : Value) : a.near tolerance b = b.near tolerance a := by
  cases a <;> cases b
  case int.int i j => simp [near, isMissing, eq_comm]
  case bool.bool p q => simp [near, isMissing, toFloat?, equal, Bool.beq_comm]
  case text.text s t => simp [near, isMissing, toFloat?, equal, eq_comm]
  case int.float i x => rw [near_float rfl rfl, float_near rfl rfl, distance_comm]
  case float.int x i => rw [near_float rfl rfl, float_near rfl rfl, distance_comm]
  case float.float x y => simp [near, toFloat?, Bool.and_comm, distance_comm x y]
  all_goals simp [near, isMissing, toFloat?, equal]

theorem Infinite.present (infinite : Infinite a) : a.isMissing = false := by
  obtain ⟨x, rfl, infinite⟩ := infinite
  show x.isNaN = false
  rw [eq_infinity infinite]
  split <;> decide

/-- An infinity is not near itself. -/
theorem near_infinite (infinite : Infinite a) : a.near tolerance a = false := by
  have number := infinite.present
  obtain ⟨x, rfl, infinite⟩ := infinite
  rw [near_float rfl number, decide_eq_false_iff_not]
  exact not_le_nan (distance_infinity infinite)

/-- A number is near the double that it is, unless that is infinite. -/
theorem near_double {x : Float} (zero : 0.0 ≤ tolerance) (finite : x.isInf = false)
    (ha : a.toFloat? = some x) (present : a.isMissing = false) (number : x.isNaN = false) :
    a.near tolerance (float x) = true := by
  rw [near_float ha present, distance_self number finite]
  exact decide_eq_true zero

theorem kindRank_eq (same : presentCompare a b = .eq) : a.kindRank = b.kindRank := by
  by_contra apart
  rw [presentCompare_of_ne apart] at same
  exact apart (Nat.compare_eq_eq.1 same)

/-- What is equal to a double is that number, or is rounded to it. -/
theorem equal_double {x : Float} (number : (float x).isMissing = false)
    (same : (float x).sortCompare b = .eq) : b.toFloat? = some x ∧ b.isMissing = false := by
  cases missing : b.isMissing with
  | true => simp [sortCompare, number, missing] at same
  | false =>
    rw [sortCompare_present number missing] at same
    have kind := kindRank_eq same
    refine ⟨?_, rfl⟩
    cases b <;> cases kind
    · rename_i j
      obtain rfl : x = ofInt64 j := rank_injective (Int.compare_eq_eq.1 same)
      rfl
    · rename_i y
      obtain rfl : x = y := rank_injective (Int.compare_eq_eq.1 same)
      rfl

/-- Values that are equal to the sort and not infinite are near each other. -/
theorem near_of_sortCompare (zero : 0.0 ≤ tolerance) (finite : ¬Infinite a)
    (same : a.sortCompare b = .eq) : a.near tolerance b = true := by
  cases missing : a.isMissing <;> cases missing' : b.isMissing
  case true.true => exact near_missing missing missing'
  case true.false | false.true => simp [sortCompare, missing, missing'] at same
  have present := same
  rw [sortCompare_present missing missing'] at present
  have kind := kindRank_eq present
  cases a with
  | null => cases missing
  | bool p =>
    cases b <;> cases kind
    rename_i q
    have equal : compare p q = .eq := present
    simpa [near, isMissing, toFloat?, Value.equal] using equal
  | text s =>
    cases b <;> cases kind
    rename_i t
    have equal : compare s t = .eq := present
    simpa [near, isMissing, toFloat?, Value.equal] using equal
  | int i =>
    cases b <;> cases kind
    · exact near_int.2 (Int64.toInt_inj.1 (Int.compare_eq_eq.1 present))
    · rename_i y
      obtain rfl : ofInt64 i = y :=
        Option.some.inj (equal_double missing' (sortCompare_eq_comm.1 same)).1
      exact near_double zero (isInf_ofInt64 i) rfl rfl (isNaN_ofInt64 i)
  | float x =>
    have bounded : x.isInf = false := Bool.eq_false_iff.2 fun infinite => finite ⟨x, rfl, infinite⟩
    rw [near_comm]
    exact near_double zero bounded (equal_double missing same).1 missing' missing

/-- What is near a value that is equal to it is not infinite. -/
theorem not_infinite (near : a.near tolerance b = true) (same : a.sortCompare b = .eq) :
    ¬Infinite a := by
  intro infinite
  have number := infinite.present
  obtain ⟨x, rfl, unbounded⟩ := infinite
  obtain ⟨double, present⟩ := equal_double number same
  rw [float_near double present, decide_eq_true_eq] at near
  exact not_le_nan (distance_infinity unbounded) near

end TableFlow.Value
