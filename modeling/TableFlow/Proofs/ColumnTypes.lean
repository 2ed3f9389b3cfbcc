import TableFlow.Columnar.Exchange
import TableFlow.Database.Tables
import TableFlow.Proofs.Outcome
import Mathlib.Order.Bounds.Basic

/-!
# Types of whole columns

The types that batches are written with are ordered by what they hold: a double holds an integer,
and every type holds null. One walk over the cells of a column keeps the least type of what it has
seen, so its answer is the least type of all of them, in whatever order they stand
(`CellType.isLeast_ofValues`). The walk that finds the declared type of a database column does the
same step by step (`ColumnType.ofValues_cellType`), so both accept the same columns and their types
correspond (`column_types_agree`).
-/

namespace TableFlow

/-- No two values have types that do not go together: one type goes with itself, an integer with
a double, and null with all. -/
def Compatible (cells : List Value) : Prop :=
  ∀ v ∈ cells, ∀ w ∈ cells, v ≠ .null → w ≠ .null →
    v.typeName = w.typeName ∨ v.isNumeric = true ∧ w.isNumeric = true

instance (cells : List Value) : Decidable (Compatible cells) :=
  inferInstanceAs (Decidable (∀ v ∈ cells, ∀ w ∈ cells, v ≠ .null → w ≠ .null →
    v.typeName = w.typeName ∨ v.isNumeric = true ∧ w.isNumeric = true))

namespace Columnar.CellType

variable {s t u : CellType} {v w : Value} {l m : List Value}

/-! ## The order of types -/

instance : LE CellType := ⟨fun s t => s = null ∨ s = t ∨ s = int64 ∧ t = float64⟩

instance (s t : CellType) : Decidable (s ≤ t) :=
  inferInstanceAs (Decidable (s = null ∨ s = t ∨ s = int64 ∧ t = float64))

/-- A type is below another one if that holds its values. -/
instance : PartialOrder CellType where
  le_refl t := .inr (.inl rfl)
  le_trans s t u := by
    rintro (rfl | rfl | ⟨rfl, rfl⟩) h
    · exact .inl rfl
    · exact h
    · rcases h with h | rfl | ⟨h, -⟩
      · cases h
      · exact .inr (.inr ⟨rfl, rfl⟩)
      · cases h
  le_antisymm s t := by
    cases s <;> cases t <;> decide

/-- The type of two types is below those that are above both. -/
theorem join?_eq_some (h : s.join? t = some u) (w : CellType) : u ≤ w ↔ s ≤ w ∧ t ≤ w := by
  cases s <;> cases t <;> simp only [join?, reduceCtorEq, ite_true, ite_false, Option.some.injEq]
    at h <;> subst h <;> cases w <;> decide

/-- Two types that do not go together have no type above both. -/
theorem join?_eq_none (h : s.join? t = none) (w : CellType) : ¬(s ≤ w ∧ t ≤ w) := by
  cases s <;> cases t <;> simp [join?] at h <;> cases w <;> decide

theorem ofValue_eq_null : ofValue v = null ↔ v = .null := by
  cases v <;> simp [ofValue]

theorem ofValue_eq_float64 : ofValue v = float64 ↔ ∃ x, v = .float x := by
  cases v <;> simp [ofValue]

/-! ## The walk over a column -/

/-- The types that hold all values. -/
def holding (l : List Value) : Set CellType := {u | ∀ v ∈ l, ofValue v ≤ u}

theorem ofValues_ends :
    Ends (ofValues s l) (fun t => ∀ u, t ≤ u ↔ s ≤ u ∧ u ∈ holding l)
      fun _ => ∀ u, s ≤ u → u ∉ holding l := by
  induction l generalizing s with
  | nil => simp [ofValues, Ends, holding]
  | cons v l ih =>
    have more : ∀ u, u ∈ holding (v :: l) ↔ ofValue v ≤ u ∧ u ∈ holding l := fun _ =>
      List.forall_mem_cons
    rw [ofValues]
    split
    · rename_i t joined
      refine ih.mono (fun u least w => ?_) fun _ unbounded w above held => ?_
      · rw [least, join?_eq_some joined, more, and_assoc]
      · obtain ⟨first, rest⟩ := (more w).1 held
        exact unbounded w ((join?_eq_some joined w).2 ⟨above, first⟩) rest
    · rename_i apart
      exact fun w above held => join?_eq_none apart w ⟨above, ((more w).1 held).1⟩

theorem isLeast_ofValues (h : ofValues null l = .ok t) : IsLeast (holding l) t := by
  have least := ofValues_ends.of_eq_ok h
  exact ⟨((least t).1 le_rfl).2, fun u held => (least u).2 ⟨.inl rfl, held⟩⟩

theorem exists_ofValues : (∃ t, ofValues null l = .ok t) ↔ (holding l).Nonempty := by
  constructor
  · rintro ⟨t, h⟩
    exact ⟨t, (isLeast_ofValues h).1⟩
  · rintro ⟨u, held⟩
    refine exists_ok_iff.2 fun ⟨e, failed⟩ => ?_
    exact ofValues_ends.of_eq_error failed u (.inl rfl) held

/-- The order of the values does not matter. -/
theorem ofValues_perm (same : l.Perm m) (h : ofValues null l = .ok t) :
    ofValues null m = .ok t := by
  have holds : holding m = holding l := by
    ext u
    exact forall_congr' fun v => by rw [same.mem_iff]
  obtain ⟨t', h'⟩ := exists_ofValues.2 (holds ▸ exists_ofValues.1 ⟨t, h⟩)
  have least := isLeast_ofValues h'
  rw [holds] at least
  rwa [(isLeast_ofValues h).unique least]

/-- Two values other than null go together just if their types have a join. -/
theorem join?_ofValue (hv : v ≠ .null) (hw : w ≠ .null) :
    (ofValue v).join? (ofValue w) = none ↔
      ¬(v.typeName = w.typeName ∨ v.isNumeric = true ∧ w.isNumeric = true) := by
  cases v <;> cases w <;> simp_all [ofValue, join?, Value.typeName, Value.isNumeric]

/-- Some type holds all values just if no two of them have types that do not go together. -/
theorem nonempty_holding : (holding l).Nonempty ↔ Compatible l := by
  constructor
  · rintro ⟨u, held⟩ v hv w hw some some'
    by_contra apart
    exact join?_eq_none ((join?_ofValue some some').2 apart) u ⟨held v hv, held w hw⟩
  · intro compatible
    by_cases all : ∀ v ∈ l, v = .null
    · exact ⟨null, fun v mem => .inr (.inl (ofValue_eq_null.2 (all v mem)))⟩
    · push Not at all
      obtain ⟨w, hw, some⟩ := all
      -- one value settles the type, except that integers give way to doubles
      refine ⟨if w.isNumeric then float64 else ofValue w, fun v hv => ?_⟩
      by_cases none : v = .null
      · exact .inl (ofValue_eq_null.2 none)
      · have together := compatible v hv w hw none some
        cases v <;> cases w <;> simp_all [ofValue, Value.typeName, Value.isNumeric] <;> decide

theorem exists_ofValues_iff : (∃ t, ofValues null l = .ok t) ↔ Compatible l :=
  exists_ofValues.trans nonempty_holding

/-- A column is one of doubles as soon as it holds one. -/
theorem eq_float64_iff (h : ofValues null l = .ok t) : t = float64 ↔ ∃ x, Value.float x ∈ l := by
  have least := isLeast_ofValues h
  constructor
  · rintro rfl
    by_contra none
    -- without a double integers would do
    have held : int64 ∈ holding l := by
      intro v mem
      have below : ofValue v ≤ float64 := least.1 v mem
      have other : ofValue v ≠ float64 := fun double => by
        obtain ⟨x, rfl⟩ := ofValue_eq_float64.1 double
        exact none ⟨x, mem⟩
      revert below other
      generalize ofValue v = s
      cases s <;> decide
    exact absurd (least.2 held) (by decide)
  · rintro ⟨x, mem⟩
    have below : float64 ≤ t := least.1 _ mem
    revert below
    cases t <;> decide

theorem ofValues_float64 (held : float64 ∈ holding l) (some : ∃ x, Value.float x ∈ l) :
    ofValues null l = .ok float64 := by
  obtain ⟨t, found⟩ := exists_ofValues.2 ⟨float64, held⟩
  rwa [(eq_float64_iff found).2 some] at found

theorem eq_null_iff (h : ofValues null l = .ok t) : t = null ↔ ∀ v ∈ l, v = .null := by
  have least := isLeast_ofValues h
  constructor
  · rintro rfl v mem
    exact ofValue_eq_null.1 (le_antisymm (least.1 v mem) (.inl rfl))
  · intro all
    have held : null ∈ holding l := fun v mem => .inr (.inl (ofValue_eq_null.2 (all v mem)))
    exact le_antisymm (least.2 held) (.inl rfl)

/-- The type that a database column is declared with for the cells of a type. -/
def declared : CellType → String
  | null => "INTEGER"
  | boolean => "BOOLEAN"
  | int64 => "BIGINT"
  | float64 => "DOUBLE"
  | text => "VARCHAR"

end Columnar.CellType

namespace Database

open Columnar

variable {s t : ColumnType} {found : Option ColumnType} {v : Value} {l : List Value}

/-! ## Declared types -/

/-- What is found by the walk for declared types, as a type of batches. -/
def ColumnType.cellType : Option ColumnType → CellType
  | none => .null
  | some boolean => .boolean
  | some bigint => .int64
  | some double => .float64
  | some varchar => .text

namespace ColumnType

theorem cellType_ofValue? : CellType.ofValue v = cellType (ofValue? v) := by
  cases v <;> rfl

theorem join?_cellType :
    (cellType (some s)).join? (cellType (some t)) = (s.widen? t).map (cellType ∘ some) := by
  cases s <;> cases t <;> rfl

theorem declared_cellType : (cellType found).declared = found.elim "INTEGER" name := by
  cases found with
  | none => rfl
  | some t => cases t <;> rfl

/-- Both walks find the same types, or the same two types that do not go together. -/
theorem ofValues_cellType : CellType.ofValues (cellType found) l =
    ((ofValues found l).map cellType).mapError fun (s, t) =>
      (cellType (some s), cellType (some t)) := by
  induction l generalizing found with
  | nil => rfl
  | cons v l ih =>
    rw [CellType.ofValues, cellType_ofValue?]
    cases kind : ofValue? v with
    | none =>
      have same : (cellType found).join? (cellType none) = some (cellType found) := by
        cases found with
        | none => rfl
        | some s => cases s <;> rfl
      simp only [same, ofValues, kind, ih]
    | some t =>
      cases found with
      | none =>
        have first : (cellType none).join? (cellType (some t)) = some (cellType (some t)) := rfl
        simp only [first, ofValues, kind, ih]
      | some s =>
        simp only [join?_cellType, ofValues, kind]
        cases s.widen? t with
        | none => rfl
        | some u => exact ih

end ColumnType

/-- A column is declared with the type that corresponds to the one it has in a batch. -/
theorem columnType_eq_ok {c : Column} {text : String} :
    columnType c = .ok text ↔ ∃ t, CellType.ofValues .null c.cells = .ok t ∧ t.declared = text := by
  have same : CellType.ofValues .null c.cells = _ := @ColumnType.ofValues_cellType none c.cells
  rw [same, columnType]
  cases ColumnType.ofValues none c.cells with
  | error e => simp [Except.map, Except.mapError]
  | ok found => simp [Except.map, Except.mapError, ColumnType.declared_cellType]

end Database

open Columnar

/-- The type of a column in a batch and its declared type in a database are both found, or none
of them is; they are if no two values have types that do not go together. They correspond, the one
in a batch is the least type that holds all values, that of doubles just if there is a double and
that of nothing just if all is null, and the order of the values matters to neither. -/
theorem column_types_agree (c : Column) :
    ((∃ t, CellType.ofValues .null c.cells = .ok t) ↔ Compatible c.cells) ∧
      ((∃ text, Database.columnType c = .ok text) ↔ Compatible c.cells) ∧
      ∀ t, CellType.ofValues .null c.cells = .ok t →
        Database.columnType c = .ok t.declared ∧
        IsLeast {u | ∀ v ∈ c.cells, CellType.ofValue v ≤ u} t ∧
        (t = .float64 ↔ ∃ x, Value.float x ∈ c.cells) ∧
        (t = .null ↔ ∀ v ∈ c.cells, v = .null) ∧
        ∀ d : Column, c.cells.Perm d.cells →
          CellType.ofValues .null d.cells = .ok t ∧ Database.columnType d = .ok t.declared := by
  have iff : (∃ t, CellType.ofValues .null c.cells = .ok t) ↔ Compatible c.cells :=
    CellType.exists_ofValues_iff
  refine ⟨iff, ?_, fun t found => ⟨?_, ?_, ?_, ?_, fun d same => ?_⟩⟩
  · rw [← iff]
    constructor
    · rintro ⟨text, declared⟩
      obtain ⟨t, found, -⟩ := Database.columnType_eq_ok.1 declared
      exact ⟨t, found⟩
    · rintro ⟨t, found⟩
      exact ⟨_, Database.columnType_eq_ok.2 ⟨t, found, rfl⟩⟩
  · exact Database.columnType_eq_ok.2 ⟨t, found, rfl⟩
  · exact CellType.isLeast_ofValues found
  · exact CellType.eq_float64_iff found
  · exact CellType.eq_null_iff found
  · have found' := CellType.ofValues_perm same found
    exact ⟨found', Database.columnType_eq_ok.2 ⟨t, found', rfl⟩⟩

end TableFlow
