import TableFlow.Proofs.ColumnTypes
import TableFlow.Proofs.Table.Columns

/-!
# Tables written as batches and read back

The entries of a type leave out what the type does not hold, so a column that was written with
too narrow a type would lose cells without an error. The type that is chosen holds all of them:
each cell comes back as it was, except that an integer in a column with a double comes back as a
double (`toColumn_ofColumn`). What comes back is written as the same batch (`ofColumn_widened`),
so the second time nothing changes (`batch_read_back`).
-/

namespace TableFlow

/-- An integer as a double, any other value as it is. -/
def Value.widened : Value → Value
  | .int i => .float (Number.ofInt64 i)
  | v => v

def Value.isFloat : Value → Bool
  | .float _ => true
  | _ => false

/-- A column whose integers are doubles if one of its cells is. -/
def Column.widened (c : Column) : Column :=
  if c.cells.any Value.isFloat then { c with cells := c.cells.map Value.widened } else c

def Table.widened (t : Table) : Table := ⟨t.columns.map Column.widened⟩

theorem any_isFloat {l : List Value} : l.any Value.isFloat = true ↔ ∃ x, Value.float x ∈ l := by
  rw [List.any_eq_true]
  constructor
  · rintro ⟨v, mem, float⟩
    cases v with
    | float x => exact ⟨x, mem⟩
    | _ => cases float
  · rintro ⟨x, mem⟩
    exact ⟨_, mem, rfl⟩

theorem Column.name_widened {c : Column} : c.widened.name = c.name := by
  unfold widened
  split <;> rfl

theorem Column.length_widened {c : Column} : c.widened.cells.length = c.cells.length := by
  unfold widened
  split
  · exact List.length_map _
  · rfl

theorem Table.names_widened {t : Table} : t.widened.names = t.names := by
  rw [names, widened, List.map_map]
  exact List.map_congr_left fun _ _ => Column.name_widened

theorem Table.WellFormed.widened {t : Table} (wf : t.WellFormed) : t.widened.WellFormed := by
  have nodup : t.widened.names.Nodup := by rw [names_widened]; exact wf.nodup
  refine wellFormed_of (n := t.numRows) nodup fun col mem => ?_
  obtain ⟨c, here, rfl⟩ := List.mem_map.1 mem
  rw [Column.length_widened, wf.even c here]

namespace Columnar

variable {type : CellType} {c : Column} {s : Series} {t : Table} {b : Batch} {l : List Value}

/-! ## One column -/

/-- A value as it comes back from the entries of a type. -/
def CellType.stored (type : CellType) (v : Value) : Value :=
  if type = .float64 then v.widened else v

theorem map_stored {f : Value → Value} (held : type ∈ CellType.holding l)
    (each : ∀ v, CellType.ofValue v = .null ∨ CellType.ofValue v = type ∨
      CellType.ofValue v = .int64 ∧ type = .float64 → f v = type.stored v) :
    some (l.map f) = some (l.map type.stored) :=
  congrArg some (List.map_congr_left fun v mem => each v (held v mem))

/-- Entries of a type that holds all values lose none of them. -/
theorem toValues?_encode (held : type ∈ CellType.holding l) :
    (type.encode l).toValues? = some (l.map type.stored) := by
  cases type with
  | null =>
    rw [CellType.encode, Entries.toValues?, ← List.map_const']
    refine map_stored held fun v kind => ?_
    cases v <;> simp_all [CellType.ofValue, CellType.stored]
  | boolean =>
    rw [CellType.encode, Entries.toValues?, List.map_map]
    refine map_stored held fun v kind => ?_
    cases v <;> simp_all [CellType.ofValue, CellType.stored, Value.toBool?]
  | int64 =>
    rw [CellType.encode, Entries.toValues?, List.map_map]
    refine map_stored held fun v kind => ?_
    cases v <;> simp_all [CellType.ofValue, CellType.stored, Value.ofInt?_toInt]
  | float64 =>
    rw [CellType.encode, Entries.toValues?, List.map_map]
    refine map_stored held fun v kind => ?_
    cases v <;> simp_all [CellType.ofValue, CellType.stored, Value.toFloat?, Value.widened]
  | text =>
    rw [CellType.encode, Entries.toValues?, List.map_map]
    refine map_stored held fun v kind => ?_
    cases v <;> simp_all [CellType.ofValue, CellType.stored, Value.toText?]

theorem ofColumn_eq_ok : Series.ofColumn c = .ok s ↔
    ∃ type, CellType.ofValues .null c.cells = .ok type ∧ ⟨c.name, type.encode c.cells⟩ = s := by
  unfold Series.ofColumn
  split <;> simp_all

/-- The type of a column tells whether it is widened. -/
theorem cells_widened (found : CellType.ofValues .null c.cells = .ok type) :
    c.widened.cells = c.cells.map type.stored := by
  have double : type = .float64 ↔ c.cells.any Value.isFloat = true :=
    (CellType.eq_float64_iff found).trans any_isFloat.symm
  unfold Column.widened
  by_cases h : type = .float64
  · rw [if_pos (double.1 h)]
    exact List.map_congr_left fun v _ => (if_pos h).symm
  · rw [if_neg (double.not.1 h)]
    exact ((List.map_congr_left fun v _ => if_neg h).trans (List.map_id' _)).symm

/-- A column that is written is read back widened. -/
theorem toColumn_ofColumn (made : Series.ofColumn c = .ok s) : s.toColumn = .ok c.widened := by
  obtain ⟨type, found, rfl⟩ := ofColumn_eq_ok.1 made
  rw [Series.toColumn, toValues?_encode (CellType.isLeast_ofValues found).1,
    ← cells_widened found, ← Column.name_widened]

/-- Doubles in the place of integers are written as the integers are. -/
theorem encode_widened :
    CellType.encode .float64 (l.map Value.widened) = CellType.encode .float64 l := by
  rw [CellType.encode, CellType.encode, List.map_map]
  congr 1
  refine List.map_congr_left fun v _ => ?_
  cases v <;> rfl

theorem holding_widened (held : .float64 ∈ CellType.holding l) :
    .float64 ∈ CellType.holding (l.map Value.widened) := by
  intro w mem
  obtain ⟨v, here, rfl⟩ := List.mem_map.1 mem
  cases v with
  | int i => exact le_rfl
  | _ => exact held _ here

/-- A widened column is written as the column is. -/
theorem ofColumn_widened (made : Series.ofColumn c = .ok s) :
    Series.ofColumn c.widened = .ok s := by
  by_cases double : c.cells.any Value.isFloat = true
  · obtain ⟨type, found, rfl⟩ := ofColumn_eq_ok.1 made
    obtain ⟨x, mem⟩ := any_isFloat.1 double
    obtain rfl := (CellType.eq_float64_iff found).2 ⟨x, mem⟩
    have again : CellType.ofValues .null (c.cells.map Value.widened) = .ok .float64 :=
      CellType.ofValues_float64 (holding_widened (CellType.isLeast_ofValues found).1)
        ⟨x, List.mem_map_of_mem mem⟩
    rw [Column.widened, if_pos double]
    exact ofColumn_eq_ok.2 ⟨.float64, again, congrArg (Series.mk c.name) encode_widened⟩
  · rwa [Column.widened, if_neg double]

/-! ## Whole tables -/

theorem ofTable_eq_ok : Batch.ofTable t = .ok b ↔
    t.columns ≠ [] ∧ List.Forall₂ (fun c s => Series.ofColumn c = .ok s) t.columns b.series := by
  simp only [Batch.ofTable, bind_eq_ok, guard_eq_ok, mapM_eq_ok, Except.ok.injEq]
  constructor
  · rintro ⟨series, each, some, rfl⟩
    refine ⟨fun none => some ?_, each⟩
    rw [none, List.forall₂_nil_left_iff] at each
    rw [each, List.isEmpty_nil]
  · rintro ⟨some, each⟩
    refine ⟨b.series, each, fun none => some ?_, rfl⟩
    rwa [List.isEmpty_iff.1 none, List.forall₂_nil_right_iff] at each

theorem exists_ofColumn : (∃ s, Series.ofColumn c = .ok s) ↔ Compatible c.cells := by
  rw [← CellType.exists_ofValues_iff]
  constructor
  · rintro ⟨s, made⟩
    obtain ⟨type, found, -⟩ := ofColumn_eq_ok.1 made
    exact ⟨type, found⟩
  · rintro ⟨type, found⟩
    exact ⟨_, ofColumn_eq_ok.2 ⟨type, found, rfl⟩⟩

theorem exists_ofTable :
    (∃ b, Batch.ofTable t = .ok b) ↔ t.columns ≠ [] ∧ ∀ c ∈ t.columns, Compatible c.cells := by
  simp only [← exists_ofColumn, ← exists_mapM_ok, mapM_eq_ok]
  constructor
  · rintro ⟨b, made⟩
    obtain ⟨some, each⟩ := ofTable_eq_ok.1 made
    exact ⟨some, b.series, each⟩
  · rintro ⟨some, series, each⟩
    exact ⟨⟨series⟩, ofTable_eq_ok.2 ⟨some, each⟩⟩

/-- A table can be written if it has columns and no column holds values that do not go together.
It is then read back with the same names in the same order and the same cells, but that integers
are doubles in a column that has a double; and what is read back is written as the same batch. -/
theorem batch_read_back (wf : t.WellFormed) :
    ((∃ b, Batch.ofTable t = .ok b) ↔ t.columns ≠ [] ∧ ∀ c ∈ t.columns, Compatible c.cells) ∧
      ∀ b, Batch.ofTable t = .ok b →
        b.toTable = .ok t.widened ∧ t.widened.names = t.names ∧
          Batch.ofTable t.widened = .ok b := by
  refine ⟨exists_ofTable, fun b made => ?_⟩
  obtain ⟨some, each⟩ := ofTable_eq_ok.1 made
  refine ⟨?_, Table.names_widened, ofTable_eq_ok.2 ⟨by simpa [Table.widened] using some, ?_⟩⟩
  · have columns : b.series.mapM Series.toColumn = .ok t.widened.columns := by
      refine mapM_eq_ok.2 ?_
      rw [Table.widened, List.forall₂_map_right_iff]
      exact each.flip.imp fun s c => toColumn_ofColumn
    rw [Batch.toTable, columns]
    have whole : Table.ofColumns t.widened.columns = .ok t.widened :=
      Table.ofColumns_eq_ok.2 ⟨wf.widened, rfl⟩
    show (Table.ofColumns t.widened.columns).mapError _ = _
    rw [whole]
    rfl
  · rw [Table.widened, List.forall₂_map_left_iff]
    exact each.imp fun c s => ofColumn_widened

/-- Integers beside a double and beside none, with nulls anywhere, and a column of nulls only. -/
theorem batch_read_back_mixed :
    let t : Table := ⟨[⟨"id", [.int 1, .null, .int 2]⟩, ⟨"score", [.int 3, .float 0.5, .null]⟩,
      ⟨"name", [.null, .text "b", .text ""]⟩, ⟨"none", [.null, .null, .null]⟩]⟩
    let r : Table := ⟨[⟨"id", [.int 1, .null, .int 2]⟩,
      ⟨"score", [.float (Number.ofInt64 3), .float 0.5, .null]⟩,
      ⟨"name", [.null, .text "b", .text ""]⟩, ⟨"none", [.null, .null, .null]⟩]⟩
    t.WellFormed ∧ ∃ b, Batch.ofTable t = .ok b ∧ b.toTable = .ok r ∧ Batch.ofTable r = .ok b := by
  intro t r
  have wf : t.WellFormed := ⟨by decide, by decide⟩
  obtain ⟨b, made⟩ : ∃ b, Batch.ofTable t = .ok b := ⟨_, rfl⟩
  obtain ⟨back, -, again⟩ := (batch_read_back wf).2 b made
  exact ⟨wf, b, made, back, again⟩

end Columnar

end TableFlow
