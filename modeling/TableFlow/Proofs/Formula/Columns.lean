import TableFlow.Formula.Basic

/-!
# Columns of a formula

Induction over formulas, arguments included, and what it means to be a column of one.
-/

namespace TableFlow.Formula

mutual

/-- A property that passes from the arguments to each application holds of every
formula. -/
theorem induction {P : Formula → Prop} (constant : ∀ v, P (constant v))
    (column : ∀ name, P (column name))
    (apply : ∀ name args form, (∀ a ∈ args, P a) → P (apply name args form)) :
    ∀ e, P e
  | .constant v => constant v
  | .column name => column name
  | .apply name args form => apply name args form (induction_all constant column apply args)

theorem induction_all {P : Formula → Prop} (constant : ∀ v, P (.constant v))
    (column : ∀ name, P (.column name))
    (apply : ∀ name args form, (∀ a ∈ args, P a) → P (.apply name args form)) :
    ∀ es : List Formula, ∀ e ∈ es, P e
  | [], _, h => absurd h List.not_mem_nil
  | e :: es, a, h => by
    rcases List.mem_cons.1 h with same | rest
    · rw [same]
      exact induction constant column apply e
    · exact induction_all constant column apply es a rest

end

theorem columnLists_eq_flatMap {es : List Formula} :
    columnLists es = es.flatMap columnList := by
  induction es with
  | nil => rfl
  | cons e es ih => simp [columnLists, ih]

/-- The columns of an application are those of its arguments. -/
theorem mem_columnList_apply {name : String} {args : List Formula} {form : Form} {c : String} :
    c ∈ (apply name args form).columnList ↔ ∃ a ∈ args, c ∈ a.columnList := by
  rw [columnList, columnLists_eq_flatMap, List.mem_flatMap]

theorem mem_columns {e : Formula} {c : String} : c ∈ e.columns ↔ c ∈ e.columnList := by
  simp [columns]

/-- The columns that assignments read. -/
theorem mem_columnsOfAll {assignments : List (String × Formula)} {c : String} :
    c ∈ columnsOfAll (assignments.map (·.2)) ↔ ∃ a ∈ assignments, c ∈ a.2.columns := by
  rw [columnsOfAll, columnLists_eq_flatMap, NameSet.mem_ofList, List.flatMap_map, List.mem_flatMap]
  simp only [mem_columns]

end TableFlow.Formula
