import TableFlow.Eval.Run
import TableFlow.Proofs.Construction
import TableFlow.Proofs.Table.Columns

/-!
# What each step makes of its tables

One lemma for each step of a pipeline: the names, the rows and the cells of the table that
it gives out, in terms of those it reads. A run of a built pipeline gives a well-formed
table of the pipeline's columns (`run_schema`).
-/

namespace TableFlow.Eval

open Table

variable {t r left right : Table} {columns : List String} {c : String}

theorem lift_eq_ok {α : Type} {x : Except Error α} {a : α} : lift x = .ok a ↔ x = .ok a := by
  cases x <;> simp [lift, Except.mapError]

theorem takeRows_eq_ok {positions : List Nat} :
    takeRows t positions = .ok r ↔ t.take? positions = some r := by
  unfold takeRows
  split <;> simp_all

theorem columnCells_eq_ok {cells : List Value} :
    columnCells t c = .ok cells ↔ t.cells? c = some cells := by
  unfold columnCells
  split <;> simp_all

theorem rowwiseAll_eq_mapM {es : List Formula} : rowwiseAll t es = es.mapM (rowwise t) := by
  induction es with
  | nil => rfl
  | cons e es ih =>
    rw [rowwiseAll, ih, List.mapM_cons]
    rfl

/-! ## Tables -/

theorem bind_table {bindings : NameMap Table} {ref : TableRef}
    (h : Eval.bind ref bindings = .ok r) :
    ∃ bound, bindings.get? ref.key = some bound ∧ r.WellFormed ∧ r.names = ref.columns ∧
      ∀ c ∈ ref.columns, r.cells? c = bound.cells? c := by
  unfold Eval.bind at h
  split at h
  · cases h
  · rename_i bound found
    split at h
    · exact ⟨bound, found, select_eq_ok (lift_eq_ok.1 h)⟩
    · cases h

/-! ## Extensions -/

/-- Columns put in one after the other: the last one of a name stays. -/
theorem put_columns {results : List (String × List Value)}
    (h : results.foldlM (fun t (name, cells) => lift (t.setColumn name cells)) t = .ok r)
    (wf : t.WellFormed) (ne : t.names ≠ []) :
    r.WellFormed ∧ r.numRows = t.numRows ∧
      ∀ c, r.cells? c = ((results.reverse.find? (·.1 = c)).map (·.2)).or (t.cells? c) := by
  induction results generalizing t with
  | nil =>
    cases h
    exact ⟨wf, rfl, fun _ => rfl⟩
  | cons result rest ih =>
    rw [List.foldlM_cons] at h
    obtain ⟨next, step, h⟩ := bind_eq_ok.1 h
    have step := lift_eq_ok.1 step
    obtain ⟨wf', rows, ne'⟩ := wf.setColumn step ne
    obtain ⟨wfr, rowsr, cells⟩ := ih h wf' ne'
    refine ⟨wfr, rowsr.trans rows, fun c => ?_⟩
    rw [cells, setColumn_cells step ne, List.reverse_cons, List.find?_append]
    by_cases same : c = result.1
    · cases rest.reverse.find? (·.1 = c) <;> simp [same]
    · cases rest.reverse.find? (·.1 = c) <;> simp [same, Ne.symm same]

/-- An extension gives out the values of its assignments and else what it reads. -/
theorem extendTable_eq_ok {assignments : List (String × Formula)} {window : Window}
    (h : extendTable t assignments window columns = .ok r) (wf : t.WellFormed)
    (ne : t.names ≠ []) (some : columns ≠ []) (nodup : (assignments.map (·.1)).Nodup) :
    r.WellFormed ∧ r.names = columns ∧ r.numRows = t.numRows ∧
      (∀ a ∈ assignments, a.1 ∈ columns →
        ∃ cells, assigned t window a.2 = .ok cells ∧ r.cells? a.1 = .some cells) ∧
      ∀ c ∈ columns, c ∉ assignments.map (·.1) → r.cells? c = t.cells? c := by
  obtain ⟨results, evaluated, h⟩ := bind_eq_ok.1 h
  obtain ⟨put, puts, h⟩ := bind_eq_ok.1 h
  obtain ⟨wfp, rows, cells⟩ := put_columns puts wf ne
  obtain ⟨wfr, names, chosen⟩ := select_eq_ok (lift_eq_ok.1 h)
  have each : List.Forall₂
      (fun a result => result.1 = a.1 ∧ assigned t window a.2 = .ok result.2)
      assignments results := (mapM_eq_ok.1 evaluated).imp fun a result step => by
    obtain ⟨cells, ok, same⟩ := bind_eq_ok.1 step
    cases same
    exact ⟨rfl, ok⟩
  have keys : results.map (·.1) = assignments.map (·.1) :=
    map_eq_map_of_forall₂ (each.imp fun _ _ h => h.1)
  refine ⟨wfr, names, ?_, ?_, ?_⟩
  · obtain ⟨c, hc⟩ := List.exists_mem_of_ne_nil columns some
    rw [wfp.numRows_eq wfr (chosen c hc) (names ▸ hc), rows]
  · intro a ha column
    obtain ⟨result, mem, same, ok⟩ := exists_of_forall₂ each.flip ha
    have nodup' : (results.reverse.map (·.1)).Nodup := by
      rw [List.map_reverse, List.nodup_reverse, keys]
      exact nodup
    refine ⟨result.2, ok, ?_⟩
    rw [chosen _ column, cells, ← same, find?_key nodup' (List.mem_reverse.2 mem)]
    rfl
  · intro c column unassigned
    have none : results.reverse.find? (·.1 = c) = none :=
      find?_key_none.2 (by rw [List.map_reverse, List.mem_reverse, keys]; exact unassigned)
    rw [chosen c column, cells, none]
    rfl

/-! ## Rows -/

/-- The rows for which the condition is true. -/
theorem filterTable_eq_ok {condition : Formula} :
    filterTable t condition = .ok r ↔
      ∃ answers, rowwise t condition = .ok answers ∧
        t.take? ((answers.zipIdx.filter (·.1 = .bool true)).map (·.2)) = some r := by
  simp only [filterTable, bind_eq_ok, takeRows_eq_ok]

/-- The rows in order, up to the limit. -/
theorem orderTable_eq_ok {order : RowOrder} :
    orderTable t order = .ok r ↔
      ∃ positions, sortPositions t order.orderBy order.reverse = .ok positions ∧
        t.take? (match order.limit with
          | some n => positions.take n
          | none => positions) = some r := by
  rw [orderTable, bind_eq_ok]
  exact exists_congr fun positions => and_congr_right fun _ => takeRows_eq_ok

/-! ## Columns made one by one -/

theorem relabelTable_eq_ok {pairs : List (String × String)}
    (h : relabelTable t pairs columns = .ok r) :
    r.WellFormed ∧ r.names = columns ∧
      ∀ name ∈ columns, r.cells? name = t.cells? (oldName pairs name) := by
  obtain ⟨made, renamed, h⟩ := bind_eq_ok.1 h
  obtain ⟨wf, rfl⟩ := ofColumns_eq_ok.1 (lift_eq_ok.1 h)
  have each : List.Forall₂
      (fun name col => col.name = name ∧ t.cells? (oldName pairs name) = some col.cells)
      columns made := (mapM_eq_ok.1 renamed).imp fun name col step => by
    obtain ⟨cells, ok, same⟩ := bind_eq_ok.1 step
    cases same
    exact ⟨rfl, columnCells_eq_ok.1 ok⟩
  refine ⟨wf, map_eq_of_forall₂ (each.imp fun _ _ h => h.1), fun name column => ?_⟩
  obtain ⟨col, mem, rfl, cells⟩ := exists_of_forall₂ each.flip column
  rw [cells]
  exact cells?_of_mem wf.nodup mem

/-- An aggregate of an assignment under its name. -/
theorem aggregateCall_eq_ok {e : Formula} {function column : String}
    (h : aggregateCall e = .ok (function, column)) :
    e = .apply function [.column column] .call := by
  unfold aggregateCall at h
  split at h
  · cases h
    rfl
  · cases h

theorem groupColumn_eq_ok {rows : List (List Nat)} {col : Column} :
    groupColumn t rows c = .ok col ↔
      ∃ cells, t.cells? c = some cells ∧
        ∃ taken, gatherCells cells (rows.filterMap (·.head?)) = .ok taken ∧ ⟨c, taken⟩ = col := by
  simp only [groupColumn, bind_eq_ok, columnCells_eq_ok, Except.ok.injEq]

theorem aggregateColumn_eq_ok {rows : List (List Nat)} {name function column : String}
    {col : Column} :
    aggregateColumn t rows (name, function, column) = .ok col ↔
      ∃ cells, t.cells? column = some cells ∧
        ∃ results, rows.mapM (fun group => do aggregate function (← gatherCells cells group)) =
          .ok results ∧ ⟨name, results⟩ = col := by
  simp only [aggregateColumn, bind_eq_ok, columnCells_eq_ok, Except.ok.injEq]

theorem length_of_mapM {α β : Type} {f : α → Except EvalError β} {l : List α} {r : List β}
    (h : l.mapM f = .ok r) : r.length = l.length :=
  (mapM_eq_ok.1 h).length_eq.symm

/-- The number of groups, as the first column of a grouping has it. -/
def groupCount (rows : List (List Nat)) (groupBy : List String) : Nat :=
  if groupBy = [] then rows.length else (rows.filterMap (·.head?)).length

/-- A grouping gives out the first cells of its groups and its aggregates. -/
theorem groupTable_eq_ok {assignments : List (String × Formula)} {groupBy : List String}
    (h : groupTable t assignments groupBy = .ok r)
    (some : groupBy ++ assignments.map (·.1) ≠ []) :
    r.WellFormed ∧ r.names = groupBy ++ assignments.map (·.1) ∧
      ∃ rows, groupRows t groupBy = .ok rows ∧ r.numRows = groupCount rows groupBy ∧
        (∀ c ∈ groupBy, ∃ col, groupColumn t rows c = .ok col ∧ r.cells? c = .some col.cells) ∧
        ∀ a ∈ assignments, ∃ function column col,
          aggregateCall a.2 = .ok (function, column) ∧
          aggregateColumn t rows (a.1, function, column) = .ok col ∧
          r.cells? a.1 = .some col.cells := by
  obtain ⟨calls, called, h⟩ := bind_eq_ok.1 h
  obtain ⟨rows, grouped, h⟩ := bind_eq_ok.1 h
  obtain ⟨keys, keyed, h⟩ := bind_eq_ok.1 h
  obtain ⟨results, aggregated, h⟩ := bind_eq_ok.1 h
  obtain ⟨wf, rfl⟩ := ofColumns_eq_ok.1 (lift_eq_ok.1 h)
  have calls_of : List.Forall₂ (fun a call => call.1 = a.1 ∧ aggregateCall a.2 = .ok call.2)
      assignments calls := (mapM_eq_ok.1 called).imp fun a call step => by
    obtain ⟨call, ok, same⟩ := bind_eq_ok.1 step
    cases same
    exact ⟨rfl, ok⟩
  have keys_of := mapM_eq_ok.1 keyed
  have results_of := mapM_eq_ok.1 aggregated
  have keys_name : keys.map (·.name) = groupBy :=
    map_eq_of_forall₂ (keys_of.imp fun _ _ h => by
      obtain ⟨_, -, _, -, rfl⟩ := groupColumn_eq_ok.1 h
      rfl)
  have results_name : results.map (·.name) = calls.map (·.1) :=
    map_eq_map_of_forall₂ (results_of.imp fun _ _ h => by
      obtain ⟨_, -, _, -, rfl⟩ := aggregateColumn_eq_ok.1 h
      rfl)
  have calls_name : calls.map (·.1) = assignments.map (·.1) :=
    map_eq_map_of_forall₂ (calls_of.imp fun _ _ h => h.1)
  have groups : ∀ c ∈ groupBy, ∃ col, groupColumn t rows c = .ok col ∧
      Table.cells? ⟨keys ++ results⟩ c = .some col.cells := by
    intro c hc
    obtain ⟨col, mem, h⟩ := exists_of_forall₂ keys_of.flip hc
    refine ⟨col, h, ?_⟩
    obtain ⟨_, -, _, -, rfl⟩ := groupColumn_eq_ok.1 h
    exact cells?_of_mem wf.nodup (List.mem_append_left _ mem)
  have aggregates : ∀ a ∈ assignments, ∃ function column col,
      aggregateCall a.2 = .ok (function, column) ∧
      aggregateColumn t rows (a.1, function, column) = .ok col ∧
      Table.cells? ⟨keys ++ results⟩ a.1 = .some col.cells := by
    intro a ha
    obtain ⟨⟨_, function, column⟩, call, rfl, ok⟩ := exists_of_forall₂ calls_of.flip ha
    obtain ⟨col, mem, h⟩ := exists_of_forall₂ results_of.flip call
    refine ⟨function, column, col, ok, h, ?_⟩
    obtain ⟨_, -, _, -, rfl⟩ := aggregateColumn_eq_ok.1 h
    exact cells?_of_mem wf.nodup (List.mem_append_right _ mem)
  refine ⟨wf, ?_, rows, grouped, ?_, groups, aggregates⟩
  · rw [Table.names, List.map_append, keys_name, results_name, calls_name]
  · unfold groupCount
    split
    · rename_i whole
      obtain ⟨a, ha⟩ := List.exists_mem_of_ne_nil assignments (by simpa [whole] using some)
      obtain ⟨_, _, _, -, h, cells⟩ := aggregates a ha
      obtain ⟨_, -, _, each, rfl⟩ := aggregateColumn_eq_ok.1 h
      rw [← wf.length_cells cells, length_of_mapM each]
    · rename_i cut
      obtain ⟨c, hc⟩ := List.exists_mem_of_ne_nil groupBy cut
      obtain ⟨_, h, cells⟩ := groups c hc
      obtain ⟨_, -, _, each, rfl⟩ := groupColumn_eq_ok.1 h
      rw [← wf.length_cells cells, length_of_mapM each]

/-! ## Joins -/

theorem joinedColumn_name {rows : List Pairing} {col : Column}
    (h : joinedColumn left right rows c = .ok col) :
    col.name = c ∧ col.cells.length = rows.length := by
  obtain ⟨cells, each, same⟩ := bind_eq_ok.1 h
  cases same
  exact ⟨rfl, length_of_mapM each⟩

/-- A join gives out one row for each pairing. -/
theorem joinTables_eq_ok {keys : List String} {type : JoinType}
    (h : joinTables left right columns keys type = .ok r) (some : columns ≠ []) :
    r.WellFormed ∧ r.names = columns ∧
      ∃ rows, pairings left right keys type = .ok rows ∧ r.numRows = rows.length ∧
        ∀ c ∈ columns, ∃ col, joinedColumn left right rows c = .ok col ∧
          r.cells? c = .some col.cells := by
  obtain ⟨rows, paired, h⟩ := bind_eq_ok.1 h
  obtain ⟨made, each, h⟩ := bind_eq_ok.1 h
  obtain ⟨wf, rfl⟩ := ofColumns_eq_ok.1 (lift_eq_ok.1 h)
  have each := mapM_eq_ok.1 each
  have names : Table.names ⟨made⟩ = columns :=
    map_eq_of_forall₂ (each.imp fun _ _ h => (joinedColumn_name h).1)
  refine ⟨wf, names, rows, paired, ?_, fun c column => ?_⟩
  · refine numRows_of (columns_ne_nil.2 (names ▸ some)) fun col mem => ?_
    obtain ⟨c, -, h⟩ := exists_of_forall₂ each mem
    exact (joinedColumn_name h).2
  · obtain ⟨col, mem, h⟩ := exists_of_forall₂ each.flip column
    refine ⟨col, h, ?_⟩
    rw [← (joinedColumn_name h).1]
    exact cells?_of_mem wf.nodup mem

/-! ## Runs -/

open Pipeline in
/-- A run of a built pipeline gives a well-formed table of the pipeline's columns. -/
theorem run_schema {bindings : NameMap Table} {p : Pipeline} (built : p.Built)
    (h : run bindings p = .ok r) : r.WellFormed ∧ r.names = p.columns := by
  induction built generalizing r with
  | table hp =>
    obtain ⟨-, -, -, rfl⟩ := TableRef.of_eq_ok.1 hp
    obtain ⟨_, -, wf, names, -⟩ := bind_table h
    exact ⟨wf, names⟩
  | @extend source p assignments window built hp ih =>
    obtain ⟨fits, rfl⟩ := extend_eq_ok.1 hp
    obtain ⟨t, ht, h⟩ := bind_eq_ok.1 h
    obtain ⟨wf, names⟩ := ih ht
    obtain ⟨wf', names', -⟩ := extendTable_eq_ok h wf (names ▸ built.columns_ne_nil)
      (Built.extend built hp).columns_ne_nil fits.nodup
    exact ⟨wf', names'⟩
  | selectRows _ hp ih =>
    obtain ⟨-, rfl⟩ := selectRows_eq_ok.1 hp
    obtain ⟨t, ht, h⟩ := bind_eq_ok.1 h
    obtain ⟨wf, names⟩ := ih ht
    obtain ⟨_, -, taken⟩ := filterTable_eq_ok.1 h
    exact ⟨wf.take? taken, (take?_names taken).trans names⟩
  | selectColumns _ hp =>
    obtain ⟨-, -, -, rfl⟩ := selectColumns_eq_ok.1 hp
    obtain ⟨t, ht, h⟩ := bind_eq_ok.1 h
    obtain ⟨wf, names, -⟩ := select_eq_ok (lift_eq_ok.1 h)
    exact ⟨wf, names⟩
  | dropColumns _ hp ih =>
    obtain ⟨-, -, -, -, rfl⟩ := dropColumns_eq_ok.1 hp
    obtain ⟨t, ht, h⟩ := bind_eq_ok.1 h
    obtain ⟨wf, names⟩ := ih ht
    obtain ⟨wf', names', -⟩ := wf.removeAll (Except.ok.inj h)
    exact ⟨wf', names'.trans (by rw [names]; rfl)⟩
  | project _ hp =>
    obtain ⟨fits, rfl⟩ := project_eq_ok.1 hp
    obtain ⟨t, ht, h⟩ := bind_eq_ok.1 h
    obtain ⟨wf, names, -⟩ := groupTable_eq_ok h fits.gives
    exact ⟨wf, names⟩
  | orderRows _ hp ih =>
    obtain ⟨-, rfl⟩ := orderRows_eq_ok.1 hp
    obtain ⟨t, ht, h⟩ := bind_eq_ok.1 h
    obtain ⟨wf, names⟩ := ih ht
    obtain ⟨_, -, taken⟩ := orderTable_eq_ok.1 h
    exact ⟨wf.take? taken, (take?_names taken).trans names⟩
  | renameColumns _ hp =>
    obtain ⟨-, rfl⟩ := renameColumns_eq_ok.1 hp
    obtain ⟨t, ht, h⟩ := bind_eq_ok.1 h
    obtain ⟨wf, names, -⟩ := relabelTable_eq_ok h
    exact ⟨wf, names⟩
  | naturalJoin builtl builtr hp =>
    have ne := (Built.naturalJoin builtl builtr hp).columns_ne_nil
    obtain ⟨-, rfl⟩ := naturalJoin_eq_ok.1 hp
    obtain ⟨l, hl, h⟩ := bind_eq_ok.1 h
    obtain ⟨r, hr, h⟩ := bind_eq_ok.1 h
    obtain ⟨wf, names, -⟩ := joinTables_eq_ok h ne
    exact ⟨wf, names⟩

end TableFlow.Eval
