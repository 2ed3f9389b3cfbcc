import TableFlow.Proofs.Eval.Positions
import TableFlow.Proofs.Eval.Steps
import TableFlow.Proofs.Formula.Columns

/-!
# How a step may fail

One lemma for each step of a pipeline over a well-formed table of its source's columns. It fails
only if a formula does not fit the cells that it is evaluated on (`OfFormula`), or if a sort stops
(`OfStep`): no column is missing, no columns of different lengths are put together, and no row
that is not there is asked for.
-/

namespace TableFlow.Eval

open Table

/-- The errors of formulas and of aggregates. -/
def OfFormula : EvalError → Prop
  | .nonTrivialAggregate _ | .windowArgument _ | .unknownAggregate _ | .unknownWindowFunction _
  | .unknownFunction .. | .typeMismatch .. | .misplacedAggregate _ => True
  | .missingTable _ | .missingColumns .. | .missingBetween _ | .missingOperand _
  | .noWindowCall _ | .unsupportedType .. | .emptyBatch | .rowOutOfRange | .unsortable
  | .model _ => False

/-- The errors of formulas, and that of a sort where one may stop. -/
def OfStep (stops : Prop) (e : EvalError) : Prop :=
  OfFormula e ∨ e = .unsortable ∧ stops

theorem OfStep.imp {stops stops' : Prop} (h : stops → stops') {e : EvalError} :
    OfStep stops e → OfStep stops' e :=
  Or.imp_right (And.imp_right h)

theorem of_formula {α : Type} {x : Except EvalError α} {post : α → Prop} {stops : Prop}
    (h : Ends x post OfFormula) : Ends x post (OfStep stops) :=
  h.mono (fun _ => id) fun _ => .inl

/-! ## Functions on cells -/

section
variable {name : String} {a b v : Value} {vs : List Value}

theorem logic_ends {combine : Option Bool → Option Bool → Option Bool} :
    Ends (logic name combine a b) (fun _ => True) OfFormula := by
  unfold logic
  split <;> exact trivial

theorem arithmetic_ends {op : Arithmetic} : Ends (op.apply a b) (fun _ => True) OfFormula := by
  unfold Arithmetic.apply
  split
  · exact trivial
  · exact trivial
  · exact trivial
  · split <;> exact trivial

theorem binary_ends : Ends (binary name a b) (fun _ => True) OfFormula := by
  unfold binary
  split
  · exact logic_ends
  · split
    · exact logic_ends
    · split
      · exact trivial
      · exact arithmetic_ends
      · exact trivial

theorem onNumber_ends {f : Float → Float} :
    Ends (onNumber name f v) (fun _ => True) OfFormula := by
  unfold onNumber
  split <;> exact trivial

theorem onSigned_ends {g : Int → Int} {f : Float → Float} :
    Ends (onSigned name g f v) (fun _ => True) OfFormula := by
  unfold onSigned
  split
  · exact trivial
  · exact onNumber_ends

theorem opposite_ends : Ends (opposite name v) (fun _ => True) OfFormula := by
  unfold opposite
  split <;> exact trivial

theorem unary_ends {function : String} {f : String → Value → Except EvalError Value}
    (known : unary? function = some f) : Ends (f name v) (fun _ => True) OfFormula := by
  unfold unary? at known
  split at known <;> cases known
  · exact opposite_ends
  · exact onSigned_ends
  · exact onSigned_ends
  · exact onNumber_ends
  · exact onNumber_ends
  · exact onNumber_ends
  · exact onNumber_ends
  · exact onNumber_ends
  · exact onNumber_ends
  · exact onNumber_ends
  · exact trivial

theorem ifElse_ends {whenTrue whenFalse : Value} :
    Ends (ifElse name v whenTrue whenFalse) (fun _ => True) OfFormula := by
  unfold ifElse
  split <;> exact trivial

theorem call_ends : Ends (call name vs) (fun _ => True) OfFormula := by
  unfold call
  split
  · exact trivial
  · split
    · split
      · exact ifElse_ends
      · exact trivial
    · split
      · rename_i known
        exact unary_ends known
      · exact trivial

theorem sum_ends : Ends (sum vs) (fun _ => True) OfFormula := by
  unfold sum
  split
  · exact trivial
  · exact Ends.foldlM trivial fun _ _ _ _ => arithmetic_ends

theorem floatSum_ends {total : Float} :
    Ends (floatSum name total vs) (fun _ => True) OfFormula := by
  induction vs generalizing total with
  | nil => exact trivial
  | cons v vs ih =>
    unfold floatSum
    split
    · exact ih
    · exact trivial

theorem mean_ends : Ends (mean name vs) (fun _ => True) OfFormula := by
  unfold mean
  split
  · exact trivial
  · exact floatSum_ends.bind fun _ _ => trivial

theorem aggregate_ends : Ends (aggregate name vs) (fun _ => True) OfFormula := by
  unfold aggregate
  dsimp only
  split
  · exact trivial
  · exact sum_ends
  · exact mean_ends
  · exact mean_ends
  · exact trivial
  · exact trivial
  · exact trivial

end

/-! ## Formulas over a table -/

variable {t left right : Table} {e : Formula} {window : Window} {columns names : List String}
  {c : String} {n : Nat}

theorem applyRow_ends {name : String} {form : Form} {vs : List Value} :
    Ends (applyRow name form vs) (fun _ => True) OfFormula := by
  unfold applyRow
  split
  · exact binary_ends
  · exact call_ends

theorem rowwiseAll_ends {es : List Formula} (each : ∀ e ∈ es,
      Ends (rowwise t e) (fun cells => cells.length = n) OfFormula) :
    Ends (rowwiseAll t es) (fun columns => ∀ cells ∈ columns, cells.length = n) OfFormula := by
  rw [rowwiseAll_eq_mapM]
  refine (Ends.mapM each).mono (fun columns all cells mem => ?_) fun _ => id
  obtain ⟨_, -, even⟩ := exists_of_forall₂ all mem
  exact even

/-- A formula over columns that are there gives a cell for each row. -/
theorem rowwise_ends (wf : t.WellFormed) : ∀ e : Formula, (∀ c ∈ e.columnList, c ∈ t.names) →
    Ends (rowwise t e) (fun cells => cells.length = t.numRows) OfFormula := by
  refine Formula.induction ?_ ?_ ?_
  · intro v _
    exact List.length_replicate
  · intro name known
    obtain ⟨cells, found⟩ := exists_cells (known name (List.mem_singleton.2 rfl))
    rw [rowwise, found]
    exact wf.length_cells found
  · intro name args form ih known
    have operands : ∀ a ∈ args, ∀ c ∈ a.columnList, c ∈ t.names := fun a ha c hc =>
      known c (Formula.mem_columnList_apply.2 ⟨a, ha, hc⟩)
    rw [rowwise]
    split
    · exact trivial
    · refine (rowwiseAll_ends fun a ha => ih a ha (operands a ha)).bind fun columns even => ?_
      refine (Ends.mapM_length fun i mem => ?_).mono
        (fun cells even => even.trans List.length_range) fun _ => id
      have row : Ends (cellsAt columns i) (fun _ => True) OfFormula :=
        cellsAt_ends fun cells column => even cells column ▸ List.mem_range.1 mem
      exact row.bind fun _ _ => applyRow_ends

/-- The cells that a call over a window works on are those of all rows. -/
def WindowCall.Fits (n : Nat) : WindowCall → Prop
  | rowNumber => True
  | aggregate _ cells => cells.length = n

theorem windowCall_ends (wf : t.WellFormed) (call : e.isWindowCall = true)
    (known : ∀ c ∈ e.columnList, c ∈ t.names) :
    Ends (windowCall t e) (WindowCall.Fits t.numRows) OfFormula := by
  unfold windowCall
  split
  · exact trivial
  · exact trivial
  · rename_i name column _
    have there : column ∈ t.names :=
      known column (by simp [Formula.columnList, Formula.columnLists])
    exact (columnCells_ends there).bind fun cells found => wf.length_cells found
  · exact trivial
  · rename_i none
    cases e with
    | constant => cases call
    | column => cases call
    | apply name args form => exact absurd rfl (none name args form)

theorem answer_ends {call : WindowCall} {partition : List Nat} (fits : call.Fits n)
    (inside : ∀ i ∈ partition, i < n) :
    Ends (call.answer partition) (fun _ => True) OfFormula := by
  cases call with
  | rowNumber => exact trivial
  | aggregate name cells =>
    have some : cells.length = n := fits
    exact (gatherCells_ends (some ▸ inside)).bind fun _ _ =>
      aggregate_ends.bind fun _ _ => trivial

theorem windowValues_ends (wf : t.WellFormed) (call : e.isWindowCall = true)
    (known : ∀ c ∈ e.columnList, c ∈ t.names)
    (placed : ∀ c ∈ window.partitionBy ++ window.orderBy, c ∈ t.names) :
    Ends (windowValues t e window) (fun cells => cells.length = t.numRows)
      (OfStep (t.Tangled (window.partitionBy ++ window.orderBy))) := by
  have partition : ∀ c ∈ window.partitionBy, c ∈ t.names := fun c mem =>
    placed c (List.mem_append_left _ mem)
  refine (of_formula (windowCall_ends wf call known)).bind fun call fits => ?_
  refine (sortPositions_ends wf placed fun tangled =>
    .inr ⟨rfl, tangled⟩).bind fun order perm => ?_
  refine (groups_ends wf partition (inside_of_perm perm)).bind fun rows grouped => ?_
  refine (of_formula (Ends.mapM_length fun group mem =>
    answer_ends fits (grouped.2.inside group mem))).bind fun answers _ => ?_
  show List.length _ = _
  rw [List.length_map, List.length_range]

theorem assigned_ends (wf : t.WellFormed) (known : ∀ c ∈ e.columnList, c ∈ t.names)
    (placed : ∀ c ∈ window.partitionBy ++ window.orderBy, c ∈ t.names) :
    Ends (assigned t window e) (fun cells => cells.length = t.numRows) (OfStep
      (e.isWindowCall = true ∧ t.Tangled (window.partitionBy ++ window.orderBy))) := by
  unfold assigned
  split
  · rename_i call
    exact (windowValues_ends wf call known placed).mono (fun _ => id) fun _ =>
      OfStep.imp fun tangled => ⟨call, tangled⟩
  · exact of_formula (rowwise_ends wf e known)

/-! ## Operations on tables -/

section
variable {bad : EvalError → Prop} {positions : List Nat} {cells : List Value}

/-- Columns of one length under different names are a table. -/
theorem ofColumns_ends {made : List Column} (nodup : (made.map (·.name)).Nodup)
    (even : ∀ col ∈ made, col.cells.length = n) :
    Ends (lift (ofColumns made)) (fun _ => True) bad := by
  have ok : ofColumns made = .ok ⟨made⟩ := ofColumns_eq_ok.2 ⟨wellFormed_of nodup even, rfl⟩
  rw [ok]
  exact trivial

theorem select_ends (wf : t.WellFormed) (nodup : names.Nodup) (known : ∀ c ∈ names, c ∈ t.names) :
    Ends (lift (t.select names)) (fun _ => True) bad := by
  have found : ∀ c ∈ names, ∃ col, t.column? c = some col := fun c mem => by
    obtain ⟨cells, found⟩ := exists_cells (known c mem)
    obtain ⟨col, found, -⟩ := Option.map_eq_some_iff.1 found
    exact ⟨col, found⟩
  have missing : (names.filter fun c => (t.column? c).isNone) = [] :=
    List.filter_eq_nil_iff.2 fun c mem => by
      obtain ⟨col, found⟩ := found c mem
      simp [found]
  unfold Table.select
  rw [missing]
  refine ofColumns_ends (n := t.numRows) ?_ fun col mem => ?_
  · rwa [map_name_filterMap found]
  · obtain ⟨c, -, found⟩ := List.mem_filterMap.1 mem
    exact wf.even col (find?_key_some found).1

theorem setColumn_ends (even : cells.length = t.numRows) :
    Ends (lift (t.setColumn c cells)) (fun _ => True) bad := by
  obtain ⟨r, set⟩ := exists_setColumn even
  rw [set]
  exact trivial

theorem takeRows_ends (wf : t.WellFormed) (inside : ∀ i ∈ positions, i < t.numRows) :
    Ends (takeRows t positions) (fun _ => True) bad := by
  obtain ⟨r, taken⟩ := wf.exists_take? inside
  rw [takeRows, taken]
  exact trivial

end

/-! ## Steps -/

theorem column?_isNone : (t.column? c).isNone = true ↔ c ∉ t.names := by
  rw [Option.isNone_iff_eq_none, ← cells?_eq_none, cells?, Option.map_eq_none_iff]

/-- Columns of one length are put into a table, and the wanted ones are there afterwards. -/
theorem put_ends {bad : EvalError → Prop} {results : List (String × List Value)}
    (wf : t.WellFormed) (some : t.names ≠ [])
    (even : ∀ result ∈ results, result.2.length = t.numRows) (nodup : columns.Nodup)
    (covered : ∀ c ∈ columns, c ∈ t.names ∨ c ∈ results.map (·.1)) :
    Ends (do
      let r ← results.foldlM (fun t (name, cells) => lift (t.setColumn name cells)) t
      lift (r.select columns))
      (fun r => r.WellFormed ∧ r.names = columns ∧ ∀ c ∈ columns,
        r.cells? c = ((results.reverse.find? (·.1 = c)).map (·.2)).or (t.cells? c)) bad := by
  have put : Ends (results.foldlM (fun t result => lift (t.setColumn result.1 result.2)) t)
      (fun r => r.WellFormed ∧ r.numRows = t.numRows ∧ r.names ≠ []) bad := by
    refine Ends.foldlM ⟨wf, rfl, some⟩ fun r result mem ⟨wf', rows, some'⟩ => ?_
    refine (setColumn_ends ((even result mem).trans rows.symm)).of_ok fun r' set => ?_
    obtain ⟨wf'', rows', some''⟩ := wf'.setColumn (lift_eq_ok.1 set) some'
    exact ⟨wf'', rows'.trans rows, some''⟩
  refine (put.of_ok fun r puts => put_columns puts wf some).bind fun r ⟨wf', _, cells⟩ => ?_
  refine (select_ends wf' nodup fun c column => ?_).of_ok fun chosen select => ?_
  · by_contra absent
    have none := (cells c).symm.trans (cells?_eq_none.2 absent)
    obtain ⟨unassigned, unread⟩ := Option.or_eq_none_iff.1 none
    rcases covered c column with read | assigned
    · exact cells?_eq_none.1 unread read
    · rw [Option.map_eq_none_iff, find?_key_none, List.map_reverse, List.mem_reverse] at unassigned
      exact unassigned assigned
  · obtain ⟨wfc, names, same⟩ := select_eq_ok (lift_eq_ok.1 select)
    exact ⟨wfc, names, fun c column => (same c column).trans (cells c)⟩

/-- Each assignment gives a cell for each row under its name. -/
theorem values_ends {assignments : List (String × Formula)} (wf : t.WellFormed)
    (known : ∀ a ∈ assignments, ∀ c ∈ a.2.columnList, c ∈ t.names)
    (placed : ∀ c ∈ window.partitionBy ++ window.orderBy, c ∈ t.names) :
    Ends (assignments.mapM fun (name, e) => do .ok (name, ← assigned t window e))
      (List.Forall₂ (fun a result => result.1 = a.1 ∧ result.2.length = t.numRows) assignments)
      (OfStep ((∃ a ∈ assignments, a.2.isWindowCall = true) ∧
        t.Tangled (window.partitionBy ++ window.orderBy))) := by
  refine Ends.mapM fun a ha => ?_
  have ends : Ends (do .ok (a.1, ← assigned t window a.2))
      (fun result => result.1 = a.1 ∧ result.2.length = t.numRows) (OfStep
        (a.2.isWindowCall = true ∧ t.Tangled (window.partitionBy ++ window.orderBy))) :=
    (assigned_ends wf (known a ha) placed).bind fun _ even => And.intro rfl even
  exact ends.mono (fun _ => id) fun _ => OfStep.imp fun ⟨call, tangled⟩ => ⟨⟨a, ha, call⟩, tangled⟩

theorem extendTable_ends {assignments : List (String × Formula)} (wf : t.WellFormed)
    (some : t.names ≠ []) (known : ∀ a ∈ assignments, ∀ c ∈ a.2.columnList, c ∈ t.names)
    (placed : ∀ c ∈ window.partitionBy ++ window.orderBy, c ∈ t.names) (nodup : columns.Nodup)
    (covered : ∀ c ∈ columns, c ∈ t.names ∨ c ∈ assignments.map (·.1)) :
    Ends (extendTable t assignments window columns) (fun _ => True)
      (OfStep ((∃ a ∈ assignments, a.2.isWindowCall = true) ∧
        t.Tangled (window.partitionBy ++ window.orderBy))) := by
  refine (values_ends wf known placed).bind fun results each => ?_
  refine (put_ends wf some (fun result mem => ?_) nodup fun c column => ?_).mono
    (fun _ _ => trivial) fun _ => id
  · obtain ⟨a, -, -, even⟩ := exists_of_forall₂ each mem
    exact even
  · rw [map_eq_map_of_forall₂ (each.imp fun _ _ h => h.1)]
    exact covered c column

theorem filterTable_ends {condition : Formula} (wf : t.WellFormed)
    (known : ∀ c ∈ condition.columnList, c ∈ t.names) :
    Ends (filterTable t condition) (fun _ => True) OfFormula := by
  refine (rowwise_ends wf condition known).bind fun answers even => ?_
  refine takeRows_ends wf fun i mem => ?_
  obtain ⟨⟨v, j⟩, within, rfl⟩ := List.mem_map.1 mem
  have place := List.snd_lt_of_mem_zipIdx (List.mem_filter.1 within).1
  simpa [even] using place

theorem orderTable_ends {order : RowOrder} (wf : t.WellFormed)
    (known : ∀ c ∈ order.orderBy, c ∈ t.names) :
    Ends (orderTable t order) (fun _ => True) (OfStep (t.Tangled order.orderBy)) := by
  refine (sortPositions_ends wf known fun tangled =>
    .inr ⟨rfl, tangled⟩).bind fun positions perm => takeRows_ends wf ?_
  split
  · exact fun i mem => inside_of_perm perm i (List.mem_of_mem_take mem)
  · exact inside_of_perm perm

/-- Columns that are there get their new names without fail. -/
theorem relabelTable_ends {bad : EvalError → Prop} {pairs : List (String × String)}
    (wf : t.WellFormed) (nodup : columns.Nodup)
    (known : ∀ c ∈ columns, oldName pairs c ∈ t.names) :
    Ends (relabelTable t pairs columns) (fun _ => True) bad := by
  have renamed : ∀ c ∈ columns,
      Ends (do .ok (Column.mk c (← columnCells t (oldName pairs c))))
        (fun col => col.name = c ∧ col.cells.length = t.numRows) bad := fun c mem =>
    (columnCells_ends (known c mem)).bind fun cells found => And.intro rfl (wf.length_cells found)
  refine (Ends.mapM renamed).bind fun made each => ?_
  refine ofColumns_ends (n := t.numRows) ?_ fun col mem => ?_
  · rwa [map_eq_of_forall₂ (each.imp fun _ _ h => h.1)]
  · obtain ⟨_, -, -, even⟩ := exists_of_forall₂ each mem
    exact even

/-! ## Groupings -/

theorem aggregateCall_ends :
    Ends (aggregateCall e) (fun call => call.2 ∈ e.columnList) OfFormula := by
  unfold aggregateCall
  split
  · simp [Ends, Formula.columnList, Formula.columnLists]
  · exact trivial

/-- Groups over some columns are not empty; the group of all rows may be. -/
theorem groupRows_ends {bad : EvalError → Prop} {groupBy : List String} (wf : t.WellFormed)
    (known : ∀ c ∈ groupBy, c ∈ t.names) (stops : t.Tangled groupBy → bad .unsortable) :
    Ends (groupRows t groupBy) (fun groups => (∀ group ∈ groups, ∀ i ∈ group, i < t.numRows) ∧
      (groupBy ≠ [] → Grouped t.numRows groups)) bad := by
  unfold groupRows
  split
  · rename_i whole
    refine ⟨?_, fun some => absurd (List.isEmpty_iff.1 whole) some⟩
    simp
  · refine (sortPositions_ends wf known stops).bind fun order perm => ?_
    refine (groups_ends wf known (inside_of_perm perm)).mono (fun found grouped => ?_) fun _ => id
    exact ⟨grouped.2.inside, fun _ => grouped.2⟩

theorem groupColumn_ends {bad : EvalError → Prop} {groups : List (List Nat)} (wf : t.WellFormed)
    (known : c ∈ t.names) (grouped : Grouped t.numRows groups) :
    Ends (groupColumn t groups c) (fun col => col.name = c ∧ col.cells.length = groups.length)
      bad := by
  refine (columnCells_ends known).bind fun cells found => ?_
  have inside : ∀ i ∈ groups.filterMap (·.head?), i < cells.length :=
    wf.length_cells found ▸ grouped.heads_inside
  exact (gatherCells_ends inside).bind fun heads even =>
    And.intro rfl (even.trans (length_heads grouped.some))

theorem aggregateColumn_ends {groups : List (List Nat)} {name function column : String}
    (wf : t.WellFormed) (known : column ∈ t.names)
    (inside : ∀ group ∈ groups, ∀ i ∈ group, i < t.numRows) :
    Ends (aggregateColumn t groups (name, function, column))
      (fun col => col.name = name ∧ col.cells.length = groups.length) OfFormula := by
  refine (columnCells_ends known).bind fun cells found => ?_
  refine (Ends.mapM_length fun group mem => ?_).bind fun values even => And.intro rfl even
  have within : ∀ i ∈ group, i < cells.length := wf.length_cells found ▸ inside group mem
  exact (gatherCells_ends within).bind fun _ _ => aggregate_ends

theorem groupTable_ends {assignments : List (String × Formula)} {groupBy : List String}
    (wf : t.WellFormed) (known : ∀ a ∈ assignments, ∀ c ∈ a.2.columnList, c ∈ t.names)
    (groups_known : ∀ c ∈ groupBy, c ∈ t.names)
    (nodup : (groupBy ++ assignments.map (·.1)).Nodup) :
    Ends (groupTable t assignments groupBy) (fun _ => True) (OfStep (t.Tangled groupBy)) := by
  have called : ∀ a ∈ assignments, Ends (do .ok (a.1, ← aggregateCall a.2))
      (fun call => call.1 = a.1 ∧ call.2.2 ∈ t.names) OfFormula := fun a ha =>
    aggregateCall_ends.bind fun call read => And.intro rfl (known a ha call.2 read)
  refine (of_formula (Ends.mapM called)).bind fun calls calls_of => ?_
  refine (groupRows_ends wf groups_known fun tangled =>
    .inr ⟨rfl, tangled⟩).bind fun groups ⟨inside, grouped⟩ => ?_
  refine (Ends.mapM fun c mem => groupColumn_ends wf (groups_known c mem)
    (grouped (List.ne_nil_of_mem mem))).bind fun keys keys_of => ?_
  have aggregated : ∀ call ∈ calls, Ends (aggregateColumn t groups call)
      (fun col => col.name = call.1 ∧ col.cells.length = groups.length) OfFormula :=
    fun call mem => by
      obtain ⟨_, -, -, there⟩ := exists_of_forall₂ calls_of mem
      exact aggregateColumn_ends wf there inside
  refine (of_formula (Ends.mapM aggregated)).bind fun results results_of => ?_
  refine ofColumns_ends (n := groups.length) ?_ fun col mem => ?_
  · rw [List.map_append, map_eq_of_forall₂ (keys_of.imp fun _ _ h => h.1),
      map_eq_map_of_forall₂ (results_of.imp fun _ _ h => h.1),
      map_eq_map_of_forall₂ (calls_of.imp fun _ _ h => h.1)]
    exact nodup
  · rcases List.mem_append.1 mem with key | result
    · obtain ⟨_, -, -, even⟩ := exists_of_forall₂ keys_of key
      exact even
    · obtain ⟨_, -, -, even⟩ := exists_of_forall₂ results_of result
      exact even

/-- A join of well-formed tables on columns of both fails only if the sort of its right side
stops. -/
theorem joinTables_ends {bad : EvalError → Prop} {keys : List String} {type : JoinType}
    (wfl : left.WellFormed) (wfr : right.WellFormed) (knownl : ∀ c ∈ keys, c ∈ left.names)
    (knownr : ∀ c ∈ keys, c ∈ right.names) (nodup : columns.Nodup)
    (stops : right.Tangled keys → bad .unsortable) :
    Ends (joinTables left right columns keys type) (fun _ => True) bad := by
  refine (pairings_ends wfl wfr knownl knownr stops).bind fun rows inside => ?_
  have joined : ∀ c ∈ columns, Ends (joinedColumn left right rows c)
      (fun col => col.name = c ∧ col.cells.length = rows.length) bad := fun c _ =>
    (joinedColumn_ends wfl wfr inside).of_ok fun _ => joinedColumn_name
  refine (Ends.mapM joined).bind fun made each => ?_
  refine ofColumns_ends (n := rows.length) ?_ fun col mem => ?_
  · rwa [map_eq_of_forall₂ (each.imp fun _ _ h => h.1)]
  · obtain ⟨_, -, -, even⟩ := exists_of_forall₂ each mem
    exact even

end TableFlow.Eval
