import TableFlow.Proofs.Demand
import TableFlow.Proofs.Eval.Refusals

/-!
# How a run may end

A run of a built pipeline over well-formed tables gives a table of the pipeline's columns, or it
is refused (`Refused`): a table is not bound, or lacks columns of its description, or a formula
does not fit the cells it is evaluated on. A third end is left only where the run sorts more than
twenty rows by a column with a double that is equal to two of its integers (`SortsTangled`): then
the sort may stop without a result. So runs end in one of the two ways just where the columns that
they sort by have no such double (`run_ends_iff`).
-/

namespace TableFlow

open Pipeline Table

/-- The sorts of a run: pipelines whose tables are sorted, each with the columns to sort by. -/
def Pipeline.sorts : Pipeline → List (Pipeline × List String)
  | .table _ => []
  | .extension source assignments window =>
    if assignments.any (·.2.isWindowCall) then
      (source, window.partitionBy ++ window.orderBy) :: source.sorts
    else source.sorts
  | .filter source _ | .selection source _ | .removal source _ | .relabeling source _ =>
    source.sorts
  | .grouping source _ groupBy => (source, groupBy) :: source.sorts
  | .ordering source order => (source, order.orderBy) :: source.sorts
  | .join left right keys _ => (right, keys) :: (left.sorts ++ right.sorts)

namespace Eval

/-- How a run of a pipeline may fail: a table that it reads is not bound, or lacks columns of
its description, or a formula or an aggregate does not fit the cells. -/
inductive Refused (bindings : NameMap Table) (p : Pipeline) : EvalError → Prop where
  | unbound {ref : TableRef} : ref ∈ p.leaves → bindings.get? ref.key = none →
      Refused bindings p (.missingTable ref.key)
  | lacking {ref : TableRef} {bound : Table} {names : List String} : ref ∈ p.leaves →
      bindings.get? ref.key = some bound → names ≠ [] →
      (∀ c, c ∈ names ↔ c ∈ ref.columns ∧ c ∉ bound.names) →
      Refused bindings p (.missingColumns ref.key names)
  | formula {e : EvalError} : OfFormula e → Refused bindings p e

def SortsTangled (bindings : NameMap Table) (p : Pipeline) : Prop :=
  ∃ sort ∈ p.sorts, ∃ t, run bindings sort.1 = .ok t ∧ t.Tangled sort.2

/-- A run sorts by values of a set only. -/
def SortsWithin (S : Set Value) (bindings : NameMap Table) (p : Pipeline) : Prop :=
  ∀ sort ∈ p.sorts, ∀ t, run bindings sort.1 = .ok t → ∀ c ∈ sort.2, ∀ v ∈ t.cellsOf c, v ∈ S

/-- A run is refused, or a sort in it stops. -/
def Fails (bindings : NameMap Table) (p : Pipeline) (e : EvalError) : Prop :=
  Refused bindings p e ∨ e = .unsortable ∧ SortsTangled bindings p

variable {bindings : NameMap Table} {source p q : Pipeline} {e : EvalError}

theorem Refused.mono (h : Refused bindings p e) (sub : ∀ ref ∈ p.leaves, ref ∈ q.leaves) :
    Refused bindings q e := by
  cases h with
  | unbound mem none => exact .unbound (sub _ mem) none
  | lacking mem found some exact_names => exact .lacking (sub _ mem) found some exact_names
  | formula h => exact .formula h

theorem Fails.mono (h : Fails bindings p e) (leaves : ∀ ref ∈ p.leaves, ref ∈ q.leaves)
    (sorts : ∀ sort ∈ p.sorts, sort ∈ q.sorts) : Fails bindings q e :=
  h.imp (·.mono leaves) fun ⟨stopped, sort, mem, tangled⟩ =>
    ⟨stopped, sort, sorts sort mem, tangled⟩

/-- Values of a set with no double that is equal to two integers are not tangled. -/
theorem SortsWithin.not_tangled {S : Set Value} (within : SortsWithin S bindings p)
    (clear : ¬Value.Blurred S) : ¬SortsTangled bindings p := by
  rintro ⟨sort, mem, t, runs, -, c, key, blurred⟩
  exact clear (blurred.mono fun v cell => within sort mem t runs c key v cell)

/-! ## Steps -/

theorem bind_ends {ref : TableRef} (nodup : ref.columns.Nodup)
    (wf : ∀ key t, bindings.get? key = some t → t.WellFormed) :
    Ends (Eval.bind ref bindings) (fun _ => True) (Fails bindings (.table ref)) := by
  have leaf : ref ∈ (Pipeline.table ref).leaves := List.mem_singleton.2 rfl
  unfold Eval.bind
  split
  · rename_i none
    exact .inl (.unbound leaf none)
  · rename_i bound found
    split
    · rename_i missing
      refine select_ends (wf _ bound found) nodup fun c mem => ?_
      by_contra absent
      exact List.filter_eq_nil_iff.1 missing c mem (column?_isNone.2 absent)
    · rename_i some
      refine .inl (.lacking leaf found some fun c => ?_)
      rw [List.mem_filter, column?_isNone]

/-- What a run of a source gives to a pipeline over it. -/
theorem source_ends (built : source.Built)
    (h : Ends (run bindings source) (fun _ => True) (Fails bindings source))
    (leaves : ∀ ref ∈ source.leaves, ref ∈ p.leaves)
    (sorts : ∀ sort ∈ source.sorts, sort ∈ p.sorts) :
    Ends (run bindings source)
      (fun t => run bindings source = .ok t ∧ t.WellFormed ∧ t.names = source.columns)
      (Fails bindings p) :=
  (h.of_ok fun _ runs => And.intro runs (run_schema built runs)).mono (fun _ => id)
    fun _ fails => fails.mono leaves sorts

/-- A step over one source works on a table of the source's columns. -/
theorem over_source {f : Table → Except EvalError Table} (built : source.Built)
    (h : Ends (run bindings source) (fun _ => True) (Fails bindings source))
    (leaves : p.leaves = source.leaves) (sorts : ∀ sort ∈ source.sorts, sort ∈ p.sorts)
    (step : run bindings p = run bindings source >>= f)
    (each : ∀ t, run bindings source = .ok t → t.WellFormed → t.names = source.columns →
      Ends (f t) (fun _ => True) (Fails bindings p)) :
    Ends (run bindings p) (fun _ => True) (Fails bindings p) := by
  rw [step]
  exact (source_ends built h (fun ref mem => leaves ▸ mem) sorts).bind
    fun t ⟨runs, wf, names⟩ => each t runs wf names

theorem of_step {x : Except EvalError Table} {stops : Prop}
    (h : Ends x (fun _ => True) (OfStep stops)) (tangled : stops → SortsTangled bindings p) :
    Ends x (fun _ => True) (Fails bindings p) :=
  h.mono (fun _ => id) fun _ => Or.imp .formula (And.imp_right tangled)

/-! ## Runs -/

/-- A run of a built pipeline over well-formed tables gives a well-formed table of the
pipeline's columns, or is refused, or a sort in it stops. -/
theorem run_ends (built : p.Built) (wf : ∀ key t, bindings.get? key = some t → t.WellFormed) :
    Ends (run bindings p) (fun r => r.WellFormed ∧ r.names = p.columns) (Fails bindings p) := by
  suffices ends : Ends (run bindings p) (fun _ => True) (Fails bindings p) from
    ends.of_ok fun _ => run_schema built
  induction built with
  | table made =>
    obtain ⟨-, -, nodup, rfl⟩ := TableRef.of_eq_ok.1 made
    exact bind_ends nodup wf
  | @extend source p assignments window built made ih =>
    have nodup := (Built.extend built made).columns_nodup
    obtain ⟨fits, rfl⟩ := extend_eq_ok.1 made
    refine over_source built ih rfl (fun sort mem => ?_) rfl fun t runs wft names =>
      of_step (extendTable_ends wft (names ▸ built.columns_ne_nil) ?_ ?_ nodup ?_) ?_
    · unfold sorts
      split
      · exact List.mem_cons_of_mem _ mem
      · exact mem
    · intro a ha c read
      exact names ▸ fits.known c (Formula.mem_columnsOfAll.2 ⟨a, ha, Formula.mem_columns.2 read⟩)
    · intro c mem
      rcases List.mem_append.1 mem with partition | order
      · exact names ▸ fits.placed.partition_known c partition
      · exact names ▸ fits.placed.order_known c order
    · exact fun c mem => names ▸ mem_withMissing.1 mem
    · rintro ⟨call, tangled⟩
      refine ⟨(source, window.partitionBy ++ window.orderBy), ?_, t, runs, tangled⟩
      rw [sorts, if_pos (List.any_eq_true.2 call)]
      exact List.mem_cons_self ..
  | selectRows built made ih =>
    obtain ⟨known, rfl⟩ := selectRows_eq_ok.1 made
    refine over_source built ih rfl (fun _ => id) rfl fun t _ wft names => ?_
    exact (filterTable_ends wft fun c read => names ▸ known c (Formula.mem_columns.2 read)).mono
      (fun _ => id) fun _ refused => .inl (.formula refused)
  | selectColumns built made ih =>
    obtain ⟨-, nodup, known, rfl⟩ := selectColumns_eq_ok.1 made
    refine over_source built ih rfl (fun _ => id) rfl fun t _ wft names => ?_
    exact select_ends wft nodup fun c mem => names ▸ known c mem
  | dropColumns built made ih =>
    obtain ⟨-, -, -, -, rfl⟩ := dropColumns_eq_ok.1 made
    exact over_source built ih rfl (fun _ => id) rfl fun _ _ _ _ => trivial
  | project built made ih =>
    obtain ⟨fits, rfl⟩ := project_eq_ok.1 made
    refine over_source built ih rfl (fun _ => List.mem_cons_of_mem _) rfl fun t runs wft names =>
      of_step (groupTable_ends wft ?_ (fun c mem => names ▸ fits.groups_known c mem) fits.nodup)
        fun tangled => ⟨_, List.mem_cons_self .., t, runs, tangled⟩
    intro a ha c read
    exact names ▸ fits.known c (Formula.mem_columnsOfAll.2 ⟨a, ha, Formula.mem_columns.2 read⟩)
  | orderRows built made ih =>
    obtain ⟨fits, rfl⟩ := orderRows_eq_ok.1 made
    exact over_source built ih rfl (fun _ => List.mem_cons_of_mem _) rfl fun t runs wft names =>
      of_step (orderTable_ends wft fun c mem => names ▸ fits.known c mem)
        fun tangled => ⟨_, List.mem_cons_self .., t, runs, tangled⟩
  | renameColumns built made ih =>
    have nodup := (Built.renameColumns built made).columns_nodup
    obtain ⟨fits, rfl⟩ := renameColumns_eq_ok.1 made
    refine over_source built ih rfl (fun _ => id) rfl fun t _ wft names => ?_
    exact relabelTable_ends wft nodup fun c mem => names ▸ fits.oldName_known mem
  | naturalJoin builtl builtr made ihl ihr =>
    have nodup := (Built.naturalJoin builtl builtr made).columns_nodup
    obtain ⟨fits, rfl⟩ := naturalJoin_eq_ok.1 made
    refine (source_ends builtl ihl (fun _ => List.mem_append_right _) ?_).bind
      fun l ⟨_, wfl, namesl⟩ => ?_
    · exact fun _ mem => List.mem_cons_of_mem _ (List.mem_append_left _ mem)
    refine (source_ends builtr ihr (fun _ => List.mem_append_left _) ?_).bind
      fun r ⟨runs, wfr, namesr⟩ => ?_
    · exact fun _ mem => List.mem_cons_of_mem _ (List.mem_append_right _ mem)
    exact joinTables_ends wfl wfr (fun c mem => namesl ▸ fits.left_known c mem)
      (fun c mem => namesr ▸ fits.right_known c mem) nodup
      fun tangled => .inr ⟨rfl, _, List.mem_cons_self .., r, runs, tangled⟩

/-! ## Sorts that stop -/

/-- The rows of a table of one column in order. -/
def inOrder : Pipeline := .ordering (.table ⟨"d", .empty, ["x"]⟩) ⟨["x"], [], none⟩

def bindCells (cells : List Value) : NameMap Table := .ofList [("d", columnTable "x" cells)]

theorem inOrder_built : inOrder.Built := by
  have table : TableRef.of "d" ["x"] .empty = .ok ⟨"d", .empty, ["x"]⟩ := by decide
  have node : (Pipeline.table ⟨"d", .empty, ["x"]⟩).orderRows ⟨["x"], [], none⟩ = .ok inOrder :=
    rfl
  exact .orderRows (.table table) node

variable {cells : List Value}

theorem get?_bindCells {key : String} :
    (bindCells cells).get? key = if key = "d" then some (columnTable "x" cells) else none :=
  NameMap.get?_insert

theorem bindCells_wf : ∀ key t, (bindCells cells).get? key = some t → t.WellFormed := by
  intro key t h
  rw [get?_bindCells] at h
  split at h
  · exact Option.some.inj h ▸ columnTable_wf
  · cases h

theorem run_column : run (bindCells cells) (.table ⟨"d", .empty, ["x"]⟩) =
    .ok (columnTable "x" cells) :=
  lift_eq_ok.2 (ofColumns_eq_ok.2 ⟨columnTable_wf, rfl⟩)

theorem sortsWithin_inOrder {S : Set Value} (within : ∀ v ∈ cells, v ∈ S) :
    SortsWithin S (bindCells cells) inOrder := by
  intro sort mem t runs c key v cell
  obtain rfl := List.mem_singleton.1 mem
  obtain rfl := List.mem_singleton.1 key
  obtain rfl := Except.ok.inj (run_column.symm.trans runs)
  rw [cellsOf_columnTable] at cell
  exact within v cell

/-- Rows are not put in order if two integers that are equal to one double come in the order of
`unsortable`. -/
theorem run_unsortable {i j : Int64} {x : Float} (less : i.toInt < j.toInt)
    (low : Number.ofInt64 i = x) (high : Number.ofInt64 j = x) :
    run (bindCells (unsortable.map ![.int i, .float x, .int j])) inOrder = .error .unsortable := by
  have stopped : sortPositions (columnTable "x" (unsortable.map ![.int i, .float x, .int j])) ["x"]
      [] = .error .unsortable :=
    sortPositions_unsortable columnTable_wf mem_columnTable cellsOf_columnTable
      (Value.sortCompare_blurred less low high)
  rw [inOrder, run, run_column]
  show orderTable _ _ = _
  rw [orderTable, stopped]
  rfl

/-- A run of a built pipeline over well-formed tables gives a well-formed table of the pipeline's
columns or is refused, or else one of its sorts has tangled keys and stops. The third end is left
out just for sorts by values that have no double equal to two integers. -/
theorem run_ends_iff (S : Set Value) :
    (∀ bindings (p : Pipeline), p.Built → (∀ key t, bindings.get? key = some t → t.WellFormed) →
      Ends (run bindings p) (fun r => r.WellFormed ∧ r.names = p.columns) fun e =>
        Refused bindings p e ∨ e = .unsortable ∧ SortsTangled bindings p) ∧
    ((∀ bindings (p : Pipeline), p.Built →
      (∀ key t, bindings.get? key = some t → t.WellFormed) → SortsWithin S bindings p →
      Ends (run bindings p) (fun r => r.WellFormed ∧ r.names = p.columns) (Refused bindings p)) ↔
    ¬Value.Blurred S) := by
  refine ⟨fun bindings p => run_ends, fun ends blurred => ?_, ?_⟩
  · obtain ⟨i, j, x, mi, mj, mx, less, low, high⟩ := blurred.exists_lt
    have inside : ∀ v ∈ unsortable.map ![.int i, .float x, .int j], v ∈ S := by
      intro v mem
      obtain ⟨a, -, rfl⟩ := List.mem_map.1 mem
      match a with
      | 0 => exact mi
      | 1 => exact mx
      | 2 => exact mj
    have refused := (ends _ _ inOrder_built bindCells_wf (sortsWithin_inOrder inside)).of_eq_error
      (run_unsortable less low high)
    cases refused with
    | formula h => exact h
  · intro clear bindings p built wf within
    exact (run_ends built wf).mono (fun _ => id) fun e fails =>
      fails.resolve_right fun stopped => within.not_tangled clear stopped.2

/-- Rows without a key pair with nothing, and `x` is taken from the right where it is null; the
right rows are sorted by an integer and a null. -/
theorem run_ends_join :
    let d := Pipeline.table ⟨"d", .empty, ["k", "x"]⟩
    let p := Pipeline.removal
      (.join d (.filter d (.binary ">" (.column "x") (.constant (.int 1)))) ["k"] .left) ["k"]
    let bindings := NameMap.ofList [("d",
      Table.mk [⟨"x", [.null, .int 2, .int 3]⟩, ⟨"k", [.int 7, .int 7, .null]⟩])]
    run bindings p = .ok ⟨[⟨"x", [.int 2, .int 2, .int 3]⟩]⟩ ∧
      ¬Value.Blurred {.int 7, .null} ∧ SortsWithin {.int 7, .null} bindings p ∧
      Ends (run bindings p) (fun r => r.WellFormed ∧ r.names = p.columns)
        (Refused bindings p) := by
  intro d p bindings
  have table : TableRef.of "d" ["k", "x"] .empty = .ok ⟨"d", .empty, ["k", "x"]⟩ := by decide
  have d_built : d.Built := .table table
  have filtered : d.selectRows (.binary ">" (.column "x") (.constant (.int 1))) =
    .ok (.filter d (.binary ">" (.column "x") (.constant (.int 1)))) := rfl
  have joined : d.naturalJoin (.filter d (.binary ">" (.column "x") (.constant (.int 1)))) ["k"]
      .left =
    .ok (.join d (.filter d (.binary ">" (.column "x") (.constant (.int 1)))) ["k"] .left) := rfl
  have dropped : (Pipeline.join d (.filter d (.binary ">" (.column "x") (.constant (.int 1))))
    ["k"] .left).dropColumns ["k"] = .ok p := rfl
  have built : p.Built :=
    .dropColumns (.naturalJoin d_built (.selectRows d_built filtered) joined) dropped
  have wf : ∀ key t, bindings.get? key = some t → t.WellFormed := by
    intro key t h
    have entry : bindings.get? key = if key = "d" then some _ else none := NameMap.get?_insert
    rw [entry] at h
    split at h
    · obtain rfl := Option.some.inj h
      exact ⟨by simp [Table.names], by simp [Table.numRows]⟩
    · cases h
  have clear : ¬Value.Blurred {.int 7, .null} := by
    rintro ⟨i, j, -, -, -, -, mx⟩
    simp at mx
  have right : run bindings (.filter d (.binary ">" (.column "x") (.constant (.int 1)))) =
      .ok ⟨[⟨"k", [.int 7, .null]⟩, ⟨"x", [.int 2, .int 3]⟩]⟩ := by decide +kernel
  have within : SortsWithin {.int 7, .null} bindings p := by
    intro sort mem t runs c key v cell
    obtain rfl := List.mem_singleton.1 mem
    obtain rfl := List.mem_singleton.1 key
    obtain rfl := Except.ok.inj (right.symm.trans runs)
    simpa [cellsOf, cells?, column?] using cell
  exact ⟨by decide +kernel, clear, within,
    (run_ends_iff {.int 7, .null}).2.2 clear bindings p built wf within⟩

/-- The rows of a column of two integers and the double that both are equal to are not put in
order: the run neither gives a table nor is refused. -/
theorem run_stops :
    let cells : List Value := unsortable.map
      ![.int 9007199254740992, .float 9007199254740992.0, .int 9007199254740993]
    inOrder.Built ∧ (∀ key t, (bindCells cells).get? key = some t → t.WellFormed) ∧
      run (bindCells cells) inOrder = .error .unsortable ∧
      ¬Refused (bindCells cells) inOrder .unsortable := by
  intro cells
  refine ⟨inOrder_built, bindCells_wf, run_unsortable (by decide) (by decide) (by decide), ?_⟩
  rintro ⟨⟩
  assumption

end Eval

end TableFlow
