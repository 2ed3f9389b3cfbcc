import TableFlow.Proofs.Eval.Positions
import TableFlow.Proofs.Eval.Steps
import TableFlow.Proofs.Formula.Columns

/-!
# Groups of equal keys

An arrangement by rising keys is cut into runs of equal keys. Rows of one key stand together
there, so a run holds all rows of its key (`runs_sorted`), and the stable sort has kept them in
the order of the table. A grouping therefore gives out one row for each key, with the aggregates
of exactly the rows that have it (`run_project`).
-/

namespace TableFlow.Eval

open Table

/-! ## Runs of a sorted arrangement -/

section

variable {cmp : Nat → Nat → Ordering} {key : Nat → List Value} {positions heads : List Nat}
  {i j : Nat}

/-- The positions that are equal to a position. -/
def alike (cmp : Nat → Nat → Ordering) (positions : List Nat) (i : Nat) : List Nat :=
  positions.filter (cmp · i == .eq)

theorem mem_alike : j ∈ alike cmp positions i ↔ j ∈ positions ∧ cmp j i = .eq := by
  simp [alike]

/-- The first of all positions that are equal to each other, in rising order. -/
structure RunHeads (cmp : Nat → Nat → Ordering) (positions heads : List Nat) : Prop where
  rising : heads.Pairwise fun i j => cmp i j = .lt
  first : ∀ i ∈ heads, (alike cmp positions i).head? = some i
  covers : ∀ i ∈ positions, ∃ j ∈ heads, cmp i j = .eq

theorem RunHeads.mem (found : RunHeads cmp positions heads) (h : i ∈ heads) : i ∈ positions :=
  (mem_alike.1 (List.mem_of_head? (found.first i h))).1

variable [Std.TransCmp cmp]

/-- The positions equal to the first one of a sorted arrangement stand before all others. -/
theorem splitRun_sorted (agrees : ∀ i j, sameKey (key i) (key j) = true ↔ cmp i j = .eq)
    (sorted : (i :: positions).Pairwise fun i j => (cmp i j).isLE = true) :
    splitRun (key i) (positions.map fun j => (j, key j)) =
      (alike cmp positions i,
        (positions.filter (cmp · i != .eq)).map fun j => (j, key j)) := by
  induction positions with
  | nil => rfl
  | cons j rest ih =>
    obtain ⟨first, later⟩ := List.pairwise_cons.1 sorted
    obtain ⟨next, rest'⟩ := List.pairwise_cons.1 later
    rw [List.map_cons, splitRun]
    by_cases same : cmp j i = .eq
    · have shorter : (i :: rest).Pairwise fun i j => (cmp i j).isLE = true :=
        List.pairwise_cons.2 ⟨fun k mem => first k (List.mem_cons_of_mem _ mem), rest'⟩
      rw [if_pos ((agrees j i).2 same), ih shorter]
      simp [alike, same]
    · have above : ∀ k ∈ j :: rest, cmp k i ≠ .eq := by
        intro k mem equal
        have le : (cmp j k).isLE = true := by
          obtain rfl | mem := List.mem_cons.1 mem
          · exact Std.ReflCmp.isLE_rfl
          · exact next k mem
        have back : (cmp j i).isLE = true := by
          rwa [← Std.TransCmp.congr_right equal]
        exact same (Std.OrientedCmp.isLE_antisymm back (first j (List.mem_cons_self ..)))
      rw [if_neg (mt (agrees j i).1 same)]
      have none : alike cmp (j :: rest) i = [] :=
        List.filter_eq_nil_iff.2 fun k mem => by simpa using above k mem
      have all : (j :: rest).filter (cmp · i != .eq) = j :: rest :=
        List.filter_eq_self.2 fun k mem => by simpa using above k mem
      rw [none, all, List.map_cons]

theorem alike_cons_self : alike cmp (i :: positions) i = i :: alike cmp positions i :=
  List.filter_cons_of_pos (by simp [Std.ReflCmp.compare_self])

/-- What is equal to a greater position is left when the positions equal to the first one are
taken away. -/
theorem alike_cons_of_lt (below : cmp i j = .lt) :
    alike cmp (i :: positions) j = alike cmp (positions.filter (cmp · i != .eq)) j := by
  have apart : ∀ k, cmp k j = .eq → cmp k i ≠ .eq := by
    intro k same equal
    rw [← Std.TransCmp.congr_left equal, same] at below
    cases below
  rw [alike, alike, List.filter_filter, List.filter_cons_of_neg (by simp [below])]
  refine List.filter_congr fun k _ => ?_
  by_cases same : cmp k j = .eq
  · simp [same, apart k same]
  · simp [same]

/-- A least position and the first ones of all keys that are left. -/
theorem RunHeads.cons (found : RunHeads cmp (positions.filter (cmp · i != .eq)) heads)
    (below : ∀ j ∈ heads, cmp i j = .lt) : RunHeads cmp (i :: positions) (i :: heads) where
  rising := List.pairwise_cons.2 ⟨below, found.rising⟩
  first := by
    intro j mem
    obtain rfl | mem := List.mem_cons.1 mem
    · rw [alike_cons_self, List.head?_cons]
    · rw [alike_cons_of_lt (below j mem), found.first j mem]
  covers := by
    intro j mem
    by_cases same : cmp j i = .eq
    · exact ⟨i, List.mem_cons_self .., same⟩
    · obtain rfl | mem := List.mem_cons.1 mem
      · exact absurd Std.ReflCmp.compare_self same
      · obtain ⟨k, head, equal⟩ := found.covers j (List.mem_filter.2 ⟨mem, by simpa using same⟩)
        exact ⟨k, List.mem_cons_of_mem _ head, equal⟩

/-- A sorted arrangement is cut into all positions of each key. -/
theorem runs_sorted (agrees : ∀ i j, sameKey (key i) (key j) = true ↔ cmp i j = .eq)
    (sorted : positions.Pairwise fun i j => (cmp i j).isLE = true) :
    ∃ heads, RunHeads cmp positions heads ∧
      runs (positions.map fun i => (i, key i)) = heads.map (alike cmp positions) := by
  -- what is left behind a run is shorter, though it is no tail of the arrangement
  induction size : positions.length using Nat.strong_induction_on generalizing positions with
  | _ n ih =>
    subst size
    cases positions with
    | nil => exact ⟨[], ⟨.nil, by simp, by simp⟩, by rw [List.map_nil, runs, List.map_nil]⟩
    | cons i rest =>
      obtain ⟨first, later⟩ := List.pairwise_cons.1 sorted
      obtain ⟨heads, found, cut⟩ := ih (rest.filter (cmp · i != .eq)).length
        (Nat.lt_succ_of_le (List.length_filter_le ..)) (later.filter _) rfl
      have below : ∀ j ∈ heads, cmp i j = .lt := by
        intro j mem
        obtain ⟨mem', other⟩ := List.mem_filter.1 (found.mem mem)
        have le := first j mem'
        cases outcome : cmp i j with
        | lt => rfl
        | eq => simp [Std.OrientedCmp.eq_comm.1 outcome] at other
        | gt => rw [outcome] at le; cases le
      refine ⟨i :: heads, found.cons below, ?_⟩
      rw [List.map_cons, runs, splitRun_sorted agrees sorted, cut, List.map_cons, alike_cons_self,
        List.map_congr_left fun j mem => alike_cons_of_lt (below j mem)]

end

/-! ## Groups of rows -/

variable {t r : Table} {groupBy : List String} {heads : List Nat}

/-- The first row of each key, by rising keys; without columns one row stands for all, even if
there are none. -/
structure FirstRows (t : Table) (groupBy : List String) (heads : List Nat) : Prop where
  whole : groupBy = [] → heads = [0]
  firsts : groupBy ≠ [] → ∀ i, i ∈ heads ↔ i < t.numRows ∧ ∀ j < i, ¬t.SameKey groupBy j i
  rising : heads.Pairwise fun i j =>
    Value.compareRows (t.key groupBy i) (t.key groupBy j) = .lt

theorem alike_range {reverse : List String} {i : Nat} :
    (List.range t.numRows).filter (t.compareBy groupBy reverse · i == .eq) =
      t.rowsLike groupBy i := by
  refine List.filter_congr fun j _ => ?_
  rw [Bool.eq_iff_iff, beq_iff_eq, compareBy_eq_eq, decide_eq_true_iff]

theorem head?_rowsLike {i j : Nat} : (t.rowsLike groupBy i).head? = some j ↔
    t.SameKey groupBy j i ∧ j < t.numRows ∧ ∀ k < j, ¬t.SameKey groupBy k i := by
  rw [rowsLike, List.head?_filter, List.find?_range_eq_some]
  simp

/-- The sort has kept the rows of one key in their order. -/
theorem alike_sortStable {i : Nat} [Std.TransCmp (t.compareBy groupBy [])] :
    alike (t.compareBy groupBy [])
        (sortStable (fun i j => t.compareBy groupBy [] i j == .lt) (List.range t.numRows)) i =
      t.rowsLike groupBy i := by
  have level : ∀ j k, (t.compareBy groupBy [] j i == .eq) = true →
      (t.compareBy groupBy [] k i == .eq) = true →
      (t.compareBy groupBy [] j k == .lt) = false := by
    intro j k first second
    rw [beq_iff_eq] at first second
    rw [Std.TransCmp.congr_left first, Std.OrientedCmp.eq_comm.1 second]
    rfl
  rw [alike, filter_sortStable level, alike_range]

/-- The heads of the runs are the first rows of their keys. -/
theorem RunHeads.firstRows {order : List Nat} [Std.TransCmp (t.compareBy groupBy [])]
    (found : RunHeads (t.compareBy groupBy []) order heads) (some : groupBy ≠ [])
    (perm : order.Perm (List.range t.numRows))
    (kept : ∀ i, alike (t.compareBy groupBy []) order i = t.rowsLike groupBy i) :
    FirstRows t groupBy heads where
  whole none := absurd none some
  firsts _ i := by
    have isFirst : ∀ h ∈ heads, h < t.numRows ∧ ∀ j < h, ¬t.SameKey groupBy j h := fun h mem =>
      (head?_rowsLike.1 (kept h ▸ found.first h mem)).2
    constructor
    · exact isFirst i
    · rintro ⟨row, first⟩
      obtain ⟨h, mem, equal⟩ := found.covers i (perm.mem_iff.2 (List.mem_range.2 row))
      have le : h ≤ i := Nat.not_lt.1 fun lt => (isFirst h mem).2 i lt (compareBy_eq_eq.1 equal)
      have ge : i ≤ h := Nat.not_lt.1 fun lt =>
        first h lt (compareBy_eq_eq.1 (Std.OrientedCmp.eq_comm.1 equal))
      exact Nat.le_antisymm le ge ▸ mem
  rising := found.rising.imp fun below => compareBy_rising ▸ below

/-- Every row has the key of a first row. -/
theorem FirstRows.covers {i : Nat} (found : FirstRows t groupBy heads) (some : groupBy ≠ [])
    (clear : ∀ c ∈ groupBy, ¬Value.Blurred {v | v ∈ t.cellsOf c}) (row : i < t.numRows) :
    ∃ h ∈ heads, t.SameKey groupBy i h := by
  have here : i ∈ t.rowsLike groupBy i := mem_rowsLike.2 ⟨row, fun _ _ => Value.sortCompare_self _⟩
  obtain ⟨h, first⟩ : ∃ h, (t.rowsLike groupBy i).head? = .some h :=
    ⟨_, List.head?_eq_some_head (List.ne_nil_of_mem here)⟩
  obtain ⟨same, inside, none⟩ := head?_rowsLike.1 first
  have back : t.SameKey groupBy i h := fun c mem => Value.sortCompare_eq_comm.1 (same c mem)
  refine ⟨h, (found.firsts some h).2 ⟨inside, fun j before like => none j before ?_⟩, back⟩
  have mem : j ∈ t.rowsLike groupBy h := mem_rowsLike.2 ⟨before.trans inside, like⟩
  exact (mem_rowsLike.1 (rowsLike_congr clear same ▸ mem)).2

/-- Rows are put into groups of all rows with one key. -/
theorem groupRows_eq (wf : t.WellFormed) (known : ∀ c ∈ groupBy, c ∈ t.names)
    (clear : ∀ c ∈ groupBy, ¬Value.Blurred {v | v ∈ t.cellsOf c}) :
    ∃ heads, FirstRows t groupBy heads ∧
      groupRows t groupBy = .ok (heads.map (t.rowsLike groupBy)) := by
  by_cases none : groupBy = []
  · subst none
    refine ⟨[0], ⟨fun _ => rfl, fun some => absurd rfl some, List.pairwise_singleton _ _⟩, ?_⟩
    rw [List.map_singleton, rowsLike, List.filter_eq_self.2 (by simp [SameKey])]
    rfl
  have trans : Std.TransCmp (t.compareBy groupBy []) := transCmp_compareBy clear
  let order := sortStable (fun i j => t.compareBy groupBy [] i j == .lt) (List.range t.numRows)
  have perm : order.Perm (List.range t.numRows) := sortStable_perm
  have sorted : order.Pairwise (InOrder (t.compareBy groupBy []) (· < ·)) :=
    sortStable_pairwise List.pairwise_lt_range
  obtain ⟨heads, found, cut⟩ :=
    runs_sorted (fun _ _ => sameKey_key.trans compareBy_eq_eq.symm) (sorted.imp InOrder.isLE)
  refine ⟨heads, found.firstRows none perm fun _ => alike_sortStable, ?_⟩
  rw [groupRows, if_neg (by simpa using none), sortPositions_eq wf known]
  show groups t order groupBy = _
  rw [groups_eq wf known (inside_of_perm perm), cut]
  exact congrArg Except.ok (List.map_congr_left fun _ _ => alike_sortStable)

theorem rowsLike_inside {i : Nat} : ∀ j ∈ t.rowsLike groupBy i, j < t.numRows := fun _ mem =>
  (mem_rowsLike.1 mem).1

/-- A group column holds the cells of the first rows. -/
theorem groupColumn_eq {c : String} (wf : t.WellFormed) (known : c ∈ t.names)
    (found : FirstRows t groupBy heads) (some : groupBy ≠ []) :
    groupColumn t (heads.map (t.rowsLike groupBy)) c = .ok ⟨c, heads.map (t.cell c)⟩ := by
  have first : ∀ i ∈ heads, (t.rowsLike groupBy i).head? = Option.some i := by
    intro i mem
    obtain ⟨row, first⟩ := (found.firsts some i).1 mem
    exact head?_rowsLike.2 ⟨fun c _ => Value.sortCompare_self _, row, first⟩
  have heads_eq : (heads.map (t.rowsLike groupBy)).filterMap (·.head?) = heads := by
    rw [List.filterMap_map]
    exact (List.filterMap_congr first).trans List.filterMap_some
  have inside : ∀ i ∈ heads, i < t.numRows := fun i mem => ((found.firsts some i).1 mem).1
  rw [groupColumn, heads_eq, columnCells_eq known]
  show (gatherCells (t.cellsOf c) heads >>= _) = _
  rw [gatherCells_eq wf known inside]
  rfl

/-! ## Groupings -/

def aggregateAssignment (call : String × String × String) : String × Formula :=
  (call.1, .apply call.2.1 [.column call.2.2] .call)

/-- The aggregate of all rows with the key of a row. -/
def aggregateLike (t : Table) (groupBy : List String) (call : String × String × String) (i : Nat) :
    Except EvalError Value :=
  aggregate call.2.1 ((t.rowsLike groupBy i).map (t.cell call.2.2))

/-- A column of aggregates, one for each key. -/
def AggregatesOf (t : Table) (groupBy : List String) (heads : List Nat)
    (call : String × String × String) (col : Column) : Prop :=
  col.name = call.1 ∧
    List.Forall₂ (fun i v => aggregateLike t groupBy call i = .ok v) heads col.cells

theorem aggregateColumn_eq {call : String × String × String} (wf : t.WellFormed)
    (known : call.2.2 ∈ t.names) :
    aggregateColumn t (heads.map (t.rowsLike groupBy)) call =
      (heads.mapM (aggregateLike t groupBy call)).map fun cells => ⟨call.1, cells⟩ := by
  have each : (heads.map (t.rowsLike groupBy)).mapM (fun group => do
      aggregate call.2.1 (← gatherCells (t.cellsOf call.2.2) group)) =
      heads.mapM (aggregateLike t groupBy call) := by
    rw [List.mapM_map]
    refine mapM_congr fun i _ => ?_
    rw [Function.comp_apply, gatherCells_eq wf known rowsLike_inside]
    rfl
  rw [aggregateColumn, columnCells_eq known]
  show ((heads.map (t.rowsLike groupBy)).mapM (fun group => do
    aggregate call.2.1 (← gatherCells (t.cellsOf call.2.2) group)) >>= _) = _
  rw [each]
  cases heads.mapM (aggregateLike t groupBy call) <;> rfl

def aggregateColumns (t : Table) (groupBy : List String) (heads : List Nat)
    (calls : List (String × String × String)) : Except EvalError (List Column) :=
  calls.mapM fun call =>
    (heads.mapM (aggregateLike t groupBy call)).map fun cells => ⟨call.1, cells⟩

variable {calls : List (String × String × String)} {results : List Column}

theorem aggregateColumns_eq_ok :
    aggregateColumns t groupBy heads calls = .ok results ↔
      List.Forall₂ (AggregatesOf t groupBy heads) calls results := by
  have column : ∀ call (col : Column), (heads.mapM (aggregateLike t groupBy call)).map
      (fun cells => (⟨call.1, cells⟩ : Column)) = .ok col ↔
        AggregatesOf t groupBy heads call col := by
    intro call col
    rw [map_eq_ok, AggregatesOf, ← mapM_eq_ok]
    constructor
    · rintro ⟨cells, each, rfl⟩
      exact ⟨rfl, each⟩
    · rintro ⟨name, each⟩
      exact ⟨col.cells, each, by rw [← name]⟩
  rw [aggregateColumns, mapM_eq_ok]
  simp only [column]

theorem aggregateColumns_eq_error :
    (∃ e, aggregateColumns t groupBy heads calls = .error e) ↔
      ∃ call ∈ calls, ∃ i ∈ heads, ∃ e, aggregateLike t groupBy call i = .error e := by
  rw [aggregateColumns, mapM_eq_error]
  simp only [map_eq_error, mapM_eq_error]

/-- The group columns hold the cells of the first rows, and the others the aggregates of all
rows with their keys. -/
theorem groupTable_eq (wf : t.WellFormed) (known : ∀ c ∈ groupBy, c ∈ t.names)
    (read : ∀ call ∈ calls, call.2.2 ∈ t.names)
    (nodup : (groupBy ++ calls.map (·.1)).Nodup)
    (unmixed : ∀ c ∈ groupBy, Value.Unmixed (t.cellsOf c)) :
    ∃ heads, FirstRows t groupBy heads ∧
      groupTable t (calls.map aggregateAssignment) groupBy =
        (aggregateColumns t groupBy heads calls).map fun results =>
          ⟨groupBy.map (fun c => ⟨c, heads.map (t.cell c)⟩) ++ results⟩ := by
  obtain ⟨heads, found, cut⟩ := groupRows_eq wf known fun c mem => (unmixed c mem).not_blurred
  refine ⟨heads, found, ?_⟩
  have called : (calls.map aggregateAssignment).mapM
      (fun a => do Except.ok (a.1, ← aggregateCall a.2)) = .ok calls :=
    mapM_eq_ok.2 (List.forall₂_map_left_iff.2 (List.forall₂_same.2 fun _ _ => rfl))
  have keys : groupBy.mapM (groupColumn t (heads.map (t.rowsLike groupBy))) =
      .ok (groupBy.map fun c => ⟨c, heads.map (t.cell c)⟩) :=
    mapM_eq_map fun c mem =>
      groupColumn_eq wf (known c mem) found (List.ne_nil_of_mem mem)
  have aggregated : calls.mapM (aggregateColumn t (heads.map (t.rowsLike groupBy))) =
      aggregateColumns t groupBy heads calls :=
    mapM_congr fun call mem => aggregateColumn_eq wf (read call mem)
  rw [groupTable]
  show ((calls.map aggregateAssignment).mapM
    (fun a => do Except.ok (a.1, ← aggregateCall a.2)) >>= _) = _
  rw [called]
  show (groupRows t groupBy >>= _) = _
  rw [cut]
  show (groupBy.mapM (groupColumn t _) >>= _) = _
  rw [keys]
  show (calls.mapM (aggregateColumn t _) >>= _) = _
  rw [aggregated]
  cases made : aggregateColumns t groupBy heads calls with
  | error e => rfl
  | ok results =>
    have each := aggregateColumns_eq_ok.1 made
    have names : results.map (·.name) = calls.map (·.1) :=
      map_eq_map_of_forall₂ (each.imp fun _ _ h => h.1)
    refine lift_eq_ok.2 (ofColumns_eq_ok.2 ⟨wellFormed_of (n := heads.length) ?_ ?_, rfl⟩)
    · rw [Table.names, List.map_append, List.map_map, names]
      have columns : groupBy.map ((·.name) ∘ fun c => (⟨c, heads.map (t.cell c)⟩ : Column)) =
          groupBy := List.map_id' _
      rwa [columns]
    · intro col mem
      obtain mem | mem := List.mem_append.1 mem
      · obtain ⟨c, -, rfl⟩ := List.mem_map.1 mem
        exact List.length_map _
      · obtain ⟨_, -, -, cells⟩ := exists_of_forall₂ each mem
        exact cells.length_eq.symm

/-- A grouping gives out one row for each key, by rising keys: the cells of the first row that
has it and the aggregates of exactly the rows that have it. It fails if one of these does. -/
theorem run_project {bindings : NameMap Table} {source p : Pipeline} (built : source.Built)
    (node : source.project (calls.map aggregateAssignment) groupBy = .ok p)
    (runs : run bindings source = .ok t)
    (unmixed : ∀ c ∈ groupBy, Value.Unmixed (t.cellsOf c)) :
    ∃ heads, FirstRows t groupBy heads ∧
      (∀ r, run bindings p = .ok r ↔
        ∃ results, List.Forall₂ (AggregatesOf t groupBy heads) calls results ∧
          r = ⟨groupBy.map (fun c => ⟨c, heads.map (t.cell c)⟩) ++ results⟩) ∧
      ((∃ e, run bindings p = .error e) ↔
        ∃ call ∈ calls, ∃ i ∈ heads, ∃ e, aggregateLike t groupBy call i = .error e) := by
  obtain ⟨wf, names⟩ := run_schema built runs
  obtain ⟨fits, rfl⟩ := Pipeline.project_eq_ok.1 node
  have read : ∀ call ∈ calls, call.2.2 ∈ t.names := by
    intro call mem
    refine names ▸ fits.known _ (Formula.mem_columnsOfAll.2
      ⟨(call.1, .apply call.2.1 [.column call.2.2] .call), List.mem_map_of_mem mem, ?_⟩)
    exact Formula.mem_columns.2 (by simp [Formula.columnList, Formula.columnLists])
  have nodup : (groupBy ++ calls.map (·.1)).Nodup := by
    have := fits.nodup
    rwa [List.map_map] at this
  obtain ⟨heads, found, result⟩ :=
    groupTable_eq wf (fun c mem => names ▸ fits.groups_known c mem) read nodup unmixed
  have same : run bindings (.grouping source (calls.map aggregateAssignment) groupBy) =
      (aggregateColumns t groupBy heads calls).map fun results =>
        ⟨groupBy.map (fun c => ⟨c, heads.map (t.cell c)⟩) ++ results⟩ := by
    rw [run, runs]
    exact result
  refine ⟨heads, found, fun r => ?_, ?_⟩
  · rw [same, map_eq_ok]
    refine exists_congr fun results => ?_
    rw [aggregateColumns_eq_ok, eq_comm]
  · simp only [← aggregateColumns_eq_error, same, map_eq_error]

/-- Sums and counts by a key that two rows lack. -/
theorem run_project_sums :
    let d := Pipeline.table ⟨"d", .empty, ["k", "x"]⟩
    let calls := [("s", "sum", "x"), ("n", "count", "k")]
    let p := Pipeline.grouping d (calls.map aggregateAssignment) ["k"]
    let t := Table.mk [⟨"k", [.int 2, .null, .int 1, .null, .int 2]⟩,
      ⟨"x", [.int 10, .int 20, .int 30, .int 40, .int 50]⟩]
    run (.ofList [("d", t)]) p = .ok ⟨[⟨"k", [.int 1, .int 2, .null]⟩,
        ⟨"s", [.int 30, .int 60, .int 60]⟩, ⟨"n", [.int 1, .int 2, .int 0]⟩]⟩ ∧
      ∃ heads, FirstRows t ["k"] heads ∧ ∀ r, run (.ofList [("d", t)]) p = .ok r ↔
        ∃ results, List.Forall₂ (AggregatesOf t ["k"] heads) calls results ∧
          r = ⟨["k"].map (fun c => ⟨c, heads.map (t.cell c)⟩) ++ results⟩ := by
  intro d calls p t
  have table : TableRef.of "d" ["k", "x"] .empty = .ok ⟨"d", .empty, ["k", "x"]⟩ := by decide
  have node : d.project (calls.map aggregateAssignment) ["k"] = .ok p := rfl
  have runs : run (.ofList [("d", t)]) d = .ok t := rfl
  have unmixed : ∀ c ∈ ["k"], Value.Unmixed (t.cellsOf c) := by
    intro c mem i x mi mx
    obtain rfl := List.mem_singleton.1 mem
    simp [t, cellsOf, cells?, column?] at mx
  obtain ⟨heads, found, result, -⟩ := run_project (.table table) node runs unmixed
  exact ⟨by decide +kernel, heads, found, result⟩

end TableFlow.Eval
