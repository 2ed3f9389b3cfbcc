import TableFlow.Proofs.Eval.Positions
import TableFlow.Proofs.Eval.Steps

/-!
# Rows in order

An ordering step arranges rows by its order columns, the earlier ones first. `Arranged` says of an
arrangement that no row comes before the one in front of it and that tied rows stay as the table
has them. There is one such arrangement, it has missing cells last in each direction, and the step
gives out its first rows (`run_ordering`).
-/

namespace TableFlow.Eval

open Table

/-! ## What an order means -/

/-- One row comes before another: on the first order column where the two are not tied its cell is
the first one. -/
def Before (t : Table) (order : RowOrder) (i j : Nat) : Prop :=
  ∃ earlier c later, order.orderBy = earlier ++ c :: later ∧ t.SameKey earlier i j ∧
    orderCompare (order.reverse.contains c) (t.cell c i) (t.cell c j) = .lt

/-- All rows, none in front of one that comes before it, and tied rows as the table has them. -/
structure Arranged (t : Table) (order : RowOrder) (positions : List Nat) : Prop where
  perm : positions.Perm (List.range t.numRows)
  rising : positions.IsChain fun i j => ¬Before t order j i
  stable : positions.Pairwise fun i j => t.SameKey order.orderBy i j → i < j

/-- In each order column, rows that are tied on the earlier ones have the missing cells last. -/
def MissingLast (t : Table) (order : RowOrder) (positions : List Nat) : Prop :=
  ∀ earlier c later, order.orderBy = earlier ++ c :: later →
    positions.Pairwise fun i j => t.SameKey earlier i j →
      (t.cell c i).isMissing = true → (t.cell c j).isMissing = true

variable {t : Table} {order : RowOrder} {columns reverse : List String} {positions : List Nat}
  {i j : Nat}

/-! ## The first column that tells two rows apart -/

theorem compareBy_eq_lt : t.compareBy columns reverse i j = .lt ↔
    ∃ earlier c later, columns = earlier ++ c :: later ∧ t.SameKey earlier i j ∧
      orderCompare (reverse.contains c) (t.cell c i) (t.cell c j) = .lt := by
  induction columns with
  | nil => simp [compareBy, key, compareKeys]
  | cons c columns ih =>
    rw [compareBy_cons, Ordering.then_eq_lt, ih, orderCompare_eq_eq]
    constructor
    · rintro (first | ⟨tied, earlier, d, later, rfl, same, first⟩)
      · exact ⟨[], c, columns, rfl, by simp [SameKey], first⟩
      · exact ⟨c :: earlier, d, later, rfl, List.forall_mem_cons.2 ⟨tied, same⟩, first⟩
    · rintro ⟨earlier, d, later, split, same, first⟩
      cases earlier with
      | nil =>
        obtain ⟨rfl, rfl⟩ := List.cons.inj split
        exact .inl first
      | cons e earlier =>
        obtain ⟨rfl, rfl⟩ := List.cons.inj split
        obtain ⟨tied, same⟩ := List.forall_mem_cons.1 same
        exact .inr ⟨tied, earlier, d, later, rfl, same, first⟩

theorem before_iff : Before t order i j ↔ t.compareBy order.orderBy order.reverse i j = .lt :=
  compareBy_eq_lt.symm

instance : Decidable (Before t order i j) :=
  decidable_of_iff _ before_iff.symm

/-! ## One arrangement -/

/-- A row that has a missing cell comes after one that has a cell there, in either direction. -/
theorem orderCompare_missing {falling : Bool} {a b : Value} (first : a.isMissing = true)
    (second : b.isMissing = false) : orderCompare falling a b = .gt := by
  simp [orderCompare, Value.sortCompare, first, second]

theorem arranged_iff [Std.TransCmp (t.compareBy order.orderBy order.reverse)] :
    Arranged t order positions ↔ positions.Perm (List.range t.numRows) ∧
      positions.Pairwise (InOrder (t.compareBy order.orderBy order.reverse) (· < ·)) := by
  have level : ∀ i j, ¬Before t order j i ↔
      (t.compareBy order.orderBy order.reverse i j).isLE = true := by
    intro i j
    have swap : t.compareBy order.orderBy order.reverse j i =
        (t.compareBy order.orderBy order.reverse i j).swap := Std.OrientedCmp.eq_swap
    rw [before_iff, swap]
    cases t.compareBy order.orderBy order.reverse i j <;> simp
  constructor
  · rintro ⟨perm, rising, stable⟩
    refine ⟨perm, ?_⟩
    have trans : Trans (fun i j => (t.compareBy order.orderBy order.reverse i j).isLE = true)
        (fun i j => (t.compareBy order.orderBy order.reverse i j).isLE = true)
        fun i j => (t.compareBy order.orderBy order.reverse i j).isLE = true :=
      ⟨Std.TransCmp.isLE_trans⟩
    have ordered := List.isChain_iff_pairwise.1 (rising.imp fun i j => (level i j).1)
    refine (ordered.and stable).imp fun {i j} ⟨le, first⟩ => ?_
    cases outcome : t.compareBy order.orderBy order.reverse i j with
    | lt => exact .inl outcome
    | eq => exact .inr ⟨outcome, first (compareBy_eq_eq.1 outcome)⟩
    | gt => rw [outcome] at le; cases le
  · rintro ⟨perm, ordered⟩
    refine ⟨perm, (ordered.imp fun h => (level _ _).2 h.isLE).isChain, ordered.imp ?_⟩
    rintro i j (below | ⟨-, first⟩) same
    · rw [compareBy_eq_eq.2 same] at below
      cases below
    · exact first

/-- Two arrangements of the same rows are the same. -/
theorem Arranged.unique [Std.TransCmp (t.compareBy order.orderBy order.reverse)]
    {other : List Nat} (here : Arranged t order positions) (there : Arranged t order other) :
    other = positions := by
  obtain ⟨perm, ordered⟩ := arranged_iff.1 here
  obtain ⟨perm', ordered'⟩ := arranged_iff.1 there
  exact List.Perm.eq_of_pairwise
    (fun i j _ _ first second => absurd second (first.asymm Nat.lt_asymm)) ordered' ordered
    (perm'.trans perm.symm)

theorem Arranged.missingLast [Std.TransCmp (t.compareBy order.orderBy order.reverse)]
    (arranged : Arranged t order positions) : MissingLast t order positions := by
  intro earlier c later split
  refine (arranged_iff.1 arranged).2.imp fun {i j} h tied missing => ?_
  have le := h.isLE
  rw [split, compareBy_append, compareBy_eq_eq.2 tied, Ordering.eq_then, compareBy_cons] at le
  cases present : (t.cell c j).isMissing with
  | true => rfl
  | false =>
    rw [orderCompare_missing missing present] at le
    cases le

/-! ## The step -/

theorem exists_arranged [Std.TransCmp (t.compareBy order.orderBy order.reverse)]
    (wf : t.WellFormed) (known : ∀ c ∈ order.orderBy, c ∈ t.names) :
    ∃ positions, Arranged t order positions ∧
      sortPositions t order.orderBy order.reverse = .ok positions :=
  ⟨_, arranged_iff.2 ⟨sortStable_perm, sortStable_pairwise List.pairwise_lt_range⟩,
    sortPositions_eq wf known⟩

/-- Rows taken out of a table, cell by cell. -/
theorem take?_eq (wf : t.WellFormed) (inside : ∀ i ∈ positions, i < t.numRows) :
    t.take? positions = some ⟨t.names.map fun c => ⟨c, positions.map (t.cell c)⟩⟩ := by
  refine Option.map_eq_some_iff.2 ⟨_, mapM_eq_some.2 ?_, rfl⟩
  rw [names, List.map_map]
  refine List.forall₂_map_right_iff.2 (List.forall₂_same.2 fun c mem => ?_)
  have known : c.name ∈ t.names := List.mem_map_of_mem mem
  have cells : positions.mapM (c.cells[·]?) = some (positions.map (t.cell c.name)) := by
    refine mapM_eq_some.2 (List.forall₂_map_right_iff.2 (List.forall₂_same.2 fun i row => ?_))
    rw [← cellsOf_column wf mem]
    exact getElem?_cellsOf wf known (inside i row)
  rw [cells]
  rfl

/-- An ordering step gives out the first rows of the one arrangement of its rows in which no row
comes before the one in front of it and tied rows stay as the table has them; missing cells are
last there in each direction. -/
theorem run_ordering {bindings : NameMap Table} {source p : Pipeline} (built : source.Built)
    (node : source.orderRows order = .ok p) (runs : run bindings source = .ok t)
    (unmixed : ∀ c ∈ order.orderBy, Value.Unmixed (t.cellsOf c)) :
    ∃ positions, Arranged t order positions ∧
      (∀ other, Arranged t order other → other = positions) ∧ MissingLast t order positions ∧
      run bindings p = .ok ⟨t.names.map fun c =>
        ⟨c, (positions.take (order.limit.getD t.numRows)).map (t.cell c)⟩⟩ := by
  obtain ⟨wf, names⟩ := run_schema built runs
  obtain ⟨fits, rfl⟩ := Pipeline.orderRows_eq_ok.1 node
  have trans : Std.TransCmp (t.compareBy order.orderBy order.reverse) :=
    transCmp_compareBy fun c mem => (unmixed c mem).not_blurred
  obtain ⟨positions, arranged, sorted⟩ :=
    exists_arranged wf fun c mem => names ▸ fits.known c mem
  refine ⟨positions, arranged, fun other => arranged.unique, arranged.missingLast, ?_⟩
  have length : positions.length = t.numRows := by
    rw [arranged.perm.length_eq, List.length_range]
  have inside : ∀ i ∈ positions.take (order.limit.getD t.numRows), i < t.numRows :=
    fun i mem => inside_of_perm arranged.perm i (List.mem_of_mem_take mem)
  rw [run, runs]
  refine orderTable_eq_ok.2 ⟨positions, sorted, ?_⟩
  rw [← take?_eq wf inside]
  cases order.limit with
  | none => rw [Option.getD_none, List.take_of_length_le length.le]
  | some n => rfl

/-- Rising names, and falling numbers below each of them: a row without a number is the last one
of its name, and one without a name is left out. -/
theorem run_ordering_falling :
    let source := Pipeline.table ⟨"d", .empty, ["g", "x", "n"]⟩
    let order : RowOrder := ⟨["g", "x"], ["x"], some 5⟩
    let t := Table.mk [
      ⟨"g", [.text "b", .text "a", .text "a", .text "a", .null, .text "a"]⟩,
      ⟨"x", [.int 1, .null, .int 2, .int 2, .int 5, .int 3]⟩,
      ⟨"n", [.int 0, .int 1, .int 2, .int 3, .int 4, .int 5]⟩]
    Arranged t order [5, 2, 3, 1, 0, 4] ∧
      run (.ofList [("d", t)]) (.ordering source order) = .ok ⟨[
        ⟨"g", [.text "a", .text "a", .text "a", .text "a", .text "b"]⟩,
        ⟨"x", [.int 3, .int 2, .int 2, .null, .int 1]⟩,
        ⟨"n", [.int 5, .int 2, .int 3, .int 1, .int 0]⟩]⟩ := by
  intro source order t
  have table : TableRef.of "d" ["g", "x", "n"] .empty = .ok ⟨"d", .empty, ["g", "x", "n"]⟩ := by
    decide
  have node : source.orderRows order = .ok (.ordering source order) := rfl
  have arranged : Arranged t order [5, 2, 3, 1, 0, 4] := ⟨by decide, by decide, by decide⟩
  have unmixed : ∀ c ∈ order.orderBy, Value.Unmixed (t.cellsOf c) := by
    intro c mem i x mi mx
    obtain rfl | rfl := List.mem_pair.1 mem <;> simp [t, cellsOf, cells?, column?] at mx
  have bound : run (.ofList [("d", t)]) source = .ok t := rfl
  obtain ⟨positions, -, unique, -, ran⟩ := run_ordering (.table table) node bound unmixed
  obtain rfl := unique _ arranged
  exact ⟨arranged, ran.trans (by decide)⟩

end TableFlow.Eval
