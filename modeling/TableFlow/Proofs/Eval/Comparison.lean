import TableFlow.Proofs.Eval.Grouping
import TableFlow.Proofs.Eval.NestedLoop
import TableFlow.Proofs.Eval.Ordering
import TableFlow.Proofs.Value.Comparison

/-!
# Comparing and sorting

Formulas compare two cells by one order, and rows are grouped, joined and arranged by another. In
a key column without a double that is equal to two of its integers, rows are in one group, are
partners in a join and are tied in the orders by the column just if their cells are equal to the
sort (`oneGroup_iff`, `partners_iff`, `tied_iff`). So `==` and `<` tell it of all pairs of cells
but the two zeros, which `==` holds of and the sort keeps apart. Where the column has such a
double, they need not tell it: equal cells are in two groups (`not_oneGroup_blurred`) and others
in one (`oneGroup_blurred`), others are tied (`tied_blurred`), and a partner is not found
(`not_partners_blurred`). These two exceptions are all (`sorting_agrees_iff`).
-/

namespace TableFlow.Eval

open Table Value

variable {t left right : Table} {a b : Value} {k : String} {type : JoinType} {i j : Nat}

/-- Grouped by a column, two rows are in one group. -/
def OneGroup (t : Table) (k : String) (i j : Nat) : Prop :=
  ∃ groups, groupRows t [k] = .ok groups ∧ ∃ group ∈ groups, i ∈ group ∧ j ∈ group

/-- Arranged by a column, two rows stay as the table has them, whether the column rises or
falls. -/
def Tied (t : Table) (k : String) (i j : Nat) : Prop :=
  ∀ reverse, ∃ order, sortPositions t [k] reverse = .ok order ∧
    (order.idxOf i < order.idxOf j ↔ i < j)

/-- Joined by a column, a row of one table is paired with a row of the other. -/
def Partners (left right : Table) (k : String) (type : JoinType) (i j : Nat) : Prop :=
  ∃ rows, pairings left right [k] type = .ok rows ∧ ⟨some i, some j⟩ ∈ rows

/-! ## Rows with equal cells -/

theorem oneGroup_iff (wf : t.WellFormed) (known : k ∈ t.names)
    (clear : ¬Blurred {v | v ∈ t.cellsOf k}) (hi : i < t.numRows) (hj : j < t.numRows) :
    OneGroup t k i j ↔ (t.cell k i).sortCompare (t.cell k j) = .eq := by
  have clear : ∀ c ∈ [k], ¬Blurred {v | v ∈ t.cellsOf c} := List.forall_mem_singleton.2 clear
  have trans : Std.TransCmp (t.compareBy [k] []) := transCmp_compareBy clear
  obtain ⟨heads, first, grouped⟩ := groupRows_eq wf (List.forall_mem_singleton.2 known) clear
  have same : (t.cell k i).sortCompare (t.cell k j) = .eq ↔ t.SameKey [k] i j := by
    simp [SameKey]
  have key : ∀ m n, t.compareBy [k] [] m n = .eq ↔ t.SameKey [k] m n := fun _ _ => compareBy_eq_eq
  rw [same]
  constructor
  · rintro ⟨_, made, group, within, mi, mj⟩
    obtain rfl := Except.ok.inj (grouped.symm.trans made)
    obtain ⟨h, -, rfl⟩ := List.mem_map.1 within
    have first := (mem_rowsLike.1 mi).2
    have second := (mem_rowsLike.1 mj).2
    rw [← key] at first second ⊢
    rw [Std.TransCmp.congr_left first, Std.OrientedCmp.eq_comm.1 second]
  · intro equal
    obtain ⟨h, head, like⟩ := first.covers (List.cons_ne_nil _ _) clear hi
    refine ⟨_, grouped, _, List.mem_map_of_mem head, mem_rowsLike.2 ⟨hi, like⟩,
      mem_rowsLike.2 ⟨hj, ?_⟩⟩
    rw [← key] at equal like ⊢
    rw [← Std.TransCmp.congr_left equal, like]

/-- In a list ordered by an asymmetric relation, one element is in front of another just if it is
related to it. -/
theorem idxOf_lt_iff {α : Type} [DecidableEq α] {R : α → α → Prop} {l : List α} {a b : α}
    (ordered : l.Pairwise R) (asymm : R b a → ¬R a b) (ha : a ∈ l) (hb : b ∈ l) (ne : a ≠ b) :
    l.idxOf a < l.idxOf b ↔ R a b := by
  have within : ∀ {c}, c ∈ l → l.idxOf c < l.length := List.idxOf_lt_length_of_mem
  have related : ∀ {c d}, c ∈ l → d ∈ l → l.idxOf c < l.idxOf d → R c d := by
    intro c d hc hd less
    have pair := List.pairwise_iff_getElem.1 ordered _ _ (within hc) (within hd) less
    rwa [List.getElem_idxOf, List.getElem_idxOf] at pair
  refine ⟨related ha hb, fun ab => ?_⟩
  by_contra above
  obtain less | same := Nat.lt_or_eq_of_le (Nat.not_lt.1 above)
  · exact asymm (related hb ha less) ab
  · exact ne (List.idxOf_inj ha |>.1 same.symm)

/-- Where two rows are in an order, by the cells of its column. -/
theorem exists_placing (wf : t.WellFormed) (known : k ∈ t.names)
    (clear : ¬Blurred {v | v ∈ t.cellsOf k}) (reverse : List String) (hi : i < t.numRows)
    (hj : j < t.numRows) (ne : i ≠ j) :
    ∃ order, sortPositions t [k] reverse = .ok order ∧ (order.idxOf i < order.idxOf j ↔
      InOrder (t.compareBy [k] reverse) (· < ·) i j) := by
  have trans : Std.TransCmp (t.compareBy [k] reverse) :=
    transCmp_compareBy (List.forall_mem_singleton.2 clear)
  have placed : ∀ {n}, n < t.numRows → n ∈ sortStable
      (fun i j => t.compareBy [k] reverse i j == .lt) (List.range t.numRows) := fun row =>
    sortStable_perm.mem_iff.2 (List.mem_range.2 row)
  refine ⟨_, sortPositions_eq wf (List.forall_mem_singleton.2 known), ?_⟩
  exact idxOf_lt_iff (sortStable_pairwise List.pairwise_lt_range)
    (fun back ahead => back.asymm Nat.lt_asymm ahead) (placed hi) (placed hj) ne

/-- Rows that have a cell are tied just if their cells are equal to the sort: otherwise one of the
two directions puts them the other way round. -/
theorem tied_iff (wf : t.WellFormed) (known : k ∈ t.names)
    (clear : ¬Blurred {v | v ∈ t.cellsOf k}) (hi : i < t.numRows) (hj : j < t.numRows)
    (present : (t.cell k i).isMissing = false) (present' : (t.cell k j).isMissing = false) :
    Tied t k i j ↔ (t.cell k i).sortCompare (t.cell k j) = .eq := by
  by_cases same : i = j
  · subst same
    refine iff_of_true (fun reverse => ?_) (sortCompare_self _)
    have trans : Std.TransCmp (t.compareBy [k] reverse) :=
      transCmp_compareBy (List.forall_mem_singleton.2 clear)
    exact ⟨_, sortPositions_eq wf (List.forall_mem_singleton.2 known), by simp⟩
  have placed := fun reverse => exists_placing wf known clear reverse hi hj same
  constructor
  · intro tied
    obtain ⟨order, sorted, stays⟩ := tied []
    obtain ⟨_, found, rises⟩ := placed []
    obtain rfl := Except.ok.inj (sorted.symm.trans found)
    obtain ⟨order', sorted', stays'⟩ := tied [k]
    obtain ⟨_, found', falls⟩ := placed [k]
    obtain rfl := Except.ok.inj (sorted'.symm.trans found')
    have rising := rises.symm.trans stays
    have falling := falls.symm.trans stays'
    unfold InOrder at rising falling
    rw [compareBy_single] at rising falling
    have up : orderCompare (([] : List String).contains k) (t.cell k i) (t.cell k j) =
        (t.cell k i).sortCompare (t.cell k j) := rfl
    have down : orderCompare ([k].contains k) (t.cell k i) (t.cell k j) =
        ((t.cell k i).sortCompare (t.cell k j)).swap := by
      rw [← sortCompare_swap]
      simp [orderCompare, present, present']
    rw [up] at rising
    rw [down] at falling
    cases outcome : (t.cell k i).sortCompare (t.cell k j) with
    | eq => rfl
    | lt =>
      have less : i < j := by simpa [outcome] using rising
      simp [outcome, less] at falling
    | gt =>
      have less : i < j := by simpa [outcome] using falling
      simp [outcome, less] at rising
  · intro equal reverse
    obtain ⟨order, sorted, ahead⟩ := placed reverse
    refine ⟨order, sorted, ahead.trans ?_⟩
    rw [InOrder, compareBy_single, orderCompare_eq_eq.2 equal]
    simp

theorem mem_nestedPairings {keys : List String} :
    ⟨some i, some j⟩ ∈ nestedPairings left right keys type ↔
      i < left.numRows ∧ j < right.numRows ∧ SameKeys left right keys i j := by
  have partner : j ∈ partnersOf left right keys i ↔
      j < right.numRows ∧ SameKeys left right keys i j := by
    simp [partnersOf]
  have row : ∀ m, ⟨some i, some j⟩ ∈ rowPairings left right keys type m ↔
      m = i ∧ j ∈ partnersOf left right keys i := by
    intro m
    unfold rowPairings
    split
    · simp only [List.mem_map, Pairing.mk.injEq, Option.some.injEq]
      constructor
      · rintro ⟨_, mem, rfl, rfl⟩
        exact ⟨rfl, mem⟩
      · rintro ⟨rfl, mem⟩
        exact ⟨j, mem, rfl, rfl⟩
    · rename_i none
      have absent : ¬(m = i ∧ j ∈ partnersOf left right keys i) := by
        rintro ⟨rfl, mem⟩
        exact none (List.ne_nil_of_mem mem)
      split <;> simp [absent]
  have alone : ⟨some i, some j⟩ ∉ if type = .right ∨ type = .full then
      (aloneOf left right keys).map fun j => (⟨none, some j⟩ : Pairing) else [] := by
    split <;> simp
  rw [nestedPairings, List.mem_append, or_iff_left alone, List.mem_flatMap]
  simp only [row, partner, List.mem_range]
  constructor
  · rintro ⟨_, inside, rfl, there⟩
    exact ⟨inside, there⟩
  · exact fun h => ⟨i, h.1, rfl, h.2⟩

theorem partners_iff (wfl : left.WellFormed) (wfr : right.WellFormed) (knownl : k ∈ left.names)
    (knownr : k ∈ right.names) (clear : ¬Blurred {v | v ∈ left.cellsOf k ++ right.cellsOf k})
    (hi : i < left.numRows) (hj : j < right.numRows)
    (present : (left.cell k i).isMissing = false) (present' : (right.cell k j).isMissing = false) :
    Partners left right k type i j ↔ (left.cell k i).sortCompare (right.cell k j) = .eq := by
  have paired : pairings left right [k] type = .ok (nestedPairings left right [k] type) :=
    pairings_eq wfl wfr (List.forall_mem_singleton.2 knownl) (List.forall_mem_singleton.2 knownr)
      (List.forall_mem_singleton.2 clear)
  have keys : SameKeys left right [k] i j ↔
      (left.cell k i).sortCompare (right.cell k j) = .eq := by
    simp [SameKeys, present, present']
  rw [Partners, paired, ← keys]
  simp [mem_nestedPairings, hi, hj]

/-! ## Comparison and sorting -/

theorem binary_equal : binary "==" a b = .ok (.bool true) ↔ a.compare? b = some .eq := by
  show Except.ok (comparison _ a b) = _ ↔ _
  unfold comparison
  cases a.compare? b <;> simp

theorem binary_less : binary "<" a b = .ok (.bool true) ↔ a.compare? b = some .lt := by
  show Except.ok (comparison _ a b) = _ ↔ _
  unfold comparison
  cases a.compare? b <;> simp

/-- Two cells are together where `==` is true of them and apart where `<` is. -/
def Faithful (a b : Value) (together : Prop) : Prop :=
  (binary "==" a b = .ok (.bool true) → together) ∧
    (binary "<" a b = .ok (.bool true) → ¬together)

/-- The sort is faithful to the comparison of all cells but the two zeros. -/
theorem faithful_iff {together : Prop} (same : a.isMissing = false → b.isMissing = false →
    (together ↔ a.sortCompare b = .eq)) : Faithful a b together ↔ ¬OppositeZeros a b := by
  constructor
  · intro faithful zeros
    have equal := compared_oppositeZeros zeros
    obtain ⟨present, present'⟩ := present_of_compared equal
    have tied := (same present present').1 (faithful.1 (binary_equal.2 equal))
    exact (sortCompare_compared equal).1 tied zeros
  · intro apart
    constructor
    · intro equal
      have compared := binary_equal.1 equal
      obtain ⟨present, present'⟩ := present_of_compared compared
      exact (same present present').2 ((sortCompare_compared compared).2 apart)
    · intro less together
      have compared := binary_less.1 less
      obtain ⟨present, present'⟩ := present_of_compared compared
      have below := (sortCompare_compared compared).2 apart
      rw [(same present present').1 together] at below
      cases below

/-! ## A double that is equal to two integers -/

section
variable {m n : Int64} {x : Float}

theorem cell_columnTable {cells : List Value} :
    (columnTable k cells).cell k i = cells[i]?.getD .null := by
  rw [cell, cellsOf_columnTable]

/-- The rows of one column in which no cell is missing. -/
theorem matchable_column {cells : List Value} (all : ∀ v ∈ cells, v.isMissing = false) :
    matchable (columnTable k cells) [k] =
      .ok ((List.range cells.length).map fun i => (i, [cells[i]?.getD .null])) := by
  have kept : (List.range cells.length).filter (present (columnTable k cells) [k]) =
      List.range cells.length := by
    refine List.filter_eq_self.2 fun i mem => present_iff.2 ?_
    have inside : i < cells.length := List.mem_range.1 mem
    refine List.forall_mem_singleton.2 ?_
    rw [cell_columnTable, List.getElem?_eq_getElem inside]
    exact all _ (List.getElem_mem inside)
  rw [matchable_eq columnTable_wf (List.forall_mem_singleton.2 mem_columnTable), presentRows,
    numRows_columnTable, kept]
  simp [key, cell_columnTable]

/-- A cut of two rows of which the second one has the property. -/
theorem cutFrom_two {holds : Nat → Bool} (second : holds 1 = true) : cutFrom holds 2 0 = 2 := by
  have one : cutFrom holds 1 1 = 2 := by
    rw [cutFrom]
    simp [second]
  rw [cutFrom]
  simp [second, one]

/-- Three rows stay in their order if none is less than the one in front of it. -/
theorem sortPositions_three {u v w : Value} {reverse : List String}
    (first : orderCompare (reverse.contains k) v u ≠ .lt)
    (second : orderCompare (reverse.contains k) w v ≠ .lt) :
    sortPositions (columnTable k [u, v, w]) [k] reverse = .ok [0, 1, 2] := by
  have chain : [0, 1, 2].IsChain fun i j =>
      ((columnTable k [u, v, w]).compareBy [k] reverse j i == .lt) = false := by
    refine .cons_cons ?_ (.cons_cons ?_ (.singleton _)) <;>
      rw [compareBy_single, cell_columnTable, cell_columnTable, beq_eq_false_iff_ne]
    · exact first
    · exact second
  have sorted : sort? 8 (fun i j => (columnTable k [u, v, w]).compareBy [k] reverse i j == .lt)
      (List.range 3) = some [0, 1, 2] := by
    rw [sort?_of_short (by decide)]
    exact congrArg some (sortStable_eq_self chain)
  exact (sortPositions_eq_ok columnTable_wf (List.forall_mem_singleton.2 mem_columnTable)).2 sorted

theorem groupRows_three {u v w : Value} (first : v.sortCompare u ≠ .lt)
    (second : w.sortCompare v ≠ .lt) :
    groupRows (columnTable k [u, v, w]) [k] = .ok (runs [(0, [u]), (1, [v]), (2, [w])]) := by
  have sorted : sortPositions (columnTable k [u, v, w]) [k] [] = .ok [0, 1, 2] :=
    sortPositions_three first second
  rw [groupRows, if_neg (by simp), sorted]
  show groups _ [0, 1, 2] [k] = _
  rw [groups_eq columnTable_wf (List.forall_mem_singleton.2 mem_columnTable) (by simp)]
  simp [key, cell_columnTable]

/-- A greater integer, the double and a smaller integer stay in this order. -/
theorem sortPositions_blurred (low : Number.ofInt64 m = x) (high : Number.ofInt64 n = x)
    (reverse : List String) :
    sortPositions (columnTable k [.int n, .float x, .int m]) [k] reverse = .ok [0, 1, 2] := by
  have first : orderCompare (reverse.contains k) (.float x) (.int n) = .eq :=
    orderCompare_eq_eq.2 (sortCompare_eq_comm.1 (sortCompare_rounded high))
  have second : orderCompare (reverse.contains k) (.int m) (.float x) = .eq :=
    orderCompare_eq_eq.2 (sortCompare_rounded low)
  exact sortPositions_three (first ▸ nofun) (second ▸ nofun)

/-- The double and the smaller integer are equal and in two groups. -/
theorem not_oneGroup_blurred (less : m.toInt < n.toInt) (low : Number.ofInt64 m = x)
    (high : Number.ofInt64 n = x) :
    ¬OneGroup (columnTable k [.int n, .float x, .int m]) k 1 2 := by
  have xn : (Value.float x).sortCompare (.int n) = .eq :=
    sortCompare_eq_comm.1 (sortCompare_rounded high)
  have mn : (Value.int m).sortCompare (.int n) = .lt := Int.compare_eq_lt.2 less
  have mx : (Value.int m).sortCompare (.float x) = .eq := sortCompare_rounded low
  have grouped : groupRows (columnTable k [.int n, .float x, .int m]) [k] = .ok [[0, 1], [2]] := by
    rw [groupRows_three (by simp [xn]) (by simp [mx])]
    simp [runs, splitRun, sameKey, xn, mn]
  rintro ⟨_, made, rows⟩
  obtain rfl := Except.ok.inj (grouped.symm.trans made)
  simp at rows

/-- Behind the double, the two integers are in one group. -/
theorem oneGroup_blurred (less : m.toInt < n.toInt) (low : Number.ofInt64 m = x)
    (high : Number.ofInt64 n = x) :
    OneGroup (columnTable k [.float x, .int m, .int n]) k 1 2 := by
  have mx : (Value.int m).sortCompare (.float x) = .eq := sortCompare_rounded low
  have nx : (Value.int n).sortCompare (.float x) = .eq := sortCompare_rounded high
  have nm : (Value.int n).sortCompare (.int m) = .gt := Int.compare_eq_gt.2 less
  refine ⟨[[0, 1, 2]], ?_, [0, 1, 2], by simp⟩
  rw [groupRows_three (by simp [mx]) (by simp [nm])]
  simp [runs, splitRun, sameKey, mx, nx]

/-- The smaller integer is less than the greater one and tied with it. -/
theorem tied_blurred (low : Number.ofInt64 m = x) (high : Number.ofInt64 n = x) :
    Tied (columnTable k [.int n, .float x, .int m]) k 2 0 :=
  fun reverse => ⟨_, sortPositions_blurred low high reverse, by decide⟩

/-- The greater integer is equal to the double and does not find it in front of the smaller one. -/
theorem not_partners_blurred (less : m.toInt < n.toInt) (low : Number.ofInt64 m = x) :
    ¬Partners (columnTable k [.int n]) (columnTable k [.float x, .int m]) k type 0 0 := by
  have mx : (Value.int m).sortCompare (.float x) = .eq := sortCompare_rounded low
  have mn : (Value.int m).sortCompare (.int n) = .lt := Int.compare_eq_lt.2 less
  have number : x.isNaN = false := low ▸ Number.isNaN_ofInt64 m
  have left : matchable (columnTable k [.int n]) [k] = .ok [(0, [.int n])] :=
    matchable_column (by simp [isMissing])
  have right : matchable (columnTable k [.float x, .int m]) [k] =
      .ok [(0, [.float x]), (1, [.int m])] :=
    matchable_column (List.forall_mem_cons.2 ⟨number, List.forall_mem_singleton.2 rfl⟩)
  have back : risingKeys [.int m] [.float x] = .eq := by
    simp [risingKeys, compareKeys, orderCompare, mx]
  have below : risingKeys [.int m] [.int n] = .lt := by
    simp [risingKeys, compareKeys, orderCompare, mn]
  have sorted : sortKeyed 32 risingKeys [(0, [.float x]), (1, [.int m])] =
      .ok [(0, [.float x]), (1, [.int m])] := by
    rw [sortKeyed, sort?_of_short (by simp), sortStable_eq_self]
    exact .cons_cons (by simp [back]) (.singleton _)
  -- both cuts look at the smaller integer and then at no other row
  have cut : ∀ p : Ordering → Bool, p .lt = true →
      cutFrom (fun i => [(0, [Value.float x]), (1, [.int m])][i]?.any
        fun row => p (risingKeys row.2 [.int n])) 2 0 = 2 := fun p lower =>
    cutFrom_two (by simp [below, lower])
  have none : partners [(0, [.float x]), (1, [.int m])] [.int n] = .ok [] :=
    partners_of_cuts (cut (· == .lt) rfl) (cut (· != .gt) rfl) le_rfl
  have alone : leftPairings type.keepsLeft [(0, [.float x]), (1, [.int m])] [(0, [.int n])] 0 =
      .ok (if type.keepsLeft then [⟨some 0, Option.none⟩] else []) := by
    show (partners _ _ >>= _) = _
    rw [none]
    rfl
  have one : [0].mapM (leftPairings type.keepsLeft [(0, [.float x]), (1, [.int m])]
      [(0, [.int n])]) = .ok [if type.keepsLeft then [⟨some 0, Option.none⟩] else []] := by
    rw [List.mapM_cons, alone]
    rfl
  rintro ⟨rows, made, mem⟩
  obtain ⟨_, keyed, made⟩ := bind_eq_ok.1 made
  obtain rfl := Except.ok.inj (left.symm.trans keyed)
  obtain ⟨_, keyed, made⟩ := bind_eq_ok.1 made
  obtain rfl := Except.ok.inj (right.symm.trans keyed)
  obtain ⟨_, arranged, made⟩ := bind_eq_ok.1 made
  obtain rfl := Except.ok.inj (sorted.symm.trans arranged)
  obtain ⟨_, each, made⟩ := bind_eq_ok.1 made
  obtain rfl := Except.ok.inj (one.symm.trans each)
  obtain rfl := Except.ok.inj made
  cases type <;> simp [JoinType.keepsLeft, JoinType.keepsRight] at mem

end

structure Plain (S : Set Value) : Prop where
  clear : ¬Blurred S
  zeros : ∀ a ∈ S, ∀ b ∈ S, ¬OppositeZeros a b

/-- Rows of tables whose cells are in a set are together as the comparison of their cells says. -/
def RowsFaithful (S : Set Value) (k : String) (together : Table → Nat → Nat → Prop) : Prop :=
  ∀ t : Table, t.WellFormed → k ∈ t.names → (∀ v ∈ t.cellsOf k, v ∈ S) →
    ∀ i < t.numRows, ∀ j < t.numRows, Faithful (t.cell k i) (t.cell k j) (together t i j)

/-- Rows of two such tables are partners as the comparison of their cells says. -/
def JoinsFaithful (S : Set Value) (k : String) (type : JoinType) : Prop :=
  ∀ left right : Table, left.WellFormed → right.WellFormed → k ∈ left.names → k ∈ right.names →
    (∀ v ∈ left.cellsOf k ++ right.cellsOf k, v ∈ S) →
    ∀ i < left.numRows, ∀ j < right.numRows,
      Faithful (left.cell k i) (right.cell k j) (Partners left right k type i j)

theorem not_blurred_pair : ¬Blurred {v | v ∈ [a, b]} := by
  rintro ⟨i, j, apart, mi, mj, -, mx⟩
  have three : [int i, int j, float (Number.ofInt64 i)].Nodup := by simp [apart]
  have inside : [int i, int j, float (Number.ofInt64 i)] ⊆ [a, b] :=
    List.forall_mem_cons.2 ⟨mi, List.forall_mem_cons.2 ⟨mj, List.forall_mem_singleton.2 mx⟩⟩
  exact absurd (List.subperm_of_subset three inside).length_le (by simp)

theorem cell_mem (wf : t.WellFormed) (known : k ∈ t.names) (hi : i < t.numRows) :
    t.cell k i ∈ t.cellsOf k :=
  List.mem_of_getElem? (getElem?_cellsOf wf known hi)

/-- What is so of each table without a double that is equal to two integers, and not of the table
of such a double between them, is so of the tables with cells in a set just if it is plain. -/
theorem rowsFaithful_iff {S : Set Value} {together : Table → Nat → Nat → Prop}
    (agrees : ∀ t : Table, t.WellFormed → k ∈ t.names → ¬Blurred {v | v ∈ t.cellsOf k} →
      ∀ i < t.numRows, ∀ j < t.numRows,
        (Faithful (t.cell k i) (t.cell k j) (together t i j) ↔
          ¬OppositeZeros (t.cell k i) (t.cell k j)))
    (fails : ∀ {m n : Int64} {x : Float}, m.toInt < n.toInt → Number.ofInt64 m = x →
      Number.ofInt64 n = x →
      let t := columnTable k [.int n, .float x, .int m]
      ∃ i < 3, ∃ j < 3, ¬Faithful (t.cell k i) (t.cell k j) (together t i j)) :
    RowsFaithful S k together ↔ Plain S := by
  constructor
  · intro faithful
    refine ⟨fun blurred => ?_, fun a ha b hb => ?_⟩
    · obtain ⟨m, n, x, hm, hn, hx, less, low, high⟩ := blurred.exists_lt
      obtain ⟨i, hi, j, hj, fails⟩ := fails less low high
      have inside : ∀ v ∈ (columnTable k [.int n, .float x, .int m]).cellsOf k, v ∈ S := by
        rw [cellsOf_columnTable]
        simp [hm, hn, hx]
      exact fails (faithful _ columnTable_wf mem_columnTable inside i hi j hj)
    · have pair := faithful (columnTable k [a, b]) columnTable_wf mem_columnTable
        (by rw [cellsOf_columnTable]; simp [ha, hb]) 0 (by simp) 1 (by simp)
      rw [agrees _ columnTable_wf mem_columnTable (by rw [cellsOf_columnTable]; exact
        not_blurred_pair) 0 (by simp) 1 (by simp), cell_columnTable, cell_columnTable] at pair
      exact pair
  · intro plain t wf known inside i hi j hj
    exact (agrees t wf known (fun blurred => plain.clear (blurred.mono inside)) i hi j hj).2
      (plain.zeros _ (inside _ (cell_mem wf known hi)) _ (inside _ (cell_mem wf known hj)))

theorem joinsFaithful_iff {S : Set Value} : JoinsFaithful S k type ↔ Plain S := by
  constructor
  · intro faithful
    refine ⟨fun blurred => ?_, fun a ha b hb => ?_⟩
    · obtain ⟨m, n, x, hm, hn, hx, less, low, high⟩ := blurred.exists_lt
      have pair : Faithful (.int n) (.float x)
          (Partners (columnTable k [.int n]) (columnTable k [.float x, .int m]) k type 0 0) := by
        have rows := faithful (columnTable k [.int n]) (columnTable k [.float x, .int m])
          columnTable_wf columnTable_wf mem_columnTable mem_columnTable
          (by simp [hm, hn, hx]) 0 (by simp) 0 (by simp)
        rwa [cell_columnTable, cell_columnTable] at rows
      exact not_partners_blurred less low (pair.1 (binary_equal.2 (compare?_rounded high).1))
    · have pair := faithful (columnTable k [a]) (columnTable k [b]) columnTable_wf columnTable_wf
        mem_columnTable mem_columnTable (by simp [ha, hb]) 0 (by simp) 0 (by simp)
      rw [faithful_iff fun present present' => partners_iff columnTable_wf columnTable_wf
        mem_columnTable mem_columnTable (by simpa using not_blurred_pair) (by simp) (by simp)
        present present', cell_columnTable, cell_columnTable] at pair
      exact pair
  · intro plain left right wfl wfr knownl knownr inside i hi j hj
    have clear : ¬Blurred {v | v ∈ left.cellsOf k ++ right.cellsOf k} := fun blurred =>
      plain.clear (blurred.mono inside)
    refine (faithful_iff fun present present' =>
      partners_iff wfl wfr knownl knownr clear hi hj present present').2 ?_
    exact plain.zeros _ (inside _ (List.mem_append_left _ (cell_mem wfl knownl hi)))
      _ (inside _ (List.mem_append_right _ (cell_mem wfr knownr hj)))

/-- Where two values are compared, sorting has the outcome of the comparison unless they are the
two zeros. So are the groups, the ties and the pairs of rows by a column that has no double equal
to two of its integers: of all pairs of cells but the two zeros, `==` says that they are together
and `<` that they are not. On the tables with cells in a set this is so of all pairs just if the
set has no such double and not both zeros. -/
theorem sorting_agrees_iff (k : String) (type : JoinType) :
    (∀ a b o, a.compare? b = some o → (a.sortCompare b = o ↔ ¬OppositeZeros a b)) ∧
    (∀ t : Table, t.WellFormed → k ∈ t.names → ¬Blurred {v | v ∈ t.cellsOf k} →
      ∀ i < t.numRows, ∀ j < t.numRows,
        (Faithful (t.cell k i) (t.cell k j) (OneGroup t k i j) ↔
          ¬OppositeZeros (t.cell k i) (t.cell k j)) ∧
        (Faithful (t.cell k i) (t.cell k j) (Tied t k i j) ↔
          ¬OppositeZeros (t.cell k i) (t.cell k j))) ∧
    (∀ left right : Table, left.WellFormed → right.WellFormed → k ∈ left.names →
      k ∈ right.names → ¬Blurred {v | v ∈ left.cellsOf k ++ right.cellsOf k} →
      ∀ i < left.numRows, ∀ j < right.numRows,
        (Faithful (left.cell k i) (right.cell k j) (Partners left right k type i j) ↔
          ¬OppositeZeros (left.cell k i) (right.cell k j))) ∧
    ∀ S : Set Value,
      (RowsFaithful S k (OneGroup · k) ↔ Plain S) ∧ (RowsFaithful S k (Tied · k) ↔ Plain S) ∧
        (JoinsFaithful S k type ↔ Plain S) := by
  have groups : ∀ t : Table, t.WellFormed → k ∈ t.names → ¬Blurred {v | v ∈ t.cellsOf k} →
      ∀ i < t.numRows, ∀ j < t.numRows,
        (Faithful (t.cell k i) (t.cell k j) (OneGroup t k i j) ↔
          ¬OppositeZeros (t.cell k i) (t.cell k j)) := fun t wf known clear i hi j hj =>
    faithful_iff fun _ _ => oneGroup_iff wf known clear hi hj
  have ties : ∀ t : Table, t.WellFormed → k ∈ t.names → ¬Blurred {v | v ∈ t.cellsOf k} →
      ∀ i < t.numRows, ∀ j < t.numRows,
        (Faithful (t.cell k i) (t.cell k j) (Tied t k i j) ↔
          ¬OppositeZeros (t.cell k i) (t.cell k j)) := fun t wf known clear i hi j hj =>
    faithful_iff fun present present' => tied_iff wf known clear hi hj present present'
  refine ⟨fun a b o => sortCompare_compared, fun t wf known clear i hi j hj =>
    ⟨groups t wf known clear i hi j hj, ties t wf known clear i hi j hj⟩, ?_, fun S => ⟨?_, ?_, ?_⟩⟩
  · intro left right wfl wfr knownl knownr clear i hi j hj
    exact faithful_iff fun present present' =>
      partners_iff wfl wfr knownl knownr clear hi hj present present'
  · refine rowsFaithful_iff groups fun {m n x} less low high => ⟨1, by decide, 2, by decide, ?_⟩
    rw [cell_columnTable, cell_columnTable]
    exact fun faithful => not_oneGroup_blurred less low high
      (faithful.1 (binary_equal.2 (compare?_rounded low).2))
  · refine rowsFaithful_iff ties fun {m n x} less low high => ⟨2, by decide, 0, by decide, ?_⟩
    rw [cell_columnTable, cell_columnTable]
    have below : (Value.int m).compare? (.int n) = some .lt :=
      congrArg some (Int.compare_eq_lt.2 less)
    exact fun faithful => faithful.2 (binary_less.2 below) (tied_blurred low high)
  · exact joinsFaithful_iff

/-- An integer next to the double that it is rounded to, and numbers that are less than one
another. -/
theorem sorting_agrees_rounded :
    let cells : List Value := [.int 9007199254740993, .float 9007199254740992.0, .int 1, .float 1.5]
    let t := columnTable "x" cells
    Plain {v | v ∈ cells} ∧ t.WellFormed ∧
      binary "==" (t.cell "x" 0) (t.cell "x" 1) = .ok (.bool true) ∧
      OneGroup t "x" 0 1 ∧ Tied t "x" 0 1 ∧ Partners t t "x" .full 0 1 ∧
      binary "<" (t.cell "x" 2) (t.cell "x" 3) = .ok (.bool true) ∧
      ¬OneGroup t "x" 2 3 ∧ ¬Tied t "x" 2 3 ∧ ¬Partners t t "x" .full 2 3 := by
  intro cells t
  have known : "x" ∈ t.names := mem_columnTable
  have inside : ∀ v ∈ t.cellsOf "x", v ∈ {v | v ∈ cells} := by
    rw [cellsOf_columnTable]
    exact fun _ => id
  have plain : Plain {v | v ∈ cells} := by
    constructor
    · rintro ⟨i, j, apart, mi, mj, same, -⟩
      have one : i = 9007199254740993 ∨ i = 1 := by simpa [cells] using mi
      have two : j = 9007199254740993 ∨ j = 1 := by simpa [cells] using mj
      obtain rfl | rfl := one <;> obtain rfl | rfl := two
      · exact apart rfl
      · exact absurd same (by decide)
      · exact absurd same (by decide)
      · exact apart rfl
    · rintro a mem b - ⟨x, y, hx, -, zero⟩
      have some : ∀ v ∈ cells, v.toFloat? ≠ some 0.0 ∧ v.toFloat? ≠ some (-0.0) := by decide
      obtain ⟨positive, negative⟩ := some a mem
      obtain ⟨rfl, -⟩ | ⟨rfl, -⟩ := zero
      · exact positive hx
      · exact negative hx
  have equal : binary "==" (t.cell "x" 0) (t.cell "x" 1) = .ok (.bool true) := by decide
  have less : binary "<" (t.cell "x" 2) (t.cell "x" 3) = .ok (.bool true) := by decide
  obtain ⟨-, -, -, sets⟩ := sorting_agrees_iff "x" .full
  obtain ⟨grouped, tied, joined⟩ := sets {v | v ∈ cells}
  have groups := grouped.2 plain t columnTable_wf known inside
  have ties := tied.2 plain t columnTable_wf known inside
  have joins := joined.2 plain t t columnTable_wf columnTable_wf known known
    fun v mem => inside v ((List.mem_append.1 mem).elim id id)
  exact ⟨plain, columnTable_wf, equal, (groups 0 (by decide) 1 (by decide)).1 equal,
    (ties 0 (by decide) 1 (by decide)).1 equal, (joins 0 (by decide) 1 (by decide)).1 equal, less,
    (groups 2 (by decide) 3 (by decide)).2 less, (ties 2 (by decide) 3 (by decide)).2 less,
    (joins 2 (by decide) 3 (by decide)).2 less⟩

/-- The two zeros are equal to the comparison and apart for sorting. Among two integers and the
double that both are equal to, the double and an integer are in two groups or one of them does not
find the other as a partner, and the two integers are in one group or tied. -/
theorem zeros_sorted_apart :
    let zeros := columnTable "x" [.float 0.0, .float (-0.0)]
    let t := columnTable "x"
      [.int 9007199254740993, .float 9007199254740992.0, .int 9007199254740992]
    let u := columnTable "x"
      [.float 9007199254740992.0, .int 9007199254740992, .int 9007199254740993]
    let left := columnTable "x" [.int 9007199254740993]
    let right := columnTable "x" [.float 9007199254740992.0, .int 9007199254740992]
    (Value.float 0.0).compare? (.float (-0.0)) = some .eq ∧
      (Value.float 0.0).sortCompare (.float (-0.0)) = .gt ∧
      binary "==" (zeros.cell "x" 0) (zeros.cell "x" 1) = .ok (.bool true) ∧
      ¬OneGroup zeros "x" 0 1 ∧ ¬Tied zeros "x" 0 1 ∧ ¬Partners zeros zeros "x" .inner 0 1 ∧
      binary "==" (t.cell "x" 1) (t.cell "x" 2) = .ok (.bool true) ∧ ¬OneGroup t "x" 1 2 ∧
      binary "<" (u.cell "x" 1) (u.cell "x" 2) = .ok (.bool true) ∧ OneGroup u "x" 1 2 ∧
      binary "<" (t.cell "x" 2) (t.cell "x" 0) = .ok (.bool true) ∧ Tied t "x" 2 0 ∧
      binary "==" (left.cell "x" 0) (right.cell "x" 0) = .ok (.bool true) ∧
      ¬Partners left right "x" .inner 0 0 := by
  intro zeros t u left right
  have known : "x" ∈ zeros.names := mem_columnTable
  have above : (zeros.cell "x" 0).sortCompare (zeros.cell "x" 1) = .gt := by decide
  have clear : ¬Blurred {v | v ∈ zeros.cellsOf "x"} := by
    rw [cellsOf_columnTable]
    exact not_blurred_pair
  have both : ¬Blurred {v | v ∈ zeros.cellsOf "x" ++ zeros.cellsOf "x"} := fun blurred =>
    clear (blurred.mono fun v mem => (List.mem_append.1 mem).elim id id)
  have group := oneGroup_iff columnTable_wf known clear (i := 0) (j := 1) (by decide) (by decide)
  have tie := tied_iff columnTable_wf known clear (i := 0) (j := 1) (by decide) (by decide)
    (by decide) (by decide)
  have join : Partners zeros zeros "x" .inner 0 1 ↔ _ := partners_iff columnTable_wf
    columnTable_wf known known both (by decide) (by decide) (by decide) (by decide)
  rw [above] at group tie join
  have less : (9007199254740992 : Int64).toInt < (9007199254740993 : Int64).toInt := by decide
  have low : Number.ofInt64 9007199254740992 = 9007199254740992.0 := by decide
  have high : Number.ofInt64 9007199254740993 = 9007199254740992.0 := by decide
  exact ⟨by decide, above, by decide, nofun ∘ group.1, nofun ∘ tie.1, nofun ∘ join.1,
    by decide, not_oneGroup_blurred less low high, by decide, oneGroup_blurred less low high,
    by decide, tied_blurred low high, by decide, not_partners_blurred less low⟩

end TableFlow.Eval
