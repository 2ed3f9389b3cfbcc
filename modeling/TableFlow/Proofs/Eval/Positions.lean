import TableFlow.Proofs.Eval.Keys

/-!
# Positions of rows

Sorting, grouping and joining work on positions of rows. None of them makes a position that its
table does not have, so over columns that a well-formed table has only a sort can fail, and it
does so only where the keys are tangled: each lemma here holds with anything for `bad`, also with
nothing, that has the failure of such a sort.
-/

namespace TableFlow.Eval

open Table

variable {t left right : Table} {bad : EvalError → Prop} {names : List String}
  {positions : List Nat} {cells : List Value} {columns : List (List Value)} {c : String} {i n : Nat}

/-! ## Cells -/

theorem cellsAt_ends (inside : ∀ cells ∈ columns, i < cells.length) :
    Ends (cellsAt columns i) (fun _ => True) bad := by
  obtain ⟨row, found⟩ : ∃ row, columns.mapM (·[i]?) = some row :=
    exists_mapM fun cells mem => ⟨_, List.getElem?_eq_getElem (inside cells mem)⟩
  rw [cellsAt, found]
  exact trivial

theorem columnCells_ends (known : c ∈ t.names) :
    Ends (columnCells t c) (fun cells => t.cells? c = some cells) bad := by
  obtain ⟨cells, found⟩ := exists_cells known
  rw [columnCells, found]
  exact rfl

/-- A list of positions within a column gives as many cells. -/
theorem gatherCells_ends (inside : ∀ i ∈ positions, i < cells.length) :
    Ends (gatherCells cells positions) (fun taken => taken.length = positions.length) bad := by
  refine Ends.mapM_length fun i mem => ?_
  rw [List.getElem?_eq_getElem (inside i mem)]
  exact trivial

theorem keyColumns_ends (wf : t.WellFormed) (known : ∀ c ∈ names, c ∈ t.names) :
    Ends (keyColumns t names) (fun keys => ∀ cells ∈ keys, cells.length = t.numRows) bad := by
  refine (Ends.mapM fun c mem => columnCells_ends (known c mem)).mono (fun keys each => ?_)
    fun _ => id
  intro cells mem
  obtain ⟨c, -, found⟩ := exists_of_forall₂ each mem
  exact wf.length_cells found

theorem keyed_ends (even : ∀ cells ∈ columns, cells.length = n) (inside : ∀ i ∈ positions, i < n) :
    Ends (keyed columns positions) (fun rows => rows.map (·.1) = positions) bad := by
  refine Ends.mapM_map fun i mem => ?_
  have row : Ends (cellsAt columns i) (fun _ => True) bad :=
    cellsAt_ends fun cells column => even cells column ▸ inside i mem
  exact row.bind fun _ _ => rfl

/-! ## Orders and groups -/

/-- Every row has its place in an order. -/
theorem sortPositions_ends {reverse : List String} (wf : t.WellFormed)
    (known : ∀ c ∈ names, c ∈ t.names) (stops : t.Tangled names → bad .unsortable) :
    Ends (sortPositions t names reverse) (fun order => order.Perm (List.range t.numRows)) bad := by
  rw [sortPositions_eq_sort? wf known]
  obtain ⟨order, found, perm⟩ | ⟨none, tangled⟩ := sort?_or_tangled (List.length_range).le
  · rw [found]
    exact perm
  · rw [none]
    exact stops tangled

theorem inside_of_perm {order : List Nat} (perm : order.Perm (List.range n)) :
    ∀ i ∈ order, i < n :=
  fun _ mem => List.mem_range.1 (perm.mem_iff.1 mem)

theorem splitRun_positions {key : List Value} {rows : List (Nat × List Value)} :
    (splitRun key rows).1 ++ (splitRun key rows).2.map (·.1) = rows.map (·.1) := by
  induction rows with
  | nil => rfl
  | cons row rows ih =>
    unfold splitRun
    split
    · simpa using ih
    · rfl

/-- Runs hold the positions of the arrangement, in its order. -/
theorem runs_flatten {rows : List (Nat × List Value)} :
    (runs rows).flatten = rows.map (·.1) := by
  induction rows using runs.induct with
  | case1 => rw [runs, List.flatten_nil, List.map_nil]
  | case2 row rest ih =>
    rw [runs, List.flatten_cons, ih, List.cons_append, splitRun_positions, List.map_cons]

theorem runs_ne_nil {rows : List (Nat × List Value)} : ∀ group ∈ runs rows, group ≠ [] := by
  induction rows using runs.induct with
  | case1 => simp [runs]
  | case2 row rest ih =>
    intro group mem
    rw [runs, List.mem_cons] at mem
    rcases mem with rfl | mem
    · exact List.cons_ne_nil _ _
    · exact ih group mem

/-- Groups of rows of a table: none is empty and none has a row that is not there. -/
structure Grouped (n : Nat) (groups : List (List Nat)) : Prop where
  some : ∀ group ∈ groups, group ≠ []
  inside : ∀ group ∈ groups, ∀ i ∈ group, i < n

theorem groups_ends (wf : t.WellFormed) (known : ∀ c ∈ names, c ∈ t.names)
    (inside : ∀ i ∈ positions, i < t.numRows) :
    Ends (groups t positions names) (fun found => found.flatten = positions ∧
      Grouped t.numRows found) bad := by
  refine (keyColumns_ends wf known).bind fun keys even => ?_
  refine (keyed_ends even inside).bind fun rows same => ?_
  have flat : (runs rows).flatten = positions := runs_flatten.trans same
  refine ⟨flat, runs_ne_nil, fun group mem i row => inside i ?_⟩
  exact flat ▸ List.mem_flatten.2 ⟨group, mem, row⟩

theorem Grouped.heads_inside {groups : List (List Nat)} (grouped : Grouped n groups) :
    ∀ i ∈ groups.filterMap (·.head?), i < n := by
  intro i mem
  obtain ⟨group, within, head⟩ := List.mem_filterMap.1 mem
  exact grouped.inside group within i (List.mem_of_head? head)

/-- Each group has a first row. -/
theorem length_heads {groups : List (List Nat)} (some : ∀ group ∈ groups, group ≠ []) :
    (groups.filterMap (·.head?)).length = groups.length := by
  induction groups with
  | nil => rfl
  | cons group groups ih =>
    obtain ⟨i, rest, rfl⟩ := List.exists_cons_of_ne_nil (some group (List.mem_cons_self ..))
    simpa using ih fun g mem => some g (List.mem_cons_of_mem _ mem)

/-! ## Cuts of an arrangement -/

section
variable {holds wider : Nat → Bool} {size base : Nat}

theorem cutFrom_le : cutFrom holds size base ≤ base + size := by
  fun_induction cutFrom holds size base with
  | case1 size base small here => omega
  | case2 size base small none => omega
  | case3 size base large ih =>
    split at ih <;> rename_i middle
    · rw [if_pos middle]
      omega
    · rw [if_neg middle]
      omega

/-- A cut is behind a position that has the property. -/
theorem lt_cutFrom (some : 0 < size) (here : holds base = true) :
    base < cutFrom holds size base := by
  fun_induction cutFrom holds size base with
  | case1 size base small one => omega
  | case2 size base small none => exact absurd ⟨by omega, here⟩ none
  | case3 size base large ih =>
    simp only [dite_eq_ite] at ih
    by_cases middle : holds (base + size / 2) = true
    · rw [if_pos middle] at ih ⊢
      have := ih (by omega) middle
      omega
    · rw [if_neg middle] at ih ⊢
      exact ih (by omega) here

/-- The cut of a wider property is not before that of a narrower one. Where halving goes on in
different halves, the narrower one stays below the position that only the wider one has. -/
theorem cutFrom_mono (implies : ∀ i, holds i = true → wider i = true) :
    cutFrom holds size base ≤ cutFrom wider size base := by
  fun_induction cutFrom holds size base with
  | case1 size base small here =>
    have same : cutFrom wider size base = base + 1 := by
      rw [cutFrom, if_pos small, if_pos ⟨here.1, implies base here.2⟩]
    exact Nat.le_of_eq same.symm
  | case2 size base small none =>
    rw [cutFrom, if_pos small]
    split <;> omega
  | case3 size base large ih =>
    simp only [dite_eq_ite] at ih
    rw [cutFrom.eq_1 wider, if_neg large]
    by_cases middle : holds (base + size / 2) = true
    · rw [if_pos middle] at ih ⊢
      rw [if_pos (implies _ middle)]
      exact ih
    · rw [if_neg middle] at ih ⊢
      split
      · rename_i reached
        have low : cutFrom holds (size - size / 2) base ≤ base + (size - size / 2) := cutFrom_le
        have high : base + size / 2 < cutFrom wider (size - size / 2) (base + size / 2) :=
          lt_cutFrom (by omega) reached
        omega
      · exact ih

end

/-! ## Pairs of rows -/

/-- The partners of a key are rows of the arrangement. -/
theorem partners_ends {sorted : List (Nat × List Value)} {key : List Value} :
    Ends (partners sorted key) (fun found => ∀ j ∈ found, j ∈ sorted.map (·.1)) bad := by
  unfold partners
  dsimp only
  have implies : ∀ i : Nat, (sorted[i]?.any fun row => risingKeys row.2 key == .lt) = true →
      (sorted[i]?.any fun row => risingKeys row.2 key != .gt) = true := by
    intro i below
    cases found : sorted[i]? with
    | none => simp [found] at below
    | some row =>
      have less : risingKeys row.2 key = .lt := by simpa [found] using below
      simp [less]
  rw [if_neg (Nat.not_lt.2 (cutFrom_mono implies))]
  intro j mem
  obtain ⟨row, within, rfl⟩ := List.mem_map.1 mem
  exact List.mem_map_of_mem (List.mem_of_mem_take (List.mem_of_mem_drop within))

/-- The arrangement of the rows that have a key. -/
theorem sortKeyed_ends (stops : t.Tangled names → bad .unsortable) :
    Ends (sortKeyed 32 risingKeys (presentRows t names))
      (fun sorted => ∀ row ∈ sorted, row.1 < t.numRows) bad := by
  have few : ((List.range t.numRows).filter (present t names)).length ≤ t.numRows :=
    (List.length_filter_le _ _).trans (List.length_range).le
  rw [sortKeyed_presentRows]
  obtain ⟨order, found, perm⟩ | ⟨none, tangled⟩ := sort?_or_tangled few
  · rw [found]
    intro row mem
    obtain ⟨i, within, rfl⟩ := List.mem_map.1 mem
    exact List.mem_range.1 (List.mem_of_mem_filter (perm.mem_iff.1 within))
  · rw [none]
    exact stops tangled

def Pairing.Inside (row : Pairing) (left right : Nat) : Prop :=
  (∀ i ∈ row.left, i < left) ∧ ∀ j ∈ row.right, j < right

theorem leftPairings_ends {keepsLeft : Bool} {sorted keyedLeft : List (Nat × List Value)}
    {m : Nat} (row : i < m) (inside : ∀ row ∈ sorted, row.1 < n) :
    Ends (leftPairings keepsLeft sorted keyedLeft i)
      (fun rows => ∀ row ∈ rows, row.Inside m n) bad := by
  have paired : ∀ found : List Nat, (∀ j ∈ found, j ∈ sorted.map (·.1)) →
      ∀ row ∈ if found.isEmpty && keepsLeft then [⟨some i, none⟩]
        else found.map fun j => ⟨some i, some j⟩, Pairing.Inside row m n := by
    intro found within
    split
    · simp [Pairing.Inside, row]
    · intro pairing mem
      obtain ⟨j, partner, rfl⟩ := List.mem_map.1 mem
      obtain ⟨keyed, place, rfl⟩ := List.mem_map.1 (within j partner)
      simpa [Pairing.Inside, row] using inside keyed place
  unfold leftPairings
  split
  · exact partners_ends.bind paired
  · exact paired [] fun j mem => absurd mem List.not_mem_nil

theorem pairings_ends {keys : List String} {type : JoinType} (wfl : left.WellFormed)
    (wfr : right.WellFormed) (knownl : ∀ c ∈ keys, c ∈ left.names)
    (knownr : ∀ c ∈ keys, c ∈ right.names) (stops : right.Tangled keys → bad .unsortable) :
    Ends (pairings left right keys type)
      (fun rows => ∀ row ∈ rows, row.Inside left.numRows right.numRows) bad := by
  rw [pairings, matchable_eq wfl knownl, matchable_eq wfr knownr]
  refine (sortKeyed_ends stops).bind fun sorted inside => ?_
  refine (Ends.mapM fun i mem =>
    leftPairings_ends (List.mem_range.1 mem) inside).bind fun found each => ?_
  have paired : ∀ row ∈ found.flatten, row.Inside left.numRows right.numRows := by
    intro row mem
    obtain ⟨rows, within, mem⟩ := List.mem_flatten.1 mem
    obtain ⟨_, -, inside⟩ := exists_of_forall₂ each within
    exact inside row mem
  split
  · intro row mem
    rcases List.mem_append.1 mem with mem | mem
    · exact paired row mem
    · obtain ⟨j, alone, rfl⟩ := List.mem_map.1 mem
      simpa [Pairing.Inside] using List.mem_range.1 (List.mem_filter.1 alone).1
  · exact paired

theorem sideCell_ends {side : Option (List Value)} {position : Option Nat}
    (inside : ∀ cells ∈ side, ∀ i ∈ position, i < cells.length) :
    Ends (sideCell side position) (fun _ => True) bad := by
  unfold sideCell
  split
  · rename_i cells i
    rw [List.getElem?_eq_getElem (inside cells rfl i rfl)]
    exact trivial
  · exact trivial

theorem joinedColumn_ends {rows : List Pairing} (wfl : left.WellFormed) (wfr : right.WellFormed)
    (inside : ∀ row ∈ rows, row.Inside left.numRows right.numRows) :
    Ends (joinedColumn left right rows c) (fun _ => True) bad := by
  refine (Ends.mapM_length fun row mem => ?_).bind fun _ _ => trivial
  obtain ⟨insidel, insider⟩ := inside row mem
  have first : Ends (sideCell (left.cells? c) row.left) (fun _ => True) bad :=
    sideCell_ends fun cells found i place => wfl.length_cells found ▸ insidel i place
  have second : Ends (sideCell (right.cells? c) row.right) (fun _ => True) bad :=
    sideCell_ends fun cells found j place => wfr.length_cells found ▸ insider j place
  exact first.bind fun _ _ => second.bind fun _ _ => trivial

end TableFlow.Eval
