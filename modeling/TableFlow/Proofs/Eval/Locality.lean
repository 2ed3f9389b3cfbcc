import TableFlow.Proofs.Eval.Agreement

/-!
# A formula reads its own row

The value of a formula for a row is made of the cells of that row, so a formula that can be
evaluated on a table can be evaluated on rows taken out of it, in any order and more than once,
and gives the values of these rows (`rowwise_taken`). The other direction fails: an error of a
row that is not taken is gone. Columns that the formula does not name count for their length
alone, for its values and for its errors (`rowwise_local`).
-/

namespace TableFlow.Eval

open Table

def cellsOn (positions : List Nat) (cells : List Value) : List Value :=
  positions.map fun i => cells[i]?.getD .null

variable {t r : Table} {positions : List Nat} {cells values : List Value}
  {columns : List (List Value)} {e : Formula} {i n : Nat}

/-! ## Cells of a row -/

theorem length_cellsOn : (cellsOn positions cells).length = positions.length :=
  List.length_map _

theorem cellsOn_range (even : cells.length = n) : cellsOn (List.range n) cells = cells := by
  refine List.ext_getElem (by rw [length_cellsOn, List.length_range, even]) fun i _ h => ?_
  simp [cellsOn, h]

theorem mapM_cellsOn (inside : ∀ i ∈ positions, i < cells.length) :
    positions.mapM (cells[·]?) = some (cellsOn positions cells) := by
  refine mapM_eq_some.2 (List.forall₂_map_right_iff.2 (List.forall₂_same.2 fun i mem => ?_))
  rw [List.getElem?_eq_getElem (inside i mem), Option.getD_some]

theorem cellsAt_eq (inside : ∀ cells ∈ columns, i < cells.length) :
    cellsAt columns i = .ok (columns.map (·[i]?.getD .null)) := by
  have row : columns.mapM (·[i]?) = some (columns.map (·[i]?.getD .null)) := by
    refine mapM_eq_some.2 (List.forall₂_map_right_iff.2 (List.forall₂_same.2 fun cells mem => ?_))
    rw [List.getElem?_eq_getElem (inside cells mem), Option.getD_some]
  rw [cellsAt, row]

/-- Steps for the positions up to a bound give one result for each of them. -/
theorem mapM_range_eq_ok {ε α : Type} {f : Nat → Except ε α} {l : List α} :
    (List.range n).mapM f = .ok l ↔ l.length = n ∧ ∀ i, ∀ h : i < l.length, f i = .ok l[i] := by
  rw [mapM_eq_ok, List.forall₂_iff_get]
  constructor
  · rintro ⟨even, each⟩
    exact ⟨even.symm.trans List.length_range, fun i h => by simpa using each i (even ▸ h) h⟩
  · rintro ⟨rfl, each⟩
    exact ⟨List.length_range, fun i _ h => by simpa using each i h⟩

/-! ## Formulas of a table -/

/-- A formula that has values has one for each row. -/
theorem length_rowwise (wf : t.WellFormed) (h : rowwise t e = .ok values) :
    values.length = t.numRows := by
  cases e with
  | constant v =>
    obtain rfl := Except.ok.inj h
    exact List.length_replicate
  | column name =>
    rw [rowwise] at h
    split at h
    · rename_i cells found
      obtain rfl := Except.ok.inj h
      exact wf.length_cells found
    · cases h
  | apply name args form =>
    rw [rowwise] at h
    split at h
    · cases h
    · obtain ⟨columns, -, h⟩ := bind_eq_ok.1 h
      exact (mapM_range_eq_ok.1 h).1

/-- An application row by row: the values of its arguments, and the answers to each row. -/
theorem rowwise_apply_eq_ok {name : String} {args : List Formula} {form : Form}
    (wf : t.WellFormed) :
    rowwise t (.apply name args form) = .ok values ↔
      (Formula.apply name args form).isWindowCall = false ∧ ∃ columns,
        List.Forall₂ (fun a cells => rowwise t a = .ok cells) args columns ∧
        values.length = t.numRows ∧ ∀ i, ∀ h : i < values.length,
          applyRow name form (columns.map (·[i]?.getD .null)) = .ok values[i] := by
  have row : ∀ {columns : List (List Value)},
      List.Forall₂ (fun a cells => rowwise t a = .ok cells) args columns →
      ∀ i < t.numRows, cellsAt columns i = .ok (columns.map (·[i]?.getD .null)) :=
    fun each i inside => cellsAt_eq fun cells mem => by
      obtain ⟨a, -, evaluated⟩ := exists_of_forall₂ each mem
      rwa [length_rowwise wf evaluated]
  rw [rowwise, rowwiseAll_eq_mapM]
  split
  · rename_i call
    refine iff_of_false (fun answered => ?_) fun plain => ?_
    · cases answered
    · rw [call] at plain
      cases plain.1
  · rename_i call
    show (_ >>= _) = _ ↔ _
    simp only [bind_eq_ok, mapM_eq_ok (f := rowwise t), mapM_range_eq_ok]
    constructor
    · rintro ⟨columns, each, even, answers⟩
      refine ⟨by simpa using call, columns, each, even, fun i h => ?_⟩
      obtain ⟨cells, found, answer⟩ := answers i h
      rw [row each i (even ▸ h), Except.ok.injEq] at found
      exact found ▸ answer
    · rintro ⟨-, columns, each, even, answers⟩
      exact ⟨columns, each, even, fun i h => ⟨_, row each i (even ▸ h), answers i h⟩⟩

/-! ## Rows taken -/

/-- A formula has the values of the rows that are taken: for each row of the taken table its
operands are those of the row that was taken there. -/
theorem rowwise_taken (wf : t.WellFormed) (inside : ∀ i ∈ positions, i < t.numRows)
    (taken : t.take? positions = some r) (e : Formula) :
    ∀ {values}, rowwise t e = .ok values → rowwise r e = .ok (cellsOn positions values) := by
  have rows := take?_numRows_of_inside inside taken
  -- row `j` of the taken table is row `positions[j]`, in a column and in an operand alike
  have at_row : ∀ {j}, ∀ within : j < positions.length, ∀ cells : List Value,
      (cellsOn positions cells)[j]?.getD .null = cells[positions[j]]?.getD .null :=
    fun within cells => by simp [cellsOn, within]
  induction e using Formula.induction with
  | constant v =>
    intro values evaluated
    obtain rfl := Except.ok.inj evaluated
    rw [rowwise, rows, Except.ok.injEq, cellsOn, ← List.map_const']
    refine List.map_congr_left fun i mem => ?_
    simp [inside i mem]
  | column name =>
    intro values evaluated
    rw [rowwise] at evaluated
    split at evaluated
    · rename_i cells found
      obtain rfl := Except.ok.inj evaluated
      have fits : ∀ i ∈ positions, i < cells.length := fun i mem =>
        wf.length_cells found ▸ inside i mem
      rw [rowwise, take?_cells taken, found, Option.bind_some, mapM_cellsOn fits]
    · cases evaluated
  | apply name args form ih =>
    intro values evaluated
    obtain ⟨plain, columns, each, even, answers⟩ := (rowwise_apply_eq_ok wf).1 evaluated
    refine (rowwise_apply_eq_ok (wf.take? taken)).2
      ⟨plain, columns.map (cellsOn positions), ?_, length_cellsOn.trans rows.symm, fun j h => ?_⟩
    · obtain ⟨length, at_arg⟩ := List.forall₂_iff_get.1 each
      rw [List.forall₂_map_right_iff]
      exact List.forall₂_iff_get.2 ⟨length, fun k h h' =>
        ih _ (List.get_mem ..) (at_arg k h h')⟩
    · have within : j < positions.length := length_cellsOn ▸ h
      have place : positions[j] < values.length := even ▸ inside _ (List.getElem_mem within)
      have operands : (columns.map (cellsOn positions)).map (·[j]?.getD .null) =
          columns.map (·[positions[j]]?.getD .null) := by
        rw [List.map_map]
        exact List.map_congr_left fun cells _ => at_row within cells
      rw [operands, answers _ place]
      simp [cellsOn, place]

/-! ## Other columns -/

/-- Cells that are put into a column do not matter to formulas that do not name it. -/
theorem rowwise_setColumn {name : String} (wf : t.WellFormed) (ne : t.names ≠ [])
    (set : t.setColumn name cells = .ok r) (unread : name ∉ e.columns) :
    rowwise r e = rowwise t e := by
  have agree : Agree e.columns r t := by
    refine ⟨(wf.setColumn set ne).2.1, fun c read => ?_⟩
    have other : c ≠ name := by
      rintro rfl
      exact unread read
    rw [setColumn_cells set ne, if_neg other]
  exact rowwise_agree agree e fun c read => Formula.mem_columns.2 read

/-- A formula that has values has those of the taken rows on rows that are taken from the table,
in any order and however often. Its values, or its error, stay what they are on every table with
as many rows and the same cells in the columns that it names; so they do when another column is
given new cells. -/
theorem rowwise_local (wf : t.WellFormed) (e : Formula) :
    (∀ positions values, (∀ i ∈ positions, i < t.numRows) → rowwise t e = .ok values →
      ∃ r gathered, t.take? positions = some r ∧ positions.mapM (values[·]?) = some gathered ∧
        rowwise r e = .ok gathered) ∧
    (∀ r : Table, r.numRows = t.numRows → (∀ c ∈ e.columns, r.cells? c = t.cells? c) →
      rowwise r e = rowwise t e) ∧
    ∀ name ∈ t.names, name ∉ e.columns → ∀ cells, cells.length = t.numRows →
      ∃ r, t.setColumn name cells = .ok r ∧ r.WellFormed ∧ rowwise r e = rowwise t e := by
  refine ⟨fun positions values inside evaluated => ?_, fun r rows cells => ?_,
    fun name mem unread cells even => ?_⟩
  · obtain ⟨r, taken⟩ := wf.exists_take? inside
    have fits : ∀ i ∈ positions, i < values.length := fun i mem =>
      length_rowwise wf evaluated ▸ inside i mem
    exact ⟨r, _, taken, mapM_cellsOn fits, rowwise_taken wf inside taken e evaluated⟩
  · have agree : Agree e.columns r t := ⟨rows, cells⟩
    exact rowwise_agree agree e fun c read => Formula.mem_columns.2 read
  · have ne : t.names ≠ [] := List.ne_nil_of_mem mem
    obtain ⟨r, set⟩ := exists_setColumn even
    exact ⟨r, set, (wf.setColumn set ne).1, rowwise_setColumn wf ne set unread⟩

/-- A row is taken twice, and the error of a formula over two columns stays when the third one
is given new cells. -/
theorem rowwise_local_twice :
    let t : Table := ⟨[⟨"x", [.int 1, .null, .int 3]⟩, ⟨"s", [.text "a", .null, .text "c"]⟩,
      ⟨"y", [.bool true, .null, .bool false]⟩]⟩
    let e := Formula.binary ">" (.column "x") (.int 1)
    let bad := Formula.binary "+" (.column "x") (.column "s")
    t.WellFormed ∧
      (∃ r, t.take? [2, 0, 2, 1] = some r ∧
        rowwise r e = .ok [.bool true, .bool false, .bool true, .null]) ∧
      ∃ r, t.setColumn "y" [.int 4, .int 5, .int 6] = .ok r ∧
        rowwise r bad = .error (.typeMismatch "+" "int" "string") := by
  intro t e bad
  have wf : t.WellFormed := ⟨by decide, by decide⟩
  have evaluated : rowwise t e = .ok [.bool false, .null, .bool true] := by decide
  obtain ⟨r, gathered, taken, same, values⟩ :=
    (rowwise_local wf e).1 [2, 0, 2, 1] _ (by decide) evaluated
  obtain ⟨s, set, -, kept⟩ :=
    (rowwise_local wf bad).2.2 "y" (by decide) (by decide) [.int 4, .int 5, .int 6] rfl
  obtain rfl := Option.some.inj same
  exact ⟨wf, ⟨r, taken, values⟩, s, set, kept.trans (by decide)⟩

end TableFlow.Eval
