import TableFlow.Table.Basic
import TableFlow.Proofs.Lookup
import TableFlow.Proofs.Outcome

/-!
# Columns of a table

What the operations on tables do, column by column: the names they give out, the cells
under each name and the number of rows. A well-formed table stays well-formed.
-/

namespace TableFlow.Table

variable {t r : Table} {c name : String} {cells : List Value} {n : Nat}

/-! ## Names and cells -/

theorem cells?_of_mem (nodup : t.names.Nodup) {col : Column} (h : col ∈ t.columns) :
    t.cells? col.name = some col.cells := by
  rw [cells?, column?, find?_key nodup h]
  rfl

theorem cells?_mem (h : t.cells? c = some cells) : ⟨c, cells⟩ ∈ t.columns := by
  obtain ⟨col, found, rfl⟩ := Option.map_eq_some_iff.1 h
  obtain ⟨mem, rfl⟩ := find?_key_some found
  exact mem

theorem cells?_eq_none : t.cells? c = none ↔ c ∉ t.names := by
  rw [cells?, Option.map_eq_none_iff, column?, find?_key_none, names]

theorem exists_cells (h : c ∈ t.names) : ∃ cells, t.cells? c = some cells :=
  Option.ne_none_iff_exists'.1 fun none => cells?_eq_none.1 none h

theorem numRows_of (ne : t.columns ≠ []) (even : ∀ col ∈ t.columns, col.cells.length = n) :
    t.numRows = n := by
  obtain ⟨columns⟩ := t
  cases columns with
  | nil => exact absurd rfl ne
  | cons col rest => exact even col (List.mem_cons_self ..)

theorem wellFormed_of (nodup : t.names.Nodup)
    (even : ∀ col ∈ t.columns, col.cells.length = n) : t.WellFormed := by
  refine ⟨nodup, fun col h => ?_⟩
  rw [numRows_of (List.ne_nil_of_mem h) even, even col h]

theorem WellFormed.length_cells (wf : t.WellFormed) (h : t.cells? c = some cells) :
    cells.length = t.numRows :=
  wf.even _ (cells?_mem h)

/-- Tables that share a column have as many rows. -/
theorem WellFormed.numRows_eq (wf : t.WellFormed) (wf' : r.WellFormed)
    (h : r.cells? c = t.cells? c) (mem : c ∈ r.names) : r.numRows = t.numRows := by
  obtain ⟨cells, hr⟩ := exists_cells mem
  rw [← wf'.length_cells hr, wf.length_cells (h ▸ hr)]

theorem columns_ne_nil : t.columns ≠ [] ↔ t.names ≠ [] := by
  simp [names]

/-! ## Making a table -/

theorem ofColumns_eq_ok {columns : List Column} :
    ofColumns columns = .ok t ↔ t.WellFormed ∧ ⟨columns⟩ = t := by
  have unique : firstRepeat? [] (columns.map (·.name)) = none ↔
      (columns.map (·.name)).Nodup := by
    simp [firstRepeat?_eq_none]
  have even : columns.find? (·.cells.length ≠ numRows ⟨columns⟩) = none ↔
      ∀ col ∈ columns, col.cells.length = numRows ⟨columns⟩ := by
    simp
  unfold ofColumns
  dsimp only
  constructor
  · intro h
    split at h
    · cases h
    · rename_i distinct
      split at h
      · cases h
      · rename_i same
        cases h
        exact ⟨⟨unique.1 distinct, even.1 same⟩, rfl⟩
  · rintro ⟨wf, rfl⟩
    rw [unique.2 wf.nodup, even.2 wf.even]

/-! ## Tables made column by column -/

section
variable {listed : List String} {content : String → List Value}

theorem names_map : Table.names ⟨listed.map fun c => ⟨c, content c⟩⟩ = listed := by
  rw [names, List.map_map]
  exact List.map_id' _

theorem wellFormed_map (nodup : listed.Nodup) (even : ∀ c ∈ listed, (content c).length = n) :
    Table.WellFormed ⟨listed.map fun c => ⟨c, content c⟩⟩ := by
  refine wellFormed_of (n := n) (names_map.symm ▸ nodup) fun col mem => ?_
  obtain ⟨c, here, rfl⟩ := List.mem_map.1 mem
  exact even c here

/-- A table is known by its names and the cells under each of them. -/
theorem WellFormed.eq_map (wf : t.WellFormed) (same : t.names = listed)
    (cells : ∀ c ∈ listed, t.cells? c = some (content c)) :
    t = ⟨listed.map fun c => ⟨c, content c⟩⟩ := by
  obtain ⟨columns⟩ := t
  subst same
  rw [Table.mk.injEq, names, List.map_map]
  refine (List.map_id' columns).symm.trans (List.map_congr_left fun col mem => ?_)
  have own := cells col.name (List.mem_map_of_mem mem)
  rw [cells?_of_mem wf.nodup mem, Option.some.injEq] at own
  exact congrArg (Column.mk col.name) own

theorem WellFormed.eq_of_cells (wf : t.WellFormed) (wf' : r.WellFormed) (same : r.names = t.names)
    (cells : ∀ c ∈ t.names, r.cells? c = t.cells? c) : r = t := by
  have own : ∀ c ∈ t.names, t.cells? c = some ((t.cells? c).getD []) := fun c mem => by
    obtain ⟨found, h⟩ := exists_cells mem
    rw [h, Option.getD_some]
  exact (wf'.eq_map same fun c mem => (cells c mem).trans (own c mem)).trans
    (wf.eq_map rfl own).symm

end

/-! ## Choosing and taking -/

theorem column?_name {col : Column} (h : t.column? c = some col) : col.name = c :=
  (find?_key_some h).2

theorem map_name_filterMap {names : List String}
    (found : ∀ c ∈ names, ∃ col, t.column? c = some col) :
    (names.filterMap t.column?).map (·.name) = names := by
  induction names with
  | nil => rfl
  | cons c names ih =>
    obtain ⟨col, h⟩ := found c (List.mem_cons_self ..)
    rw [List.filterMap_cons_some h, List.map_cons, column?_name h,
      ih fun d hd => found d (List.mem_cons_of_mem _ hd)]

theorem select_eq_ok {names : List String} (h : t.select names = .ok r) :
    r.WellFormed ∧ r.names = names ∧ ∀ c ∈ names, r.cells? c = t.cells? c := by
  unfold select at h
  split at h
  · rename_i missing
    have found : ∀ c ∈ names, ∃ col, t.column? c = some col := fun c hc => by
      simpa [Option.ne_none_iff_exists'] using List.filter_eq_nil_iff.1 missing c hc
    obtain ⟨wf, rfl⟩ := ofColumns_eq_ok.1 h
    refine ⟨wf, map_name_filterMap found, fun c hc => ?_⟩
    obtain ⟨col, h⟩ := found c hc
    have mem : col ∈ names.filterMap t.column? := List.mem_filterMap.2 ⟨c, hc, h⟩
    rw [cells?.eq_1 t, h, ← column?_name h]
    exact cells?_of_mem wf.nodup mem
  · cases h

/-- A column whose cells are those of another at some positions. -/
def Taken (positions : List Nat) (col new : Column) : Prop :=
  new.name = col.name ∧ positions.mapM (col.cells[·]?) = some new.cells

section Taken
variable {positions : List Nat}

theorem Taken.length_cells {col new : Column} (h : Taken positions col new) :
    new.cells.length = positions.length :=
  (mapM_eq_some.1 h.2).length_eq.symm

theorem take?_columns (h : t.take? positions = some r) :
    List.Forall₂ (Taken positions) t.columns r.columns := by
  obtain ⟨columns, taken, rfl⟩ := Option.map_eq_some_iff.1 h
  refine (mapM_eq_some.1 taken).imp fun col new step => ?_
  obtain ⟨cells, got, rfl⟩ := Option.map_eq_some_iff.1 step
  exact ⟨rfl, got⟩

theorem names_taken {l l' : List Column} (h : List.Forall₂ (Taken positions) l l') :
    l'.map (·.name) = l.map (·.name) := by
  induction h with
  | nil => rfl
  | cons step _ ih => rw [List.map_cons, List.map_cons, step.1, ih]

theorem find?_taken {l l' : List Column} (h : List.Forall₂ (Taken positions) l l') :
    (l'.find? (·.name = c)).map (·.cells) =
      ((l.find? (·.name = c)).map (·.cells)).bind fun cells => positions.mapM (cells[·]?) := by
  induction h with
  | nil => rfl
  | @cons col new _ _ step _ ih =>
    by_cases same : col.name = c
    · have same' : new.name = c := step.1.trans same
      simp [same, same', step.2]
    · have same' : new.name ≠ c := fun e => same (step.1.symm.trans e)
      simpa [same, same'] using ih

theorem take?_names (h : t.take? positions = some r) : r.names = t.names :=
  names_taken (take?_columns h)

/-- Rows are taken in each column alike. -/
theorem take?_cells (h : t.take? positions = some r) :
    r.cells? c = (t.cells? c).bind fun cells => positions.mapM (cells[·]?) :=
  find?_taken (take?_columns h)

theorem length_taken (h : t.take? positions = some r) :
    ∀ new ∈ r.columns, new.cells.length = positions.length := by
  intro new mem
  obtain ⟨_, -, step⟩ := exists_of_forall₂ (take?_columns h) mem
  exact step.length_cells

theorem WellFormed.take? (wf : t.WellFormed) (h : t.take? positions = some r) :
    r.WellFormed :=
  wellFormed_of (take?_names h ▸ wf.nodup) (length_taken h)

theorem take?_numRows (ne : t.names ≠ []) (h : t.take? positions = some r) :
    r.numRows = positions.length :=
  numRows_of (columns_ne_nil.2 (take?_names h ▸ ne)) (length_taken h)

/-- Rows that are there are all taken, also from a table without columns. -/
theorem take?_numRows_of_inside (inside : ∀ i ∈ positions, i < t.numRows)
    (h : t.take? positions = some r) : r.numRows = positions.length := by
  by_cases none : t.names = []
  · have empty : t.columns = [] := List.map_eq_nil_iff.1 none
    have empty' : r.columns = [] := List.map_eq_nil_iff.1 ((take?_names h).trans none)
    have nowhere : positions = [] := by
      refine List.eq_nil_iff_forall_not_mem.2 fun i mem => ?_
      simpa [numRows, empty] using inside i mem
    rw [numRows, empty', nowhere]
    rfl
  · exact take?_numRows none h

/-- Rows that are there can be taken. -/
theorem WellFormed.exists_take? (wf : t.WellFormed) (inside : ∀ i ∈ positions, i < t.numRows) :
    ∃ r, t.take? positions = some r := by
  have column : ∀ col ∈ t.columns, ∃ new : Column, ((positions.mapM (col.cells[·]?)).map
      fun cells => { col with cells := cells }) = some new := by
    intro col mem
    obtain ⟨cells, found⟩ := exists_mapM fun i place =>
      ⟨_, List.getElem?_eq_getElem (wf.even col mem ▸ inside i place)⟩
    exact ⟨_, by rw [found]; rfl⟩
  obtain ⟨columns, made⟩ := exists_mapM column
  exact ⟨⟨columns⟩, by rw [Table.take?, made]; rfl⟩

end Taken

/-! ## Putting in and leaving out -/

/-- Where a column stands. -/
theorem columnIndex?_eq_some {i : Nat} (h : t.columnIndex? name = some i) :
    ∃ before col after, t.columns = before ++ col :: after ∧ before.length = i ∧
      col.name = name ∧ ∀ b ∈ before, b.name ≠ name := by
  obtain ⟨lt, here, before⟩ := List.findIdx?_eq_some_iff_getElem.1 h
  refine ⟨t.columns.take i, t.columns[i], t.columns.drop (i + 1), ?_, ?_, ?_, ?_⟩
  · simp
  · simp
    omega
  · simpa using here
  · intro b hb
    obtain ⟨j, hj, rfl⟩ := List.mem_take_iff_getElem.1 hb
    simpa using before j (by omega)

theorem columnIndex?_eq_none (h : t.columnIndex? name = none) : name ∉ t.names := by
  rw [names, List.mem_map]
  rintro ⟨col, mem, rfl⟩
  simpa using List.findIdx?_eq_none_iff.1 h col mem

theorem modify_middle {α : Type} {f : α → α} {before after : List α} {a : α} :
    (before ++ a :: after).modify before.length f = before ++ f a :: after := by
  induction before with
  | nil => rfl
  | cons b before ih => simpa using ih

theorem eraseIdx_middle {α : Type} {before after : List α} {a : α} :
    (before ++ a :: after).eraseIdx before.length = before ++ after := by
  induction before with
  | nil => rfl
  | cons b before ih => simpa using ih

/-- The column of a name among others. -/
theorem find?_middle {before after : List Column} {col : Column}
    (apart : ∀ b ∈ before, b.name ≠ col.name) :
    (before ++ col :: after).find? (·.name = c) =
      if c = col.name then some col else (before ++ after).find? (·.name = c) := by
  rw [List.find?_append, List.find?_append]
  by_cases same : c = col.name
  · subst same
    have none : before.find? (·.name = col.name) = none :=
      List.find?_eq_none.2 fun b hb => by simpa using apart b hb
    simp [none]
  · simp [same, Ne.symm same]

/-- A column is replaced where it stands or added at the end. -/
theorem setColumn_eq_ok (h : t.setColumn name cells = .ok r) (ne : t.names ≠ []) :
    cells.length = t.numRows ∧
      ((∃ before col after, t.columns = before ++ col :: after ∧
        r.columns = before ++ ⟨name, cells⟩ :: after ∧ col.name = name ∧
        ∀ b ∈ before, b.name ≠ name) ∨
      name ∉ t.names ∧ r.columns = t.columns ++ [⟨name, cells⟩]) := by
  unfold setColumn at h
  split at h
  · cases h
  · rename_i fits
    refine ⟨by simpa [columns_ne_nil, ne] using fits, ?_⟩
    split at h
    · rename_i i found
      cases h
      obtain ⟨before, col, after, split, rfl, rfl, apart⟩ := columnIndex?_eq_some found
      refine .inl ⟨before, col, after, split, ?_, rfl, apart⟩
      rw [split, modify_middle]
    · rename_i absent
      cases h
      exact .inr ⟨columnIndex?_eq_none absent, rfl⟩

/-- Cells of the table's length can be put in. -/
theorem exists_setColumn (even : cells.length = t.numRows) :
    ∃ r, t.setColumn name cells = .ok r := by
  unfold setColumn
  rw [if_neg fun ragged => ragged.2 even]
  split <;> exact ⟨_, rfl⟩

theorem setColumn_cells (h : t.setColumn name cells = .ok r) (ne : t.names ≠ []) :
    r.cells? c = if c = name then some cells else t.cells? c := by
  unfold cells? column?
  obtain ⟨-, ⟨before, col, after, split, split', rfl, apart⟩ | ⟨absent, added⟩⟩ :=
    setColumn_eq_ok h ne
  · have apart' : ∀ b ∈ before, b.name ≠ (Column.mk col.name cells).name := apart
    rw [split, split', find?_middle apart, find?_middle apart']
    by_cases same : c = col.name <;> simp [same]
  · rw [added, List.find?_append]
    by_cases same : c = name
    · rw [same, find?_key_none.2 absent]
      simp
    · simp [same, Ne.symm same]

theorem WellFormed.setColumn (wf : t.WellFormed) (h : t.setColumn name cells = .ok r)
    (ne : t.names ≠ []) : r.WellFormed ∧ r.numRows = t.numRows ∧ r.names ≠ [] := by
  obtain ⟨fits, place⟩ := setColumn_eq_ok h ne
  have old_or_new : ∀ col ∈ r.columns, col ∈ t.columns ∨ col = ⟨name, cells⟩ := by
    intro col mem
    obtain ⟨before, old, after, split, split', -, -⟩ | ⟨-, added⟩ := place
    · rw [split', List.mem_append, List.mem_cons] at mem
      rw [split, List.mem_append, List.mem_cons]
      tauto
    · rwa [added, List.mem_append, List.mem_singleton] at mem
  have even : ∀ col ∈ r.columns, col.cells.length = t.numRows := by
    intro col mem
    rcases old_or_new col mem with old | rfl
    · exact wf.even col old
    · exact fits
  have nodup := wf.nodup
  obtain ⟨before, old, after, split, split', rfl, -⟩ | ⟨absent, added⟩ := place
  · rw [names, split] at nodup
    refine ⟨wellFormed_of ?_ even, numRows_of (by simp [split']) even,
      columns_ne_nil.1 (by simp [split'])⟩
    rw [names, split']
    simpa using nodup
  · refine ⟨wellFormed_of ?_ even, numRows_of (by simp [added]) even,
      columns_ne_nil.1 (by simp [added])⟩
    rw [names, added, List.map_append]
    refine List.nodup_append.2 ⟨nodup, by simp, ?_⟩
    rintro c hc _ hd rfl
    obtain rfl : c = name := List.mem_singleton.1 hd
    exact absent hc

/-- Without a column, the others are as before. -/
theorem removeColumn_columns (nodup : t.names.Nodup) :
    (t.removeColumn name).1.columns = t.columns.filter (·.name ≠ name) := by
  have keep : ∀ {l : List Column}, (∀ col ∈ l, col.name ≠ name) →
      l.filter (·.name ≠ name) = l := fun h => List.filter_eq_self.2 fun col mem => by
    simpa using h col mem
  unfold removeColumn
  split
  · rename_i i found
    obtain ⟨before, col, after, split, rfl, rfl, apart⟩ := columnIndex?_eq_some found
    rw [names, split, List.map_append, List.map_cons] at nodup
    have fresh := (List.nodup_cons.1 (List.nodup_append.1 nodup).2.1).1
    have apart' : ∀ b ∈ after, b.name ≠ col.name := fun b mem same =>
      fresh (same ▸ List.mem_map_of_mem mem)
    rw [split, eraseIdx_middle, List.filter_append, List.filter_cons_of_neg (by simp),
      keep apart, keep apart']
  · rename_i absent
    exact (keep fun col mem same =>
      columnIndex?_eq_none absent (same ▸ List.mem_map_of_mem mem)).symm

def without (t : Table) (dropped : List String) : Table :=
  ⟨t.columns.filter (!dropped.contains ·.name)⟩

theorem removeAll_eq_without {dropped : List String} (nodup : t.names.Nodup) :
    dropped.foldl (fun t name => (t.removeColumn name).1) t = t.without dropped := by
  induction dropped generalizing t with
  | nil => simp [without]
  | cons name rest ih =>
    have columns : (t.removeColumn name).1.columns = _ := removeColumn_columns nodup
    have nodup' : (t.removeColumn name).1.names.Nodup := by
      rw [names, columns]
      exact nodup.sublist (List.filter_sublist.map _)
    rw [List.foldl_cons, ih nodup', without, without, columns, List.filter_filter]
    congr 2
    funext col
    by_cases h : col.name = name <;> simp [h]

theorem names_without {dropped : List String} :
    (t.without dropped).names = t.names.filter (!dropped.contains ·) := by
  simp [without, names, List.filter_map, Function.comp_def]

theorem WellFormed.without {dropped : List String} (wf : t.WellFormed) :
    (t.without dropped).WellFormed :=
  wellFormed_of (names_without ▸ wf.nodup.filter _) fun col mem =>
    wf.even col (List.mem_filter.1 mem).1

theorem cells?_without {dropped : List String} (h : c ∉ dropped) :
    (t.without dropped).cells? c = t.cells? c := by
  rw [cells?, cells?, column?, column?, without, List.find?_filter]
  congr 2
  funext col
  by_cases same : col.name = c
  · simp [same, h]
  · simp [same]

/-- Columns removed one after the other: the others stay as they are. -/
theorem WellFormed.removeAll (wf : t.WellFormed) {dropped : List String} {r : Table}
    (h : dropped.foldl (fun t name => (t.removeColumn name).1) t = r) :
    r.WellFormed ∧ r.names = t.names.filter (!dropped.contains ·) ∧
      ∀ c ∈ r.names, r.cells? c = t.cells? c := by
  rw [removeAll_eq_without wf.nodup] at h
  subst h
  refine ⟨wf.without, names_without, fun c mem => cells?_without fun removed => ?_⟩
  rw [names_without, List.mem_filter] at mem
  simp [removed] at mem

end TableFlow.Table
