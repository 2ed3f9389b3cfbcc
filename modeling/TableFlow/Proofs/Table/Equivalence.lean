import TableFlow.Table.Basic
import TableFlow.Proofs.Eval.Keys
import TableFlow.Proofs.Value.Nearness
import Mathlib.Data.List.FinRange
import Mathlib.Data.List.NodupEquivFin

/-!
# Tables with the same rows

Equivalence sorts the rows of two tables and compares them one by one. `NearTables` asks for any
pairing of the rows in which partners are near each other. Equivalent tables have one
(`sameRows_of_equivalent`), and on a set of rows the two are the same just if partners can be
exchanged there (`equivalent_exact_iff`): sorting pairs the rows by their exact cells, and numbers
that are near but not equal in one column can turn the order of rows around that are apart in the
next. Where near cells are equal to the sort, as without doubles, partners can be exchanged
(`orderly_rows`).
-/

namespace TableFlow.Table

open Value

variable {t a b r : Table} {names : List String} {tolerance : Float}

/-! ## Rows by name -/

/-- The rows, with their cells in the order of some names. -/
def rowsBy (t : Table) (names : List String) : List (List Value) :=
  (List.range t.numRows).map (t.key names)

theorem rows_eq (wf : t.WellFormed) : t.rows = t.rowsBy t.names := by
  have row : ∀ i ∈ List.range t.numRows, t.row? i = some (t.key t.names i) := by
    intro i mem
    rw [row?, key, names, List.map_map, mapM_eq_some, List.forall₂_map_right_iff,
      List.forall₂_same]
    intro col mem'
    have known : col.name ∈ t.names := List.mem_map_of_mem mem'
    rw [← Eval.cellsOf_column wf mem']
    exact Eval.getElem?_cellsOf wf known (List.mem_range.1 mem)
  rw [rows, rowsBy, ← List.filterMap_eq_map]
  exact List.filterMap_congr row

theorem exists_select (wf : t.WellFormed) (nodup : names.Nodup) (known : ∀ c ∈ names, c ∈ t.names) :
    ∃ r, t.select names = .ok r := by
  have found : ∀ c ∈ names, ∃ col, t.column? c = some col := by
    intro c mem
    obtain ⟨cells, found⟩ := exists_cells (known c mem)
    obtain ⟨col, found, -⟩ := Option.map_eq_some_iff.1 found
    exact ⟨col, found⟩
  have missing : names.filter (fun n => (t.column? n).isNone) = [] := by
    refine List.filter_eq_nil_iff.2 fun c mem => ?_
    obtain ⟨col, found⟩ := found c mem
    simp [found]
  have even : ∀ col ∈ names.filterMap t.column?, col.cells.length = t.numRows := by
    intro col mem
    obtain ⟨c, -, found⟩ := List.mem_filterMap.1 mem
    exact wf.even col (find?_key_some found).1
  rw [select, missing]
  refine ⟨_, ofColumns_eq_ok.2 ⟨wellFormed_of ?_ even, rfl⟩⟩
  rwa [Table.names, map_name_filterMap found]

/-- Choosing columns leaves the rows by their names as they are. -/
theorem select_rows (chosen : t.select names = .ok r) (same : r.numRows = t.numRows) :
    r.rows = t.rowsBy names := by
  obtain ⟨wfr, namesr, cells⟩ := select_eq_ok chosen
  rw [rows_eq wfr, namesr, rowsBy, rowsBy, same]
  refine List.map_congr_left fun i _ => List.map_congr_left fun c mem => ?_
  rw [cell, cell, cellsOf, cellsOf, cells c mem]

theorem numRows_eq_zero (none : t.names = []) : t.numRows = 0 := by
  obtain ⟨columns⟩ := t
  obtain rfl := List.map_eq_nil_iff.1 none
  rfl

/-- Chosen in the order of another table, the columns keep the number of rows. -/
theorem numRows_select (wf : t.WellFormed) (chosen : t.select names = .ok r)
    (all : ∀ c ∈ t.names, c ∈ names) : r.numRows = t.numRows := by
  obtain ⟨wfr, namesr, cells⟩ := select_eq_ok chosen
  cases names with
  | nil =>
    have none : t.names = [] := List.eq_nil_iff_forall_not_mem.2 fun c mem => by cases all c mem
    rw [numRows_eq_zero namesr, numRows_eq_zero none]
  | cons c names =>
    exact wf.numRows_eq wfr (cells c (List.mem_cons_self ..)) (namesr ▸ List.mem_cons_self ..)

/-! ## Equivalence as a matching of sorted rows -/

def SameNames (a b : Table) : Prop := ∀ c, c ∈ a.names ↔ c ∈ b.names

def Near (tolerance : Float) (r s : List Value) : Prop := nearRow tolerance r s = true

theorem sortRows?_perm {rows sorted : List (List Value)} (found : sortRows? rows = some sorted) :
    sorted.Perm rows :=
  sort?_keeps _ _ found

theorem length_rowsBy : (t.rowsBy names).length = t.numRows := by
  simp [rowsBy]

theorem sameNames_of_select (wfa : a.WellFormed)
    (columns : a.numColumns = b.numColumns) (chosen : b.select a.names = .ok r) :
    SameNames a b := by
  obtain ⟨-, namesr, cells⟩ := select_eq_ok chosen
  have known : a.names ⊆ b.names := by
    intro c mem
    obtain ⟨cs, found⟩ := exists_cells (t := r) (namesr ▸ mem)
    by_contra absent
    rw [cells c mem, cells?_eq_none.2 absent] at found
    cases found
  have length : a.names.length = b.names.length := by
    simpa [names, numColumns] using columns
  intro c
  exact ((List.subperm_of_subset wfa.nodup known).perm_of_length_le length.ge).mem_iff

theorem equivalent?_iff (wfa : a.WellFormed) (wfb : b.WellFormed) :
    a.equivalent? tolerance b = some true ↔ SameNames a b ∧
      ∃ l m, sortRows? (a.rowsBy a.names) = some l ∧ sortRows? (b.rowsBy a.names) = some m ∧
        List.Forall₂ (Near tolerance) l m := by
  constructor
  · intro h
    unfold equivalent? at h
    split at h
    · cases h
    · rename_i same
      obtain ⟨columns, rows⟩ := not_or.1 same
      split at h
      · cases h
      · rename_i r chosen
        have same := sameNames_of_select wfa (not_not.1 columns) chosen
        have count := numRows_select wfb chosen fun c mem => (same c).2 mem
        rw [rows_eq wfa, select_rows chosen count] at h
        obtain ⟨l, left, h⟩ := Option.bind_eq_some_iff.1 h
        obtain ⟨m, right, h⟩ := Option.bind_eq_some_iff.1 h
        refine ⟨same, l, m, left, right, List.forall₂_iff_zip.2 ⟨?_, fun {r s} mem => ?_⟩⟩
        · rw [(sortRows?_perm left).length_eq, (sortRows?_perm right).length_eq, length_rowsBy,
            length_rowsBy, not_not.1 rows]
        · exact List.all_eq_true.1 (Option.some.inj h) (r, s) mem
  · rintro ⟨same, l, m, left, right, matched⟩
    have rows : a.numRows = b.numRows := by
      have length := matched.length_eq
      rwa [(sortRows?_perm left).length_eq, (sortRows?_perm right).length_eq, length_rowsBy,
        length_rowsBy] at length
    have columns : a.numColumns = b.numColumns := by
      have perm := (List.perm_ext_iff_of_nodup wfa.nodup wfb.nodup).2 same
      simpa [names, numColumns] using perm.length_eq
    obtain ⟨r, chosen⟩ := exists_select wfb wfa.nodup fun c mem => (same c).1 mem
    have count := numRows_select wfb chosen fun c mem => (same c).2 mem
    unfold equivalent?
    rw [if_neg (by simp [rows, columns]), chosen]
    dsimp only
    rw [rows_eq wfa, select_rows chosen count, left, right]
    refine congrArg some (List.all_eq_true.2 fun pair mem => ?_)
    obtain ⟨r, s⟩ := pair
    exact (List.forall₂_iff_zip.1 matched).2 mem

/-! ## Rows paired off -/

/-- Two tables have the same rows up to a relation of cells: they have the same column names, and
their rows can be paired off so that the cells of one column are related. -/
def SameRows (related : Value → Value → Prop) (a b : Table) : Prop :=
  SameNames a b ∧ ∃ pairing : Fin a.numRows ≃ Fin b.numRows,
    ∀ i : Fin a.numRows, ∀ c ∈ a.names, related (a.cell c i) (b.cell c (pairing i))

theorem map_range {α : Type} {n : Nat} (f : Nat → α) :
    (List.range n).map f = (List.finRange n).map fun i : Fin n => f i := by
  rw [← List.map_coe_finRange_eq_range, List.map_map, Function.comp_def]

/-- Positions are paired off by rearranging one side. -/
theorem exists_pairing_iff {α β : Type} {n m : Nat} {f : Nat → α} {g : Nat → β}
    {R : α → β → Prop} :
    (∃ pairing : Fin n ≃ Fin m, ∀ i : Fin n, R (f i) (g (pairing i))) ↔
      ∃ l, List.Forall₂ R ((List.range n).map f) l ∧ l.Perm ((List.range m).map g) := by
  rw [map_range, map_range]
  constructor
  · rintro ⟨pairing, related⟩
    have moved : ((List.finRange n).map pairing).Perm (List.finRange m) :=
      (List.perm_ext_iff_of_nodup ((List.nodup_finRange n).map pairing.injective)
        (List.nodup_finRange m)).2 fun j => by
          simpa using ⟨pairing.symm j, pairing.apply_symm_apply j⟩
    refine ⟨(List.finRange n).map fun i => g (pairing i), ?_, ?_⟩
    · simpa [List.forall₂_map_left_iff, List.forall₂_map_right_iff, List.forall₂_same] using related
    · have rows := moved.map fun j : Fin m => g j
      rwa [List.map_map] at rows
  · rintro ⟨l, related, perm⟩
    have split := congrFun (congrFun (List.eq_map_comp_perm fun j : Fin m => g j) l)
      (List.finRange m)
    obtain ⟨positions, rfl, moved⟩ := (iff_of_eq split).2 perm
    have nodup : positions.Nodup := moved.nodup_iff.2 (List.nodup_finRange m)
    have all : ∀ j, j ∈ positions := fun j => moved.mem_iff.2 (List.mem_finRange j)
    have length : n = positions.length := by simpa using related.length_eq
    refine ⟨(finCongr length).trans (nodup.getEquivOfForallMemList positions all), fun i => ?_⟩
    have here := related.get (i := i) (by simp) (by simp [← length])
    simpa using here

theorem sameRows_iff {related : Value → Value → Prop} {R : List Value → List Value → Prop}
    (cells : ∀ i j, R (a.key a.names i) (b.key a.names j) ↔
      ∀ c ∈ a.names, related (a.cell c i) (b.cell c j)) :
    SameRows related a b ↔ SameNames a b ∧
      ∃ l, List.Forall₂ R (a.rowsBy a.names) l ∧ l.Perm (b.rowsBy a.names) := by
  rw [SameRows, rowsBy, rowsBy, ← exists_pairing_iff]
  simp only [cells]

/-- Two tables have the same rows up to a tolerance between numbers. -/
abbrev NearTables (tolerance : Float) (a b : Table) : Prop :=
  SameRows (fun v w => v.near tolerance w = true) a b

theorem near_key {i j : Nat} : Near tolerance (a.key names i) (b.key names j) ↔
    ∀ c ∈ names, (a.cell c i).near tolerance (b.cell c j) = true := by
  simp [Near, nearRow, key, List.zip_map']

/-- Equivalent tables have the same rows. -/
theorem sameRows_of_equivalent (wfa : a.WellFormed) (wfb : b.WellFormed)
    (h : a.equivalent? tolerance b = some true) : NearTables tolerance a b := by
  obtain ⟨same, l, m, left, right, matched⟩ := (equivalent?_iff wfa wfb).1 h
  obtain ⟨m', matched, perm⟩ := List.perm_comp_forall₂ (sortRows?_perm left).symm matched
  exact (sameRows_iff fun _ _ => near_key).2
    ⟨same, m', matched, perm.trans (sortRows?_perm right)⟩

/-! ## Where partners can be exchanged -/

def NoGreater (r s : List Value) : Prop := (compareRows r s).isLE = true

/-- The rows of a set that are near one of them. -/
def Matched (tolerance : Float) (R : Set (List Value)) : Set (List Value) :=
  {r ∈ R | ∃ s ∈ R, Near tolerance r s}

/-- In a set of rows, partners can be exchanged, and those that can be partners are ordered. -/
structure Orderly (tolerance : Float) (R : Set (List Value)) : Prop where
  exchange : Exchange NoGreater (Near tolerance) R
  trans : ∀ r ∈ Matched tolerance R, ∀ s ∈ Matched tolerance R, ∀ u ∈ Matched tolerance R,
    NoGreater r s → NoGreater s u → NoGreater r u

theorem Near.symm {r s : List Value} (h : Near tolerance r s) : Near tolerance s r := by
  unfold Near nearRow at h ⊢
  induction r generalizing s with
  | nil => cases s <;> rfl
  | cons v r ih =>
    cases s with
    | nil => rfl
    | cons w s =>
      rw [List.zip_cons_cons, List.all_cons, Bool.and_eq_true] at h ⊢
      exact ⟨(near_comm w v).trans h.1, ih h.2⟩

/-- Rows of an ordered set are put in rising order. -/
theorem exists_sorted {R : Set (List Value)} {rows : List (List Value)}
    (trans : ∀ r ∈ R, ∀ s ∈ R, ∀ u ∈ R, NoGreater r s → NoGreater s u → NoGreater r u)
    (inside : ∀ r ∈ rows, r ∈ R) :
    ∃ sorted, sortRows? rows = some sorted ∧ sorted.Pairwise NoGreater := by
  have ordered : Std.TransCmp fun r s : R => compareRows r s :=
    { eq_swap := compareRows_swap _ _
      isLE_trans := fun {r s u} => trans r r.2 s s.2 u u.2 }
  obtain ⟨rows, rfl⟩ : ∃ l : List R, l.map Subtype.val = rows :=
    ⟨rows.attachWith _ inside, List.attachWith_map_subtype_val _⟩
  have given : rows.Pairwise fun _ _ => True := List.pairwise_of_forall fun _ _ => trivial
  have rising : (sortStable (fun r s : R => compareRows r s == .lt) rows).Pairwise
      (InOrder (fun r s : R => compareRows r s) fun _ _ => True) := sortStable_pairwise given
  refine ⟨_, ?_, List.pairwise_map.2 (rising.imp fun h => h.isLE)⟩
  rw [sortRows?, sort?_map, sort?_eq_sortStable]
  rfl

theorem equivalent_of_sameRows {R : Set (List Value)} (orderly : Orderly tolerance R)
    (wfa : a.WellFormed) (wfb : b.WellFormed) (inside : ∀ r ∈ a.rowsBy a.names, r ∈ R)
    (inside' : ∀ r ∈ b.rowsBy a.names, r ∈ R) (same : NearTables tolerance a b) :
    a.equivalent? tolerance b = some true := by
  obtain ⟨names, l, matched, perm⟩ := (sameRows_iff fun _ _ => near_key).1 same
  have left : ∀ r ∈ a.rowsBy a.names, r ∈ Matched tolerance R := by
    intro r mem
    obtain ⟨s, partner, near⟩ := exists_of_forall₂ matched.flip mem
    exact ⟨inside r mem, s, inside' s (perm.mem_iff.1 partner), near⟩
  have right : ∀ s ∈ b.rowsBy a.names, s ∈ Matched tolerance R := by
    intro s mem
    obtain ⟨r, partner, near⟩ := exists_of_forall₂ matched (perm.mem_iff.2 mem)
    exact ⟨inside' s mem, r, inside r partner, Near.symm near⟩
  obtain ⟨m, sorted, rising⟩ := exists_sorted orderly.trans left
  obtain ⟨m', sorted', rising'⟩ := exists_sorted orderly.trans right
  have perma := sortRows?_perm sorted
  have permb := sortRows?_perm sorted'
  obtain ⟨l', matched', perm'⟩ := List.perm_comp_forall₂ perma matched
  refine (equivalent?_iff wfa wfb).2 ⟨names, m, m', sorted, sorted',
    forall₂_sorted orderly.exchange ?_ ?_ rising rising' matched'
      (perm'.trans (perm.trans permb.symm))⟩
  · exact fun r mem => inside r (perma.mem_iff.1 mem)
  · exact fun s mem => inside' s (permb.mem_iff.1 mem)

/-! ## Where they cannot -/

/-- There is a table of any rows of one width. -/
theorem exists_table {rows : List (List Value)} (nodup : names.Nodup) (some : names ≠ [])
    (width : ∀ r ∈ rows, r.length = names.length) :
    ∃ t : Table, t.WellFormed ∧ t.names = names ∧ t.rowsBy names = rows := by
  let column := fun c => Column.mk c (rows.map fun r => r[names.idxOf c]?.getD .null)
  have called : (Table.mk (names.map column)).names = names := by
    simp [Table.names, column, Function.comp_def]
  have even : ∀ col ∈ (Table.mk (names.map column)).columns, col.cells.length = rows.length := by
    intro col mem
    obtain ⟨c, -, rfl⟩ := List.mem_map.1 mem
    simp [column]
  have count : (Table.mk (names.map column)).numRows = rows.length :=
    numRows_of (by simpa using some) even
  refine ⟨⟨names.map column⟩, wellFormed_of (called.symm ▸ nodup) even, called, ?_⟩
  refine List.ext_getElem (by rw [length_rowsBy, count]) fun i _ within => ?_
  have cell : ∀ k (h : k < names.length),
      (Table.mk (names.map column)).cell names[k] i = (rows[i])[k]?.getD .null := by
    intro k h
    have cells := cells?_of_mem (t := ⟨names.map column⟩) (called.symm ▸ nodup)
      (List.mem_map_of_mem (List.getElem_mem h))
    rw [Table.cell, cellsOf, cells]
    simp [column, nodup.idxOf_getElem, within]
  have long : (rows[i]).length = names.length := width _ (List.getElem_mem within)
  simp only [rowsBy, List.getElem_map, List.getElem_range]
  refine List.ext_getElem (by simp [key, long]) fun k inside inside' => ?_
  have h : k < names.length := by simpa [key] using inside
  simp only [key, List.getElem_map]
  rw [cell k h, List.getElem?_eq_getElem inside', Option.getD_some]

theorem NoGreater.swap {r s : List Value} (h : NoGreater r s) :
    (compareRows s r == .lt) = false := by
  unfold NoGreater at h
  rw [compareRows_swap]
  cases outcome : compareRows r s <;> rw [outcome] at h <;> first | rfl | cases h

theorem noGreater_total (r s : List Value) : NoGreater r s ∨ NoGreater s r := by
  unfold NoGreater
  rw [compareRows_swap s r]
  cases compareRows r s <;> simp

/-- If partners can be exchanged, a row that has a partner can be its own. -/
theorem near_self {R : Set (List Value)} {r : List Value}
    (exchange : Exchange NoGreater (Near tolerance) R) (h : r ∈ Matched tolerance R) :
    Near tolerance r r := by
  obtain ⟨hr, s, hs, near⟩ := h
  obtain le | le := noGreater_total r s
  · exact (exchange r hr s hs r hr s hs le le near near.symm).1
  · exact (exchange s hs r hr s hs r hr le le near.symm near).2

/-- Among three rows near each other no column has two different integers, so they are ordered. -/
theorem Near.trans {r s u : List Value} (width : s.length = r.length) (width' : u.length = r.length)
    (rs : Near tolerance r s) (su : Near tolerance s u) (ur : Near tolerance u r)
    (le : NoGreater r s) (le' : NoGreater s u) : NoGreater r u := by
  obtain ⟨columns, clear, hr, hs, hu⟩ : ∃ columns : List (Set Value),
      (∀ S ∈ columns, ¬Blurred S) ∧ r ∈ Rows columns ∧ s ∈ Rows columns ∧ u ∈ Rows columns := by
    clear le le'
    unfold Near nearRow at rs su ur
    induction r generalizing s u with
    | nil =>
      obtain rfl := List.length_eq_zero_iff.1 width
      obtain rfl := List.length_eq_zero_iff.1 width'
      exact ⟨[], by simp, .nil, .nil, .nil⟩
    | cons v r ih =>
      obtain ⟨w, s, rfl⟩ := List.exists_cons_of_length_eq_add_one width
      obtain ⟨x, u, rfl⟩ := List.exists_cons_of_length_eq_add_one width'
      simp only [List.zip_cons_cons, List.all_cons, Bool.and_eq_true] at rs su ur
      obtain ⟨⟨vw, rs⟩, ⟨wx, su⟩, ⟨xv, ur⟩⟩ := And.intro rs (And.intro su ur)
      obtain ⟨columns, clear, hr, hs, hu⟩ :=
        ih (by simpa using width) (by simpa using width') rs su ur
      refine ⟨{v, w, x} :: columns, List.forall_mem_cons.2 ⟨?_, clear⟩, .cons (by simp) hr,
        .cons (by simp) hs, .cons (by simp) hu⟩
      have alike : ∀ p ∈ ({v, w, x} : Set Value), ∀ q ∈ ({v, w, x} : Set Value),
          p = q ∨ p.near tolerance q = true := by
        rintro p (rfl | rfl | rfl) q (rfl | rfl | rfl) <;>
          first | exact .inl rfl | exact .inr ‹_› | exact .inr ((near_comm ..).trans ‹_›)
      rintro ⟨i, j, ne, mi, mj, -⟩
      obtain same | near := alike _ mi _ mj
      · exact ne (Value.int.inj same)
      · exact ne (near_int.1 near)
  exact compareRows_trans clear hr hs hu le le'

theorem sortRows?_eq_self {rows : List (List Value)} (short : rows.length ≤ 20)
    (rising : rows.IsChain NoGreater) : sortRows? rows = some rows := by
  rw [sortRows?, sort?_of_short short, sortStable_eq_self (rising.imp fun _ _ h => h.swap)]

/-- A set of rows is orderly if rows that match in some order match when they are in rising
order. -/
theorem orderly_of_matching {R : Set (List Value)} {n : Nat} (width : ∀ r ∈ R, r.length = n)
    (matching : ∀ l m m' : List (List Value), (∀ r ∈ l, r ∈ R) → (∀ s ∈ m, s ∈ R) →
      l.length ≤ 20 → l.IsChain NoGreater → m.IsChain NoGreater →
      List.Forall₂ (Near tolerance) l m' → m'.Perm m → List.Forall₂ (Near tolerance) l m) :
    Orderly tolerance R := by
  have exchange : Exchange NoGreater (Near tolerance) R := by
    intro r hr r' hr' s hs s' hs' le le' near near'
    have matched := matching [r, r'] [s, s'] [s', s] (by simp [hr, hr']) (by simp [hs, hs'])
      (by simp) (.cons_cons le (.singleton _)) (.cons_cons le' (.singleton _))
      (.cons near (.cons near' .nil)) (.swap ..)
    obtain _ | ⟨first, _ | ⟨second, -⟩⟩ := matched
    exact ⟨first, second⟩
  refine ⟨exchange, fun r hr s hs u hu le le' => ?_⟩
  by_contra greater
  -- both ways round the three rows are in rising order
  have back := (noGreater_total r u).resolve_left greater
  have matched := matching [r, s, u] [s, u, r] [r, s, u] (by simp [hr.1, hs.1, hu.1])
    (by simp [hr.1, hs.1, hu.1]) (by simp) (.cons_cons le (.cons_cons le' (.singleton _)))
    (.cons_cons le' (.cons_cons back (.singleton _)))
    (.cons (near_self exchange hr) (.cons (near_self exchange hs)
      (.cons (near_self exchange hu) .nil)))
    (List.perm_append_singleton r [s, u]).symm
  obtain _ | ⟨rs, _ | ⟨su, _ | ⟨ur, -⟩⟩⟩ := matched
  refine greater (Near.trans ?_ ?_ rs su ur le le')
  · rw [width s hs.1, width r hr.1]
  · rw [width u hu.1, width r hr.1]

/-! ## Columns whose near cells are equal -/

theorem compareRows_cons_eq {v w : Value} {r s : List Value} :
    compareRows (v :: r) (w :: s) = .eq ↔ v.sortCompare w = .eq ∧ compareRows r s = .eq := by
  rw [compareRows]
  cases v.sortCompare w <;> simp

/-- Rows of finite cells that are equal to the sort are near each other. -/
theorem near_of_compareRows {r s : List Value} (zero : 0.0 ≤ tolerance)
    (finite : ∀ v ∈ r, ¬Infinite v) (same : compareRows r s = .eq) : Near tolerance r s := by
  induction r generalizing s with
  | nil =>
    cases s with
    | nil => rfl
    | cons w s => cases same
  | cons v r ih =>
    cases s with
    | nil => cases same
    | cons w s =>
      obtain ⟨first, rest⟩ := compareRows_cons_eq.1 same
      obtain ⟨here, later⟩ := List.forall_mem_cons.1 finite
      exact Bool.and_eq_true_iff.2 ⟨near_of_sortCompare zero here first, ih later rest⟩

/-- Rows that are equal to the sort can be exchanged where the order of rows is transitive. -/
theorem exchange_equal {columns : List (Set Value)} (clear : ∀ S ∈ columns, ¬Blurred S) :
    Exchange NoGreater (fun r s => compareRows r s = .eq) (Rows columns) := by
  have trans : ∀ r ∈ Rows columns, ∀ s ∈ Rows columns, ∀ u ∈ Rows columns,
      NoGreater r s → NoGreater s u → NoGreater r u := fun _ hr _ hs _ hu =>
    compareRows_trans clear hr hs hu
  have equal : ∀ {r s}, NoGreater r s → NoGreater s r → compareRows r s = .eq := by
    intro r s le ge
    unfold NoGreater at ge
    rw [compareRows_swap] at ge
    exact Ordering.eq_eq_of_isLE_of_isLE_swap le ge
  have le : ∀ {r s}, compareRows r s = .eq → NoGreater r s ∧ NoGreater s r := by
    intro r s same
    unfold NoGreater
    rw [compareRows_swap s r, same]
    exact ⟨rfl, rfl⟩
  intro r hr r' hr' s hs s' hs' less less' rs' r's
  obtain ⟨up, down⟩ := le rs'
  obtain ⟨up', down'⟩ := le r's
  have rs : NoGreater r s := trans r hr r' hr' s hs less up'
  have sr : NoGreater s r := trans s hs s' hs' r hr less' down
  have r's' : NoGreater r' s' := trans r' hr' s hs s' hs' up' less'
  have s'r' : NoGreater s' r' := trans s' hs' r hr r' hr' down less
  exact ⟨equal rs sr, equal r's' s'r'⟩

/-- Near cells of a column are in one place of the order, which is transitive there. -/
structure Separated (tolerance : Float) (S : Set Value) : Prop where
  clear : ¬Blurred S
  alike : ∀ v ∈ S, ∀ w ∈ S, v.near tolerance w = true → v.sortCompare w = .eq

theorem alike_rows {columns : List (Set Value)} {r s : List Value}
    (separated : ∀ S ∈ columns, Separated tolerance S) (hr : r ∈ Rows columns)
    (hs : s ∈ Rows columns) (near : Near tolerance r s) :
    compareRows r s = .eq ∧ ∀ v ∈ r, ¬Infinite v := by
  induction hr generalizing s with
  | nil =>
    cases hs
    exact ⟨rfl, by simp⟩
  | @cons v S r columns hv _ ih =>
    obtain _ | ⟨hw, hs⟩ := hs
    rename_i w s
    obtain ⟨here, later⟩ := List.forall_mem_cons.1 separated
    obtain ⟨first, rest⟩ := Bool.and_eq_true_iff.1 near
    obtain ⟨same, finite⟩ := ih later hs rest
    have equal := here.alike v hv w hw first
    exact ⟨compareRows_cons_eq.2 ⟨equal, same⟩,
      List.forall_mem_cons.2 ⟨not_infinite first equal, finite⟩⟩

/-- Where there are no doubles only equal cells are near each other. -/
theorem separated_of_no_doubles {S : Set Value} (none : ∀ x, .float x ∉ S) :
    Separated tolerance S where
  clear := fun ⟨_, _, _, _, _, _, mem⟩ => none _ mem
  alike := by
    intro v hv w hw near
    have equal : v = w := by
      cases v <;> cases w <;>
        simp_all [Value.near, isMissing, toFloat?, Value.equal]
    rw [equal, sortCompare_self]

/-- Rows whose near cells are equal to the sort are orderly. -/
theorem orderly_rows {columns : List (Set Value)} (zero : 0.0 ≤ tolerance)
    (separated : ∀ S ∈ columns, Separated tolerance S) : Orderly tolerance (Rows columns) where
  exchange := by
    intro r hr r' hr' s hs s' hs' less less' near near'
    obtain ⟨same, finite⟩ := alike_rows separated hr hs' near
    obtain ⟨same', finite'⟩ := alike_rows separated hr' hs near'
    obtain ⟨first, second⟩ := exchange_equal (fun S mem => (separated S mem).clear)
      r hr r' hr' s hs s' hs' less less' same same'
    exact ⟨near_of_compareRows zero finite first, near_of_compareRows zero finite' second⟩
  trans r hr s hs u hu := compareRows_trans (fun S mem => (separated S mem).clear) hr.1 hs.1 hu.1

/-! ## Equivalence and rows -/

/-- The tables of some columns whose rows are in a set. -/
structure Over (names : List String) (R : Set (List Value)) (t : Table) : Prop where
  wf : t.WellFormed
  same : ∀ c, c ∈ t.names ↔ c ∈ names
  rows : ∀ r ∈ t.rowsBy names, r ∈ R

/-- Equivalent tables have the same rows up to the tolerance. That tables which have are
equivalent holds of all tables with rows in a set just if the set is orderly. -/
theorem equivalent_exact_iff (tolerance : Float) :
    (∀ a b : Table, a.WellFormed → b.WellFormed → a.equivalent? tolerance b = some true →
      NearTables tolerance a b) ∧
    ∀ (names : List String) (R : Set (List Value)), names.Nodup →
      (∀ r ∈ R, r.length = names.length) →
      ((∀ a b : Table, Over names R a → Over names R b → a.names = names →
        (a.equivalent? tolerance b = some true ↔ NearTables tolerance a b)) ↔
      Orderly tolerance R) := by
  refine ⟨fun a b wfa wfb => sameRows_of_equivalent wfa wfb, fun names R nodup width => ?_⟩
  constructor
  · intro exact_
    by_cases some : names = []
    · -- without columns there is one row, which is near itself
      have empty : ∀ r ∈ R, r = [] := fun r mem =>
        List.length_eq_zero_iff.1 (by rw [width r mem, some, List.length_nil])
      constructor
      · intro r hr r' hr' s hs s' hs' _ _ _ _
        rw [empty r hr, empty r' hr', empty s hs, empty s' hs']
        exact ⟨rfl, rfl⟩
      · intro r hr s _ u hu _ _
        rw [empty r hr.1, empty u hu.1]
        exact rfl
    · refine orderly_of_matching width
        fun l m m' insidel insidem short rising rising' matched perm => ?_
      obtain ⟨a, wfa, na, ra⟩ := exists_table nodup some fun r mem => width r (insidel r mem)
      obtain ⟨b, wfb, nb, rb⟩ := exists_table nodup some fun s mem => width s (insidem s mem)
      have same : NearTables tolerance a b := by
        refine (sameRows_iff fun _ _ => near_key).2 ⟨fun c => by rw [na, nb], m', ?_, ?_⟩
        · rwa [na, ra]
        · rwa [na, rb]
      have equivalent := (exact_ a b ⟨wfa, fun c => by rw [na], by rwa [ra]⟩
        ⟨wfb, fun c => by rw [nb], by rwa [rb]⟩ na).2 same
      have short' : m.length ≤ 20 := by rwa [← perm.length_eq, ← matched.length_eq]
      obtain ⟨-, l', m', sorted, sorted', matched⟩ := (equivalent?_iff wfa wfb).1 equivalent
      rw [na, ra, sortRows?_eq_self short rising] at sorted
      rw [na, rb, sortRows?_eq_self short' rising'] at sorted'
      cases sorted
      cases sorted'
      exact matched
  · intro orderly a b overa overb na
    refine ⟨sameRows_of_equivalent overa.wf overb.wf, ?_⟩
    exact equivalent_of_sameRows orderly overa.wf overb.wf (na ▸ overa.rows) (na ▸ overb.rows)

/-- A column without doubles, and one whose doubles are further apart than the tolerance. -/
theorem equivalent_exact_spaced :
    let a : Table := ⟨[⟨"k", [.int 1, .int 2, .null]⟩, ⟨"x", [.float 1.5, .float 2.5, .null]⟩]⟩
    let b : Table := ⟨[⟨"x", [.null, .float 2.5, .float 1.5]⟩, ⟨"k", [.null, .int 2, .int 1]⟩]⟩
    let R := Rows [{v | v ∈ [.int 1, .int 2, .null]}, {v | v ∈ [.float 1.5, .float 2.5, .null]}]
    a.WellFormed ∧ b.WellFormed ∧ a.equivalent? 0.5 b = some true ∧ NearTables 0.5 a b ∧
      Orderly 0.5 R ∧ Over ["k", "x"] R a ∧ Over ["k", "x"] R b ∧
      (a.equivalent? 0.5 b = some true ↔ NearTables 0.5 a b) := by
  intro a b R
  have wfa : a.WellFormed := ⟨by decide, by decide⟩
  have wfb : b.WellFormed := ⟨by decide, by decide⟩
  have equivalent : a.equivalent? 0.5 b = some true := by decide
  have orderly : Orderly 0.5 R := by
    refine orderly_rows (by decide)
      (List.forall_mem_cons.2 ⟨?_, List.forall_mem_singleton.2 ?_⟩)
    · exact separated_of_no_doubles (by simp)
    · refine ⟨fun ⟨i, _, _, mem, _⟩ => by simp at mem, ?_⟩
      show ∀ v ∈ [_, _, _], ∀ w ∈ [_, _, _], _
      decide
  have width : ∀ r ∈ R, r.length = ["k", "x"].length := fun r mem => mem.length_eq
  have overa : Over ["k", "x"] R a := by
    have rows : a.rowsBy ["k", "x"] =
        [[.int 1, .float 1.5], [.int 2, .float 2.5], [.null, .null]] := by decide
    exact ⟨wfa, fun c => Iff.rfl, by rw [rows]; simp [R, Rows]⟩
  have overb : Over ["k", "x"] R b := by
    have rows : b.rowsBy ["k", "x"] =
        [[.null, .null], [.int 2, .float 2.5], [.int 1, .float 1.5]] := by decide
    exact ⟨wfb, fun c => by simp [b, Table.names, or_comm], by rw [rows]; simp [R, Rows]⟩
  obtain ⟨sound, exact_⟩ := equivalent_exact_iff 0.5
  exact ⟨wfa, wfb, equivalent, sound a b wfa wfb equivalent, orderly, overa, overb,
    (exact_ ["k", "x"] R (by decide) width).2 orderly a b overa overb rfl⟩

/-- Two rows that are near two others one by one, but whose order in the first column is the
other way round. -/
theorem crossed_rows_apart :
    let a : Table := ⟨[⟨"x", [.float 1.0, .float 1.5]⟩, ⟨"y", [.text "a", .text "b"]⟩]⟩
    let b : Table := ⟨[⟨"x", [.float 1.5, .float 1.0]⟩, ⟨"y", [.text "a", .text "b"]⟩]⟩
    a.WellFormed ∧ b.WellFormed ∧ a.columns ≠ [] ∧ (0.0 : Float) ≤ 1.0 ∧
      NearTables 1.0 a b ∧ a.equivalent? 1.0 b = some false := by
  intro a b
  have same : a.names = b.names := by decide
  have near : NearTables 1.0 a b := by
    refine ⟨fun c => by rw [same], ?_⟩
    show ∃ pairing : Fin 2 ≃ Fin 2, ∀ i : Fin 2, ∀ c ∈ ["x", "y"], _
    refine ⟨.refl _, ?_⟩
    decide
  exact ⟨⟨by decide, by decide⟩, ⟨by decide, by decide⟩, by decide, by decide, near, by decide⟩

end TableFlow.Table
