import TableFlow.Eval.Run
import TableFlow.Proofs.Table.Columns
import TableFlow.Proofs.Table.Runs
import TableFlow.Proofs.Value.SortOrder

/-!
# Keys of rows

The cells of some columns at a row are the row's key there. Where no column has a double that is
equal to two of its integers, keys are ordered by a total preorder, whatever the directions of the
columns (`transCmp_compareKeys`), and a sort by keys has its one result (`sortPositions_eq`).
Otherwise it may have none, but only over more than twenty rows (`sort?_or_tangled`). Over columns
that a well-formed table has, the steps of sorting, grouping and joining are functions of these
keys (`sortPositions_eq_sort?`, `groups_eq`, `matchable_eq`).
-/

namespace TableFlow

/-- No integer stands next to a double that is a number. -/
def Value.Unmixed (cells : List Value) : Prop :=
  ∀ i x, .int i ∈ cells → .float x ∈ cells → x.isNaN = true

/-- No double is equal to two integers where no number of one kind is next to the other. -/
theorem Value.Unmixed.not_blurred {cells : List Value} (unmixed : Unmixed cells) :
    ¬Blurred {v | v ∈ cells} := by
  rintro ⟨i, j, -, mi, -, -, mx⟩
  have number := Number.isNaN_ofInt64 i
  rw [unmixed i _ mi mx] at number
  cases number

namespace Table

def cellsOf (t : Table) (name : String) : List Value := (t.cells? name).getD []

/-- The cell of a column at a row; null beyond the end. -/
def cell (t : Table) (name : String) (i : Nat) : Value := (t.cellsOf name)[i]?.getD .null

def key (t : Table) (names : List String) (i : Nat) : List Value := names.map (t.cell · i)

def compareBy (t : Table) (names reverse : List String) (i j : Nat) : Ordering :=
  Eval.compareKeys (names.map (reverse.contains ·)) (t.key names i) (t.key names j)

/-- Two rows have the same key: their cells are equal in the sort order. -/
def SameKey (t : Table) (names : List String) (i j : Nat) : Prop :=
  ∀ c ∈ names, (t.cell c i).sortCompare (t.cell c j) = .eq

instance {t : Table} {names : List String} {i j : Nat} : Decidable (t.SameKey names i j) :=
  inferInstanceAs (Decidable (∀ c ∈ names, _))

/-- More than twenty rows, and a key column with a double that is equal to two of its integers. -/
def Tangled (t : Table) (names : List String) : Prop :=
  20 < t.numRows ∧ ∃ c ∈ names, Value.Blurred {v | v ∈ t.cellsOf c}

def rowsLike (t : Table) (names : List String) (i : Nat) : List Nat :=
  (List.range t.numRows).filter fun j => t.SameKey names j i

end Table

namespace Eval

open Table

/-! ## The order of two cells -/

variable {ι κ : Type} {value : ι → Value} {a b c : Value} {f : Bool}

theorem orderCompare_swap : orderCompare f a b = (orderCompare f b a).swap := by
  unfold orderCompare
  cases f <;> cases a.isMissing <;> cases b.isMissing <;>
    simp [Value.sortCompare_swap a b, Ordering.swap_swap]

/-- A falling order has the same equal cells as the rising one. -/
theorem orderCompare_eq_eq : orderCompare f a b = .eq ↔ a.sortCompare b = .eq := by
  unfold orderCompare
  split
  · exact Value.sortCompare_eq_comm
  · exact Iff.rfl

/-- Missing cells are last in a falling order too, so only present ones are turned around. -/
theorem orderCompare_falling_isLE :
    (orderCompare true a b).isLE = true ↔
      b.isMissing = true ∨ a.isMissing = false ∧ (b.sortCompare a).isLE = true := by
  unfold orderCompare
  cases first : a.isMissing <;> cases second : b.isMissing <;>
    simp [Value.sortCompare, first, second]

theorem transCmp_orderCompare (clear : ¬Value.Blurred (Set.range value)) :
    Std.TransCmp fun i j => orderCompare f (value i) (value j) where
  eq_swap := orderCompare_swap
  isLE_trans := by
    intro i j k first second
    have trans : ∀ i j k : ι, ((value i).sortCompare (value j)).isLE = true →
        ((value j).sortCompare (value k)).isLE = true →
        ((value i).sortCompare (value k)).isLE = true := fun i j k =>
      Value.sortCompare_trans clear ⟨i, rfl⟩ ⟨j, rfl⟩ ⟨k, rfl⟩
    cases f with
    | false => exact trans i j k first second
    | true =>
      rw [orderCompare_falling_isLE] at first second ⊢
      obtain last | ⟨present, above⟩ := second
      · exact .inl last
      · obtain last | ⟨present', above'⟩ := first
        · rw [last] at present
          cases present
        · exact .inr ⟨present', trans k j i above above'⟩

/-! ## The order of two keys -/

variable {cells : κ → ι → Value} {names : List κ} {falling : List Bool} {i j : ι}

theorem compareKeys_cons {fs : List Bool} {as bs : List Value} :
    compareKeys (f :: fs) (a :: as) (b :: bs) =
      (orderCompare f a b).then (compareKeys fs as bs) := by
  rw [compareKeys]
  cases orderCompare f a b <;> rfl

/-- Keys are compared by a total preorder if the cells of each column are. -/
theorem transCmp_compareKeys (clear : ∀ c ∈ names, ¬Value.Blurred (Set.range (cells c))) :
    Std.TransCmp fun i j =>
      compareKeys falling (names.map (cells · i)) (names.map (cells · j)) := by
  have equal : Std.TransCmp fun _ _ : ι => Ordering.eq := { eq_swap := rfl, isLE_trans := by simp }
  induction names generalizing falling with
  | nil => cases falling <;> exact equal
  | cons c names ih =>
    cases falling with
    | nil => exact equal
    | cons f falling =>
      have first : Std.TransCmp fun i j => orderCompare f (cells c i) (cells c j) :=
        transCmp_orderCompare (clear c (List.mem_cons_self ..))
      have rest : Std.TransCmp fun i j =>
          compareKeys falling (names.map (cells · i)) (names.map (cells · j)) :=
        ih fun d mem => clear d (List.mem_cons_of_mem _ mem)
      have lex : (fun i j => compareKeys (f :: falling) ((c :: names).map (cells · i))
          ((c :: names).map (cells · j))) =
          compareLex (fun i j => orderCompare f (cells c i) (cells c j))
            fun i j => compareKeys falling (names.map (cells · i)) (names.map (cells · j)) := by
        funext i j
        exact compareKeys_cons
      rw [lex]
      infer_instance

theorem compareKeys_eq_eq (directed : falling.length = names.length) :
    compareKeys falling (names.map (cells · i)) (names.map (cells · j)) = .eq ↔
      ∀ c ∈ names, (cells c i).sortCompare (cells c j) = .eq := by
  induction names generalizing falling with
  | nil => cases falling <;> simp [compareKeys]
  | cons c names ih =>
    obtain ⟨f, falling, rfl⟩ := List.exists_cons_of_length_eq_add_one directed
    rw [List.map_cons, List.map_cons, compareKeys_cons, Ordering.then_eq_eq, orderCompare_eq_eq,
      ih (by simpa using directed), List.forall_mem_cons]

theorem sameKey_iff : sameKey (names.map (cells · i)) (names.map (cells · j)) = true ↔
    ∀ c ∈ names, (cells c i).sortCompare (cells c j) = .eq := by
  simp [sameKey, List.zip_map']

theorem compareKeys_rising :
    compareKeys (names.map fun _ => false) (names.map (cells · i)) (names.map (cells · j)) =
      Value.compareRows (names.map (cells · i)) (names.map (cells · j)) := by
  induction names with
  | nil => rfl
  | cons c names ih =>
    simp only [List.map_cons, compareKeys, Value.compareRows, ih]
    rfl

/-- Keys are compared by the columns that come first, and then by the others. -/
theorem compareKeys_append {more : List κ} {falling' : List Bool}
    (directed : falling.length = names.length) :
    compareKeys (falling ++ falling') ((names ++ more).map (cells · i))
        ((names ++ more).map (cells · j)) =
      (compareKeys falling (names.map (cells · i)) (names.map (cells · j))).then
        (compareKeys falling' (more.map (cells · i)) (more.map (cells · j))) := by
  induction names generalizing falling with
  | nil =>
    obtain rfl := List.length_eq_zero_iff.1 directed
    rfl
  | cons c names ih =>
    obtain ⟨f, falling, rfl⟩ := List.exists_cons_of_length_eq_add_one directed
    simp only [List.cons_append, List.map_cons, compareKeys_cons]
    rw [ih (by simpa using directed), Ordering.then_assoc]

/-! ## Keys of a table -/

variable {t : Table} {columns : List String} {positions : List Nat}

theorem columnCells_eq {c : String} (known : c ∈ t.names) :
    columnCells t c = .ok (t.cellsOf c) := by
  obtain ⟨cells, found⟩ := exists_cells known
  rw [columnCells, found, cellsOf, found]
  rfl

theorem cellsOf_column (wf : t.WellFormed) {c : Column} (mem : c ∈ t.columns) :
    t.cellsOf c.name = c.cells := by
  rw [cellsOf, cells?_of_mem wf.nodup mem]
  rfl

theorem keyColumns_eq (known : ∀ c ∈ columns, c ∈ t.names) :
    keyColumns t columns = .ok (columns.map t.cellsOf) :=
  mapM_eq_map fun c mem =>
    columnCells_eq (known c mem)

theorem length_cellsOf (wf : t.WellFormed) {c : String} (known : c ∈ t.names) :
    (t.cellsOf c).length = t.numRows := by
  obtain ⟨cells, found⟩ := exists_cells known
  rw [cellsOf, found]
  exact wf.length_cells found

theorem getElem?_cellsOf (wf : t.WellFormed) {c : String} {i : Nat} (known : c ∈ t.names)
    (inside : i < t.numRows) : (t.cellsOf c)[i]? = some (t.cell c i) := by
  have lt : i < (t.cellsOf c).length := length_cellsOf wf known ▸ inside
  rw [cell, List.getElem?_eq_getElem lt]
  rfl

theorem map_cell (wf : t.WellFormed) {c : String} (known : c ∈ t.names) :
    (List.range t.numRows).map (t.cell c) = t.cellsOf c := by
  refine List.ext_getElem? fun i => ?_
  rw [List.getElem?_map]
  by_cases inside : i < t.numRows
  · rw [List.getElem?_range inside, getElem?_cellsOf wf known inside]
    rfl
  · rw [List.getElem?_eq_none (by simpa using inside),
      List.getElem?_eq_none (by simpa [length_cellsOf wf known] using inside)]
    rfl

theorem keyed_eq (wf : t.WellFormed) (known : ∀ c ∈ columns, c ∈ t.names)
    (inside : ∀ i ∈ positions, i < t.numRows) :
    keyed (columns.map t.cellsOf) positions =
      .ok (positions.map fun i => (i, t.key columns i)) := by
  refine mapM_eq_map fun i mem => ?_
  have row : (columns.map t.cellsOf).mapM (·[i]?) = some (t.key columns i) := by
    refine mapM_eq_some.2 (List.forall₂_map_left_iff.2 (List.forall₂_map_right_iff.2
      (List.forall₂_same.2 fun c mem' => ?_)))
    exact getElem?_cellsOf wf (known c mem') (inside i mem)
  rw [cellsAt, row]
  rfl

theorem groups_eq (wf : t.WellFormed) (known : ∀ c ∈ columns, c ∈ t.names)
    (inside : ∀ i ∈ positions, i < t.numRows) :
    groups t positions columns = .ok (runs (positions.map fun i => (i, t.key columns i))) := by
  rw [groups, keyColumns_eq known]
  show (keyed (columns.map t.cellsOf) positions >>= _) = _
  rw [keyed_eq wf known inside]
  rfl

/-- The cells of a column at some rows. -/
theorem gatherCells_eq {c : String} (wf : t.WellFormed) (known : c ∈ t.names)
    (inside : ∀ i ∈ positions, i < t.numRows) :
    gatherCells (t.cellsOf c) positions = .ok (positions.map (t.cell c)) := by
  refine mapM_eq_map fun i mem => ?_
  rw [getElem?_cellsOf wf known (inside i mem)]

theorem mem_cellsOf {c : String} {i : Nat} (some : t.cell c i ≠ .null) :
    t.cell c i ∈ t.cellsOf c := by
  unfold cell at some ⊢
  cases found : (t.cellsOf c)[i]? with
  | none => rw [found] at some; exact absurd rfl some
  | some v => exact List.mem_of_getElem? found

/-- Cells that are null or in a list have no double that is equal to two integers if the list has
none. -/
theorem not_blurred_range {cells : List Value} (clear : ¬Value.Blurred {v | v ∈ cells})
    (inside : ∀ i, value i ≠ .null → value i ∈ cells) : ¬Value.Blurred (Set.range value) := by
  rintro ⟨i, j, apart, ⟨ki, mi⟩, ⟨kj, mj⟩, same, kx, mx⟩
  have mem : ∀ {k v}, value k = v → v ≠ .null → v ∈ cells := by
    rintro k _ rfl some
    exact inside k some
  exact clear ⟨i, j, apart, mem mi (by simp), mem mj (by simp), same, mem mx (by simp)⟩

/-! ## The order of two rows -/

variable {reverse : List String} {i j : Nat}

theorem transCmp_compareBy (clear : ∀ c ∈ columns, ¬Value.Blurred {v | v ∈ t.cellsOf c}) :
    Std.TransCmp (t.compareBy columns reverse) :=
  transCmp_compareKeys fun c mem => not_blurred_range (clear c mem) fun _ => mem_cellsOf

theorem compareBy_eq_eq : t.compareBy columns reverse i j = .eq ↔ t.SameKey columns i j :=
  compareKeys_eq_eq (List.length_map _)

theorem compareBy_cons {c : String} :
    t.compareBy (c :: columns) reverse i j =
      (orderCompare (reverse.contains c) (t.cell c i) (t.cell c j)).then
        (t.compareBy columns reverse i j) :=
  compareKeys_cons

theorem compareBy_single {c : String} :
    t.compareBy [c] reverse i j = orderCompare (reverse.contains c) (t.cell c i) (t.cell c j) := by
  rw [compareBy_cons]
  exact Ordering.then_eq

theorem compareBy_append {more : List String} :
    t.compareBy (columns ++ more) reverse i j =
      (t.compareBy columns reverse i j).then (t.compareBy more reverse i j) := by
  rw [compareBy, List.map_append]
  exact compareKeys_append (List.length_map _)

/-- Rising keys are in lexicographic order. -/
theorem compareBy_rising :
    t.compareBy columns [] i j = Value.compareRows (t.key columns i) (t.key columns j) :=
  compareKeys_rising

theorem sameKey_key : sameKey (t.key columns i) (t.key columns j) = true ↔ t.SameKey columns i j :=
  sameKey_iff

theorem mem_rowsLike : j ∈ t.rowsLike columns i ↔ j < t.numRows ∧ t.SameKey columns j i := by
  simp [rowsLike]

/-- Rows of one key have the same rows of their key. -/
theorem rowsLike_congr (clear : ∀ c ∈ columns, ¬Value.Blurred {v | v ∈ t.cellsOf c})
    (same : t.SameKey columns i j) : t.rowsLike columns i = t.rowsLike columns j := by
  have trans : Std.TransCmp (t.compareBy columns []) := transCmp_compareBy clear
  refine List.filter_congr fun k _ => ?_
  rw [Bool.eq_iff_iff, decide_eq_true_iff, decide_eq_true_iff]
  have moved : t.compareBy columns [] k i = t.compareBy columns [] k j :=
    Std.TransCmp.congr_right (compareBy_eq_eq.2 same)
  exact compareBy_eq_eq.symm.trans ((iff_of_eq (congrArg (· = .eq) moved)).trans compareBy_eq_eq)

/-! ## Sorted rows -/

/-- Rows with their keys are sorted as their positions are. -/
theorem sortKeyed_map {width : Nat} {compare : List Value → List Value → Ordering}
    {key : Nat → List Value} :
    sortKeyed width compare (positions.map fun i => (i, key i)) =
      match sort? width (fun i j => compare (key i) (key j) == .lt) positions with
      | some order => .ok (order.map fun i => (i, key i))
      | none => .error .unsortable := by
  rw [sortKeyed, sort?_map]
  cases sort? width (fun i j => compare (key i) (key j) == .lt) positions <;> rfl

theorem sortPositions_eq_sort? (wf : t.WellFormed) (known : ∀ c ∈ columns, c ∈ t.names) :
    sortPositions t columns reverse =
      match sort? 8 (fun i j => t.compareBy columns reverse i j == .lt) (List.range t.numRows) with
      | some order => .ok order
      | none => .error .unsortable := by
  rw [sortPositions, keyColumns_eq known]
  show (keyed (columns.map t.cellsOf) (List.range t.numRows) >>= _) = _
  rw [keyed_eq wf known fun i mem => List.mem_range.1 mem]
  show (sortKeyed 8 _ ((List.range t.numRows).map fun i => (i, t.key columns i)) >>= _) = _
  rw [sortKeyed_map]
  show (match sort? 8 (fun i j => t.compareBy columns reverse i j == .lt) (List.range t.numRows)
    with | some order => _ | none => _) >>= _ = _
  cases sort? 8 (fun i j => t.compareBy columns reverse i j == .lt) (List.range t.numRows) with
  | none => rfl
  | some order =>
    refine congrArg Except.ok ?_
    rw [List.map_map]
    exact List.map_id' _

theorem sortPositions_eq_ok {order : List Nat} (wf : t.WellFormed)
    (known : ∀ c ∈ columns, c ∈ t.names) :
    sortPositions t columns reverse = .ok order ↔
      sort? 8 (fun i j => t.compareBy columns reverse i j == .lt) (List.range t.numRows) =
        some order := by
  rw [sortPositions_eq_sort? wf known]
  cases sort? 8 (fun i j => t.compareBy columns reverse i j == .lt) (List.range t.numRows) <;> simp

/-- Where keys are totally preordered the positions have one sorted form. -/
theorem sortPositions_eq [Std.TransCmp (t.compareBy columns reverse)] (wf : t.WellFormed)
    (known : ∀ c ∈ columns, c ∈ t.names) :
    sortPositions t columns reverse = .ok (sortStable
      (fun i j => t.compareBy columns reverse i j == .lt) (List.range t.numRows)) :=
  (sortPositions_eq_ok wf known).2 sort?_eq_sortStable

/-- A sort of rows by their keys has a result, or there are many of them and their keys are not
totally preordered. -/
theorem sort?_or_tangled {width : Nat} (few : positions.length ≤ t.numRows) :
    (∃ order, sort? width (fun i j => t.compareBy columns reverse i j == .lt) positions =
      some order ∧ order.Perm positions) ∨
    sort? width (fun i j => t.compareBy columns reverse i j == .lt) positions = none ∧
      t.Tangled columns := by
  cases found : sort? width (fun i j => t.compareBy columns reverse i j == .lt) positions with
  | some order => exact .inl ⟨order, rfl, sort?_keeps _ _ found⟩
  | none =>
    refine .inr ⟨rfl, ?_, ?_⟩
    · by_contra short
      rw [sort?_of_short (by omega)] at found
      cases found
    · by_contra clear
      have trans : Std.TransCmp (t.compareBy columns reverse) :=
        transCmp_compareBy fun c mem blurred => clear ⟨c, mem, blurred⟩
      rw [sort?_eq_sortStable] at found
      cases found

/-- Rows in the order of `unsortable` are not sorted by a column whose first cell is less than the
last one, and the middle one equal to both. -/
theorem sortPositions_unsortable {c : String} {pick : Fin 3 → Value} (wf : t.WellFormed)
    (known : c ∈ t.names) (cells : t.cellsOf c = unsortable.map pick)
    (apart : ∀ i j, (orderCompare (reverse.contains c) (pick i) (pick j) == .lt) =
      decide (i = 0 ∧ j = 2)) :
    sortPositions t [c] reverse = .error .unsortable := by
  have stuck : sort? 8 (fun a b => orderCompare (reverse.contains c) a b == .lt)
      ((List.range t.numRows).map (t.cell c)) = none := by
    rw [map_cell wf known, cells]
    exact sort?_unsortable apart
  rw [sort?_map, Option.map_eq_none_iff] at stuck
  rw [sortPositions_eq_sort? wf fun d mem => List.mem_singleton.1 mem ▸ known]
  simp only [compareBy_single, stuck]

/-! ## One column -/

def columnTable (name : String) (cells : List Value) : Table := ⟨[⟨name, cells⟩]⟩

theorem columnTable_wf {c : String} {cells : List Value} : (columnTable c cells).WellFormed :=
  ⟨List.nodup_singleton c, by simp [columnTable, numRows]⟩

theorem mem_columnTable {c : String} {cells : List Value} : c ∈ (columnTable c cells).names :=
  List.mem_singleton_self c

@[simp] theorem numRows_columnTable {c : String} {cells : List Value} :
    (columnTable c cells).numRows = cells.length :=
  rfl

@[simp] theorem cellsOf_columnTable {c : String} {cells : List Value} :
    (columnTable c cells).cellsOf c = cells := by
  simp [columnTable, cellsOf, cells?, column?]

/-! ## Rows without a missing key -/

def present (t : Table) (keys : List String) (i : Nat) : Bool :=
  (t.key keys i).all (!·.isMissing)

theorem present_iff : present t columns i = true ↔
    ∀ c ∈ columns, (t.cell c i).isMissing = false := by
  simp [present, key]

/-- The rows whose key has no missing cell, with their keys. -/
def presentRows (t : Table) (keys : List String) : List (Nat × List Value) :=
  ((List.range t.numRows).filter (present t keys)).map fun i => (i, t.key keys i)

theorem presentRows_positions :
    (presentRows t columns).map (·.1) = (List.range t.numRows).filter (present t columns) := by
  rw [presentRows, List.map_map]
  exact List.map_id' _

theorem matchable_eq (wf : t.WellFormed) (known : ∀ c ∈ columns, c ∈ t.names) :
    matchable t columns = .ok (presentRows t columns) := by
  rw [matchable, keyColumns_eq known]
  show (keyed (columns.map t.cellsOf) (List.range t.numRows) >>= _) = _
  rw [keyed_eq wf known fun i mem => List.mem_range.1 mem]
  exact congrArg Except.ok List.filter_map

theorem risingKeys_key : risingKeys (t.key columns i) (t.key columns j) =
    t.compareBy columns [] i j := by
  rw [risingKeys, key, List.map_map]
  rfl

theorem sortKeyed_presentRows :
    sortKeyed 32 risingKeys (presentRows t columns) =
      match sort? 32 (fun i j => t.compareBy columns [] i j == .lt)
        ((List.range t.numRows).filter (present t columns)) with
      | some order => .ok (order.map fun i => (i, t.key columns i))
      | none => .error .unsortable := by
  rw [presentRows, sortKeyed_map]
  simp only [risingKeys_key]

end Eval

end TableFlow
