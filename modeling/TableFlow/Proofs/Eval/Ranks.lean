import TableFlow.Proofs.Eval.Grouping
import Mathlib.Data.Set.Function

/-!
# Ranks and aggregates of a window

A window lists the rows of each partition by their order keys, and rows of equal keys as the
table has them (`Precedes`). One sort by the partition columns and then the order columns gives
all listings at once (`partitions_eq`). So a row number is one more than the number of rows that
precede the row, and an aggregate is that of the whole listing (`window_meaning`).
-/

namespace TableFlow.Eval

open Table

/-! ## What a window means -/

/-- A row is listed before another one: it has a smaller order key, or an equal one and comes
first. -/
def Precedes (t : Table) (w : Window) (i j : Nat) : Prop :=
  t.compareBy w.orderBy w.reverse i j = .lt ∨ t.compareBy w.orderBy w.reverse i j = .eq ∧ i < j

instance {t : Table} {w : Window} {i j : Nat} : Decidable (Precedes t w i j) :=
  inferInstanceAs (Decidable (_ ∨ _))

/-- One more than the number of rows of the partition that precede a row. -/
def rank (t : Table) (w : Window) (i : Nat) : Nat :=
  1 + (t.rowsLike w.partitionBy i).countP fun j => Precedes t w j i

/-- The rows of a row's partition, each before those that it precedes. -/
structure Listing (t : Table) (w : Window) (i : Nat) (l : List Nat) : Prop where
  perm : l.Perm (t.rowsLike w.partitionBy i)
  sorted : l.Pairwise (Precedes t w)

def UnmixedWindow (t : Table) (w : Window) : Prop :=
  ∀ c ∈ w.partitionBy ++ w.orderBy, Value.Unmixed (t.cellsOf c)

variable {t r : Table} {w : Window} {columns : List String} {l : List Nat} {i j k : Nat}

theorem Listing.mem_self (listing : Listing t w i l) (row : i < t.numRows) : i ∈ l :=
  listing.perm.mem_iff.2 (List.mem_filter.2
    ⟨List.mem_range.2 row, decide_eq_true fun _ _ => Value.sortCompare_self _⟩)

/-! ## Ranks -/

/-- The elements that an element comes after in a list are those before it. -/
theorem countP_before {α : Type} {R : α → α → Prop} [DecidableRel R] {before after : List α}
    {a : α} (sorted : (before ++ a :: after).Pairwise R) (asymm : ∀ a b, R a b → ¬R b a) :
    (before ++ a :: after).countP (fun b => R b a) = before.length := by
  obtain ⟨-, rest, first⟩ := List.pairwise_append.1 sorted
  obtain ⟨later, -⟩ := List.pairwise_cons.1 rest
  have all : before.countP (fun b => R b a) = before.length :=
    List.countP_eq_length.2 fun b mem => by simpa using first b mem a (List.mem_cons_self ..)
  have none : (a :: after).countP (fun b => R b a) = 0 := by
    refine List.countP_eq_zero.2 fun b mem => ?_
    obtain rfl | mem := List.mem_cons.1 mem
    · simpa using fun h => asymm b b h h
    · simpa using asymm a b (later b mem)
  rw [List.countP_append, all, none, Nat.add_zero]

theorem Precedes.asymm (unmixed : UnmixedWindow t w) (h : Precedes t w i j) :
    ¬Precedes t w j i := by
  have trans : Std.TransCmp (t.compareBy w.orderBy w.reverse) :=
    transCmp_compareBy fun c mem => (unmixed c (List.mem_append_right _ mem)).not_blurred
  exact InOrder.asymm h Nat.lt_asymm

/-- Rows are ranked by their places in the listing of their partition. -/
theorem Listing.rank_getElem (unmixed : UnmixedWindow t w) (listing : Listing t w i l)
    (within : k < l.length) : rank t w l[k] = k + 1 := by
  have mem : l[k] ∈ t.rowsLike w.partitionBy i := listing.perm.mem_iff.1 (List.getElem_mem within)
  have same : t.SameKey w.partitionBy l[k] i := of_decide_eq_true (List.mem_filter.1 mem).2
  have split : l = l.take k ++ l[k] :: l.drop (k + 1) := by
    rw [← List.drop_eq_getElem_cons within, List.take_append_drop]
  have count := listing.sorted
  rw [split] at count
  have before := countP_before count fun _ _ => Precedes.asymm unmixed
  rw [← split, List.length_take, Nat.min_eq_left within.le] at before
  rw [rank, rowsLike_congr (fun c mem => (unmixed c (List.mem_append_left _ mem)).not_blurred) same,
    ← listing.perm.countP_eq, before, Nat.add_comm]

/-- Within a partition the ranks count from one. -/
theorem Listing.bijOn (unmixed : UnmixedWindow t w) (listing : Listing t w i l) :
    Set.BijOn (rank t w) {j | j ∈ t.rowsLike w.partitionBy i}
      (Set.Icc 1 (t.rowsLike w.partitionBy i).length) := by
  have place : ∀ j ∈ t.rowsLike w.partitionBy i, ∃ k, ∃ h : k < l.length, l[k] = j := fun j mem =>
    List.mem_iff_getElem.1 (listing.perm.mem_iff.2 mem)
  have ranked : ∀ k (h : k < l.length), rank t w l[k] = k + 1 := fun k =>
    listing.rank_getElem unmixed
  rw [← listing.perm.length_eq]
  refine ⟨fun j mem => ?_, fun a ma b mb same => ?_, fun m mem => ?_⟩
  · obtain ⟨k, within, rfl⟩ := place j mem
    rw [ranked k within]
    exact ⟨by omega, by omega⟩
  · obtain ⟨k, within, rfl⟩ := place a ma
    obtain ⟨k', within', rfl⟩ := place b mb
    rw [ranked k within, ranked k' within'] at same
    obtain rfl : k = k' := by omega
    rfl
  · obtain ⟨low, high⟩ := mem
    have within : m - 1 < l.length := by omega
    refine ⟨l[m - 1], listing.perm.mem_iff.1 (List.getElem_mem within), ?_⟩
    rw [ranked _ within]
    omega

/-! ## Listings -/

/-- What one sort and one cut give: the listings of the partitions. -/
structure Partitions (t : Table) (w : Window) (order heads : List Nat)
    (listing : Nat → List Nat) : Prop where
  ordered : sortPositions t (w.partitionBy ++ w.orderBy) w.reverse = .ok order
  cut : groups t order w.partitionBy = .ok (heads.map listing)
  whole : order.Perm (List.range t.numRows)
  listed : ∀ i, Listing t w i (listing i)
  inside : ∀ h ∈ heads, h < t.numRows
  covers : ∀ i < t.numRows, ∃ h ∈ heads, listing h = listing i
  shared : ∀ i, ∀ j ∈ listing i, listing j = listing i

/-- The partition columns come first, so rows in the order of a window are in the order of its
partitions, and those of one partition in the order of their listing. -/
theorem partition_inOrder
    (h : InOrder (t.compareBy (w.partitionBy ++ w.orderBy) w.reverse) (· < ·) i j) :
    (t.compareBy w.partitionBy w.reverse i j).isLE = true ∧
      (t.compareBy w.partitionBy w.reverse i j = .eq → Precedes t w i j) := by
  have le := h.isLE
  rw [InOrder, compareBy_append] at h
  rw [compareBy_append] at le
  cases outcome : t.compareBy w.partitionBy w.reverse i j with
  | lt => exact ⟨rfl, nofun⟩
  | eq =>
    rw [outcome] at h
    exact ⟨rfl, fun _ => h⟩
  | gt =>
    rw [outcome] at le
    cases le

theorem partitions_eq (wf : t.WellFormed)
    (known : ∀ c ∈ w.partitionBy ++ w.orderBy, c ∈ t.names) (unmixed : UnmixedWindow t w) :
    ∃ order heads listing, Partitions t w order heads listing := by
  have whole : Std.TransCmp (t.compareBy (w.partitionBy ++ w.orderBy) w.reverse) :=
    transCmp_compareBy fun c mem => (unmixed c mem).not_blurred
  have part : Std.TransCmp (t.compareBy w.partitionBy w.reverse) :=
    transCmp_compareBy fun c mem => (unmixed c (List.mem_append_left _ mem)).not_blurred
  let order := sortStable
    (fun i j => t.compareBy (w.partitionBy ++ w.orderBy) w.reverse i j == .lt)
    (List.range t.numRows)
  let listing := alike (t.compareBy w.partitionBy w.reverse) order
  have perm : order.Perm (List.range t.numRows) := sortStable_perm
  have sorted : order.Pairwise
      (InOrder (t.compareBy (w.partitionBy ++ w.orderBy) w.reverse) (· < ·)) :=
    sortStable_pairwise List.pairwise_lt_range
  have parts : order.Pairwise fun i j => (t.compareBy w.partitionBy w.reverse i j).isLE = true :=
    sorted.imp fun h => (partition_inOrder h).1
  have listed : ∀ i, Listing t w i (listing i) := by
    intro i
    refine ⟨alike_range ▸ perm.filter _, ?_⟩
    refine (sorted.filter _).imp_of_mem fun {j k} mj mk h => (partition_inOrder h).2 ?_
    rw [Std.TransCmp.congr_left (mem_alike.1 mj).2]
    exact Std.OrientedCmp.eq_comm.1 (mem_alike.1 mk).2
  obtain ⟨heads, found, cut⟩ :=
    runs_sorted (fun _ _ => sameKey_key.trans compareBy_eq_eq.symm) parts
  have knownp : ∀ c ∈ w.partitionBy, c ∈ t.names := fun c mem =>
    known c (List.mem_append_left _ mem)
  have shared : ∀ i j, t.compareBy w.partitionBy w.reverse i j = .eq → listing i = listing j := by
    intro i j equal
    refine List.filter_congr fun k _ => ?_
    rw [Std.TransCmp.congr_right equal]
  refine ⟨order, heads, listing, sortPositions_eq wf known, ?_, perm, listed, ?_, ?_, ?_⟩
  · rw [groups_eq wf knownp (inside_of_perm perm), cut]
  · exact fun h mem => inside_of_perm perm h (found.mem mem)
  · intro i row
    obtain ⟨h, mem, equal⟩ := found.covers i (perm.mem_iff.2 (List.mem_range.2 row))
    exact ⟨h, mem, (shared i h equal).symm⟩
  · exact fun i j mem => shared j i (mem_alike.1 mem).2

/-! ## Values -/

section

variable {order heads : List Nat} {listing : Nat → List Nat} {e : Formula} {c : WindowCall}
  {value : Nat → Value} {answer : Nat → List (Nat × Value)}

theorem windowValues_eq (found : Partitions t w order heads listing)
    (called : windowCall t e = .ok c) :
    windowValues t e w = ((heads.map listing).mapM c.answer).map fun answers =>
      (List.range t.numRows).map fun i =>
        ((answers.flatten.find? (·.1 = i)).map (·.2)).getD .null := by
  rw [windowValues, called]
  show (sortPositions t _ _ >>= _) = _
  rw [found.ordered]
  show (groups t order _ >>= _) = _
  rw [found.cut]
  show ((heads.map listing).mapM c.answer >>= _) = _
  cases (heads.map listing).mapM c.answer <;> rfl

/-- If the answers of each listing are the values of its rows, these are the values of all. -/
theorem windowValues_of_answers (found : Partitions t w order heads listing)
    (called : windowCall t e = .ok c)
    (answers : ∀ h ∈ heads, c.answer (listing h) = .ok ((listing h).map fun i => (i, value i))) :
    windowValues t e w = .ok ((List.range t.numRows).map value) := by
  have each : (heads.map listing).mapM c.answer =
      .ok ((heads.map listing).map fun l => l.map fun i => (i, value i)) := by
    refine mapM_eq_map fun l mem => ?_
    obtain ⟨h, head, rfl⟩ := List.mem_map.1 mem
    exact answers h head
  rw [windowValues_eq found called, each]
  refine congrArg Except.ok (List.map_congr_left fun i mem => ?_)
  obtain ⟨h, head, same⟩ := found.covers i (List.mem_range.1 mem)
  have row : i ∈ (heads.map listing).flatten := by
    refine List.mem_flatten.2 ⟨listing h, List.mem_map_of_mem head, ?_⟩
    exact same ▸ (found.listed i).mem_self (List.mem_range.1 mem)
  rw [← List.map_flatten, List.find?_map]
  cases first : (heads.map listing).flatten.find? ((·.1 = i) ∘ fun i => (i, value i)) with
  | none => exact absurd (decide_eq_true rfl) (List.find?_eq_none.1 first i row)
  | some j =>
    obtain rfl : j = i := by simpa using List.find?_some first
    rfl

/-- Row numbers are ranks. -/
theorem windowValues_rowNumber {form : Form} (found : Partitions t w order heads listing)
    (unmixed : UnmixedWindow t w) :
    windowValues t (.apply "row_number" [] form) w =
      .ok ((List.range t.numRows).map fun i => .int (Int64.ofNat (rank t w i))) := by
  refine windowValues_of_answers found rfl fun h _ => congrArg Except.ok ?_
  refine List.ext_getElem (by simp) fun k within within' => ?_
  have inside : k < (listing h).length := by simpa using within'
  simp [(found.listed h).rank_getElem unmixed inside]

theorem answer_aggregate {name column : String} (wf : t.WellFormed) (known : column ∈ t.names)
    (inside : ∀ i ∈ l, i < t.numRows) :
    (WindowCall.aggregate name (t.cellsOf column)).answer l =
      (aggregate name (l.map (t.cell column))).map fun v => l.map fun i => (i, v) := by
  rw [WindowCall.answer, gatherCells_eq wf known inside]
  show (aggregate name (l.map (t.cell column)) >>= _) = _
  cases aggregate name (l.map (t.cell column)) <;> rfl

theorem windowCall_aggregate {name column : String} {form : Form} (known : column ∈ t.names) :
    windowCall t (.apply name [.column column] form) =
      .ok (.aggregate name (t.cellsOf column)) := by
  rw [windowCall, columnCells_eq known]
  rfl

theorem Partitions.row (found : Partitions t w order heads listing) :
    ∀ i, ∀ j ∈ listing i, j < t.numRows := fun i j mem =>
  rowsLike_inside j ((found.listed i).perm.mem_iff.1 mem)

/-- Rows of one partition have one listing, so they have the aggregate of its head. -/
theorem windowValues_aggregates {name column : String} {form : Form}
    (found : Partitions t w order heads listing) (wf : t.WellFormed) (known : column ∈ t.names)
    (each : ∀ i < t.numRows, aggregate name ((listing i).map (t.cell column)) = .ok (value i)) :
    windowValues t (.apply name [.column column] form) w =
      .ok ((List.range t.numRows).map value) := by
  refine windowValues_of_answers found (windowCall_aggregate known) fun h head => ?_
  have own := each h (found.inside h head)
  rw [answer_aggregate wf known (found.row h), own]
  refine congrArg Except.ok (List.map_congr_left fun i mem => ?_)
  have shared : aggregate name ((listing h).map (t.cell column)) = .ok (value i) :=
    found.shared h i mem ▸ each i (found.row h i mem)
  rw [Except.ok.inj (own.symm.trans shared)]

theorem windowValues_aggregate_error {name column : String} {form : Form}
    (found : Partitions t w order heads listing) (wf : t.WellFormed) (known : column ∈ t.names)
    (row : i < t.numRows)
    (failed : ∃ e, aggregate name ((listing i).map (t.cell column)) = .error e) :
    ∃ e, windowValues t (.apply name [.column column] form) w = .error e := by
  obtain ⟨h, head, same⟩ := found.covers i row
  simp only [windowValues_eq found (windowCall_aggregate known), map_eq_error, mapM_eq_error]
  refine ⟨listing h, List.mem_map_of_mem head, ?_⟩
  rw [answer_aggregate wf known (found.row h), same]
  simpa only [map_eq_error] using failed

/-- The aggregate of a column over the partition of each row, in the order of its listing. -/
theorem windowValues_aggregate {name column : String} {form : Form} {values : List Value}
    (found : Partitions t w order heads listing) (wf : t.WellFormed) (known : column ∈ t.names) :
    windowValues t (.apply name [.column column] form) w = .ok values ↔
      List.Forall₂ (fun i v => aggregate name ((listing i).map (t.cell column)) = .ok v)
        (List.range t.numRows) values := by
  by_cases failed : ∃ i < t.numRows, ∃ e,
      aggregate name ((listing i).map (t.cell column)) = .error e
  · obtain ⟨i, row, e, error⟩ := failed
    obtain ⟨e', refused⟩ := windowValues_aggregate_error found wf known row ⟨e, error⟩
    rw [refused]
    refine iff_of_false nofun fun each => ?_
    obtain ⟨v, -, ok⟩ := exists_of_forall₂ each.flip (List.mem_range.2 row)
    rw [error] at ok
    cases ok
  · have each : ∀ i < t.numRows, ∃ v,
        aggregate name ((listing i).map (t.cell column)) = .ok v := by
      intro i row
      cases outcome : aggregate name ((listing i).map (t.cell column)) with
      | ok v => exact ⟨v, rfl⟩
      | error e => exact absurd ⟨i, row, e, outcome⟩ failed
    have : Nonempty Value := ⟨.null⟩
    choose! value ok using each
    have all : (List.range t.numRows).mapM (fun i =>
        aggregate name ((listing i).map (t.cell column))) =
          .ok ((List.range t.numRows).map value) :=
      mapM_eq_map fun i mem => ok i (List.mem_range.1 mem)
    rw [windowValues_aggregates found wf known ok, ← all, mapM_eq_ok]

end

/-! ## Rows in another order -/

def DistinctOrder (t : Table) (w : Window) : Prop :=
  ∀ i < t.numRows, ∀ j < t.numRows,
    t.SameKey w.partitionBy i j → t.SameKey w.orderBy i j → i = j

section

variable {positions : List Nat} {names reverse : List String}

theorem numRows_taken (perm : positions.Perm (List.range t.numRows))
    (taken : t.take? positions = some r) : r.numRows = t.numRows := by
  rw [take?_numRows_of_inside (inside_of_perm perm) taken, perm.length_eq, List.length_range]

theorem cellsOf_taken {c : String} (wf : t.WellFormed) (known : c ∈ t.names)
    (inside : ∀ i ∈ positions, i < t.numRows) (taken : t.take? positions = some r) :
    r.cellsOf c = positions.map (t.cell c) := by
  obtain ⟨cells, found⟩ := exists_cells known
  have own : t.cellsOf c = cells := by rw [cellsOf, found]; rfl
  have each : positions.mapM (cells[·]?) = some (positions.map (t.cell c)) :=
    mapM_eq_some.2 (List.forall₂_map_right_iff.2 (List.forall₂_same.2 fun i mem =>
      own ▸ getElem?_cellsOf wf known (inside i mem)))
  rw [cellsOf, take?_cells taken, found, Option.bind_some, each]
  rfl

theorem cell_taken {c : String} (wf : t.WellFormed) (known : c ∈ t.names)
    (inside : ∀ i ∈ positions, i < t.numRows) (taken : t.take? positions = some r)
    (within : i < positions.length) : r.cell c i = t.cell c positions[i] := by
  rw [cell, cellsOf_taken wf known inside taken, List.getElem?_map,
    List.getElem?_eq_getElem within]
  rfl

/-- Elements are counted by their positions. -/
theorem countP_range {p : Nat → Bool} :
    l.countP p = (List.range l.length).countP fun j => p (l.getD j 0) := by
  have listed : (List.range l.length).map (l.getD · 0) = l :=
    List.ext_getElem (by simp) fun j h h' => by simp [h']
  have counted : ((List.range l.length).map (l.getD · 0)).countP p =
      (List.range l.length).countP (p ∘ (l.getD · 0)) := List.countP_map
  rwa [listed] at counted

section

variable (wf : t.WellFormed) (known : ∀ c ∈ names, c ∈ t.names)
  (inside : ∀ i ∈ positions, i < t.numRows) (taken : t.take? positions = some r)
  (first : i < positions.length) (second : j < positions.length)

include wf known inside taken

theorem key_taken : r.key names i = t.key names positions[i] :=
  List.map_congr_left fun c mem => cell_taken wf (known c mem) inside taken first

theorem compareBy_taken :
    r.compareBy names reverse i j = t.compareBy names reverse positions[i] positions[j] := by
  rw [compareBy, compareBy, key_taken wf known inside taken first,
    key_taken wf known inside taken second]

theorem sameKey_taken : r.SameKey names i j ↔ t.SameKey names positions[i] positions[j] := by
  have same : r.compareBy names [] i j = t.compareBy names [] positions[i] positions[j] :=
    compareBy_taken wf known inside taken first second
  rw [← compareBy_eq_eq, same, compareBy_eq_eq]

end

/-- Rows of a partition that compare as equal are one row, so positions break no ties. -/
theorem precedes_taken (wf : t.WellFormed)
    (known : ∀ c ∈ w.partitionBy ++ w.orderBy, c ∈ t.names) (distinct : DistinctOrder t w)
    (perm : positions.Perm (List.range t.numRows)) (taken : t.take? positions = some r)
    (first : i < positions.length) (second : j < positions.length)
    (same : t.SameKey w.partitionBy positions[i] positions[j]) :
    Precedes r w i j ↔ Precedes t w positions[i] positions[j] := by
  have inside := inside_of_perm perm
  have nodup : positions.Nodup := perm.nodup_iff.2 List.nodup_range
  have ordered : ∀ c ∈ w.orderBy, c ∈ t.names := fun c mem => known c (List.mem_append_right _ mem)
  have order : r.compareBy w.orderBy w.reverse i j =
      t.compareBy w.orderBy w.reverse positions[i] positions[j] :=
    compareBy_taken wf ordered inside taken first second
  have tie : t.compareBy w.orderBy w.reverse positions[i] positions[j] = .eq → i = j := by
    intro equal
    have one : positions[i] = positions[j] :=
      distinct _ (inside _ (List.getElem_mem first)) _ (inside _ (List.getElem_mem second)) same
        (compareBy_eq_eq.1 equal)
    exact (List.Nodup.getElem_inj_iff nodup).1 one
  rw [Precedes, Precedes, order]
  refine or_congr_right (and_congr_right fun equal => ?_)
  obtain rfl := tie equal
  simp

/-- Rows in another order keep their ranks if no order key of a partition comes twice. -/
theorem rank_taken (wf : t.WellFormed)
    (known : ∀ c ∈ w.partitionBy ++ w.orderBy, c ∈ t.names) (distinct : DistinctOrder t w)
    (perm : positions.Perm (List.range t.numRows)) (taken : t.take? positions = some r)
    (within : k < positions.length) : rank r w k = rank t w positions[k] := by
  have size : positions.length = t.numRows := by rw [perm.length_eq, List.length_range]
  let here : Nat → Bool := fun i =>
    decide (Precedes t w i positions[k]) && decide (t.SameKey w.partitionBy i positions[k])
  have counted : (List.range t.numRows).countP here =
      (List.range t.numRows).countP fun j => here (positions.getD j 0) := by
    rw [← perm.countP_eq here, countP_range, size]
  rw [rank, rank, rowsLike, rowsLike, List.countP_filter, List.countP_filter,
    numRows_taken perm taken, counted]
  refine congrArg (1 + ·) (List.countP_congr fun j mem => ?_)
  have row : j < positions.length := size ▸ List.mem_range.1 mem
  have same : r.SameKey w.partitionBy j k ↔ t.SameKey w.partitionBy positions[j] positions[k] :=
    sameKey_taken wf (fun c mem => known c (List.mem_append_left _ mem)) (inside_of_perm perm) taken
      row within
  simp only [here, List.getD_eq_getElem _ _ row, Bool.and_eq_true, decide_eq_true_eq, same]
  exact and_congr_left (precedes_taken wf known distinct perm taken row within)

theorem unmixed_taken (wf : t.WellFormed)
    (known : ∀ c ∈ w.partitionBy ++ w.orderBy, c ∈ t.names) (unmixed : UnmixedWindow t w)
    (inside : ∀ i ∈ positions, i < t.numRows) (taken : t.take? positions = some r) :
    UnmixedWindow r w := by
  intro c mem i x mi mx
  have own : ∀ v ∈ r.cellsOf c, v ≠ .null → v ∈ t.cellsOf c := by
    intro v found some
    rw [cellsOf_taken wf (known c mem) inside taken] at found
    obtain ⟨j, -, rfl⟩ := List.mem_map.1 found
    exact mem_cellsOf some
  exact unmixed c mem i x (own _ mi (by simp)) (own _ mx (by simp))

/-- Rows in another order take their row numbers with them. -/
theorem windowValues_taken {form : Form} (wf : t.WellFormed)
    (known : ∀ c ∈ w.partitionBy ++ w.orderBy, c ∈ t.names) (unmixed : UnmixedWindow t w)
    (distinct : DistinctOrder t w) (perm : positions.Perm (List.range t.numRows))
    (taken : t.take? positions = some r) :
    windowValues r (.apply "row_number" [] form) w =
      .ok (positions.map fun i => .int (Int64.ofNat (rank t w i))) := by
  have known' : ∀ c ∈ w.partitionBy ++ w.orderBy, c ∈ r.names := fun c mem =>
    take?_names taken ▸ known c mem
  have unmixed' := unmixed_taken wf known unmixed (inside_of_perm perm) taken
  obtain ⟨order, heads, listing, found⟩ := partitions_eq (wf.take? taken) known' unmixed'
  rw [windowValues_rowNumber found unmixed']
  refine congrArg Except.ok (List.ext_getElem ?_ fun k within within' => ?_)
  · rw [List.length_map, List.length_map, List.length_range, numRows_taken perm taken,
      perm.length_eq, List.length_range]
  · have inside : k < positions.length := by simpa using within'
    rw [List.getElem_map, List.getElem_map, List.getElem_range,
      rank_taken wf known distinct perm taken inside]

end

/-- What a window gives: for row numbers the ranks of the rows, which count each partition from
one and stay with the rows in another order if no order key of a partition comes twice; for an
aggregate of a column that of the listing of the row's partition. -/
theorem window_meaning {source : Pipeline} (placed : w.check source = .ok ())
    (wf : t.WellFormed) (names : t.names = source.columns) (unmixed : UnmixedWindow t w) :
    (∀ form, windowValues t (.apply "row_number" [] form) w =
      .ok ((List.range t.numRows).map fun i => .int (Int64.ofNat (rank t w i)))) ∧
    (∃ listing : Nat → List Nat, (∀ i, Listing t w i (listing i)) ∧
      ∀ name form, ∀ column ∈ t.names, ∀ values,
        windowValues t (.apply name [.column column] form) w = .ok values ↔
          List.Forall₂ (fun i v => aggregate name ((listing i).map (t.cell column)) = .ok v)
            (List.range t.numRows) values) ∧
    (∀ i, Set.BijOn (rank t w) {j | j ∈ t.rowsLike w.partitionBy i}
      (Set.Icc 1 (t.rowsLike w.partitionBy i).length)) ∧
    (DistinctOrder t w → ∀ positions : List Nat, positions.Perm (List.range t.numRows) →
      ∃ r, t.take? positions = some r ∧ ∀ form,
        windowValues r (.apply "row_number" [] form) w =
          .ok (positions.map fun i => .int (Int64.ofNat (rank t w i)))) := by
  have fits := Window.check_eq_ok.1 placed
  have known : ∀ c ∈ w.partitionBy ++ w.orderBy, c ∈ t.names := by
    intro c mem
    obtain mem | mem := List.mem_append.1 mem
    · exact names ▸ fits.partition_known c mem
    · exact names ▸ fits.order_known c mem
  obtain ⟨order, heads, listing, found⟩ := partitions_eq wf known unmixed
  refine ⟨fun form => windowValues_rowNumber found unmixed,
    ⟨listing, found.listed, fun name form column mem values =>
      windowValues_aggregate found wf mem⟩,
    fun i => (found.listed i).bijOn unmixed, fun distinct positions perm => ?_⟩
  obtain ⟨r, taken⟩ := wf.exists_take? (inside_of_perm perm)
  exact ⟨r, taken, fun form => windowValues_taken wf known unmixed distinct perm taken⟩

/-- Falling numbers in each group: equal ones are counted in the order of the table, and a row
without one comes last. -/
theorem window_meaning_falling :
    let t := Table.mk [⟨"g", [.text "a", .text "b", .text "a", .text "a"]⟩,
      ⟨"x", [.int 3, .int 1, .null, .int 3]⟩]
    let w : Window := { partitionBy := ["g"], orderBy := ["x"], reverse := ["x"] }
    windowValues t (.call "row_number" []) w = .ok [.int 1, .int 1, .int 3, .int 2] ∧
      Set.BijOn (rank t w) {j | j ∈ [0, 2, 3]} (Set.Icc 1 3) := by
  intro t w
  have placed : w.check (.table ⟨"d", .empty, ["g", "x"]⟩) = .ok () := rfl
  have wf : t.WellFormed := ⟨by simp [t, Table.names], by simp [t, Table.numRows]⟩
  have unmixed : UnmixedWindow t w := by
    intro c mem i x mi mx
    have known : c = "g" ∨ c = "x" := by simpa [w] using mem
    obtain rfl | rfl := known <;> simp [t, cellsOf, cells?, column?] at mx
  obtain ⟨numbers, -, counts, -⟩ := window_meaning placed wf rfl unmixed
  exact ⟨(numbers .call).trans (by decide), counts 0⟩

end TableFlow.Eval
