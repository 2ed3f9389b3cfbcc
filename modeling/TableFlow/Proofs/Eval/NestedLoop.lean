import TableFlow.Proofs.Eval.Positions
import TableFlow.Proofs.Eval.Steps

/-!
# Joins as nested loops

A join pairs every left row with every right row that has the same key, in the order of the rows
(`nestedPairings`), though it finds the right rows by two cuts of a sorted arrangement. The cuts
are where they should be because a comparison with a key holds of the first rows of the
arrangement and of no others (`cutFrom_countP`).
-/

namespace TableFlow.Eval

open Table

/-! ## The join of two loops -/

/-- Two rows have the same key: no cell of it is missing, and the cells are equal in the sort
order. -/
def SameKeys (left right : Table) (keys : List String) (i j : Nat) : Prop :=
  ∀ c ∈ keys, (left.cell c i).isMissing = false ∧ (right.cell c j).isMissing = false ∧
    (left.cell c i).sortCompare (right.cell c j) = .eq

instance {left right : Table} {keys : List String} {i j : Nat} :
    Decidable (SameKeys left right keys i j) :=
  inferInstanceAs (Decidable (∀ c ∈ keys, _ ∧ _ ∧ _))

def partnersOf (left right : Table) (keys : List String) (i : Nat) : List Nat :=
  (List.range right.numRows).filter fun j => SameKeys left right keys i j

/-- A left row with each of its partners, or alone if it has none and is kept. -/
def rowPairings (left right : Table) (keys : List String) (type : JoinType) (i : Nat) :
    List Pairing :=
  if partnersOf left right keys i ≠ [] then
    (partnersOf left right keys i).map fun j => ⟨some i, some j⟩
  else if type = .left ∨ type = .full then [⟨some i, none⟩]
  else []

def aloneOf (left right : Table) (keys : List String) : List Nat :=
  (List.range right.numRows).filter fun j => ∀ i < left.numRows, ¬SameKeys left right keys i j

/-- The left rows in order, each with its partners, and then the right rows without one. -/
def nestedPairings (left right : Table) (keys : List String) (type : JoinType) : List Pairing :=
  (List.range left.numRows).flatMap (rowPairings left right keys type) ++
    if type = .right ∨ type = .full then
      (aloneOf left right keys).map fun j => ⟨none, some j⟩
    else []

/-- The value of one side in a row of a join, if the side has the row and the column. -/
def sideValue (t : Table) (name : String) (position : Option Nat) : Option Value :=
  position.bind fun i => (t.cells? name).bind (·[i]?)

/-- The left value unless it is absent or null, else the right value, else null. -/
def firstValue (left right : Option Value) : Value :=
  ((left.filter (!·.isNull)).or right).getD .null

/-- The join of two tables, by two loops over their rows. -/
def nestedJoin (left right : Table) (columns keys : List String) (type : JoinType) : Table :=
  ⟨columns.map fun c => ⟨c, (nestedPairings left right keys type).map fun row =>
    firstValue (sideValue left c row.left) (sideValue right c row.right)⟩⟩

/-! ## Beginnings of a list -/

section

variable {α : Type} {p : α → Bool} {l : List α}

/-- A property that holds of the elements before one that has it holds of a beginning. -/
theorem take_countP (closed : l.Pairwise fun a b => p b = true → p a = true) :
    l.take (l.countP p) = l.filter p ∧ l.drop (l.countP p) = l.filter (!p ·) := by
  induction l with
  | nil => exact ⟨rfl, rfl⟩
  | cons a l ih =>
    obtain ⟨head, rest⟩ := List.pairwise_cons.1 closed
    by_cases here : p a = true
    · rw [List.countP_cons_of_pos here]
      simpa [here] using ih rest
    · have none : ∀ b ∈ l, p b = false := fun b mem => by
        simpa using mt (head b mem) here
      have count : l.countP p = 0 := List.countP_eq_zero.2 (by simpa using none)
      have all : l.filter (!p ·) = l := List.filter_eq_self.2 (by simpa using none)
      rw [List.countP_cons_of_neg here, count]
      simpa [here, all] using none

theorem any_getElem?_iff (closed : l.Pairwise fun a b => p b = true → p a = true) (i : Nat) :
    l[i]?.any p = true ↔ i < l.countP p := by
  obtain ⟨taken, dropped⟩ := take_countP closed
  have short : l.countP p ≤ l.length := List.countP_le_length
  constructor
  · intro found
    obtain ⟨a, at', here⟩ := (Option.any_eq_true _ _).1 found
    by_contra beyond
    have mem : a ∈ l.drop (l.countP p) := by
      refine List.mem_of_getElem? (i := i - l.countP p) ?_
      rw [List.getElem?_drop, Nat.add_sub_cancel' (by omega), at']
    rw [dropped] at mem
    simp [here] at mem
  · intro within
    have lt : i < l.length := by omega
    have mem : l[i] ∈ l.take (l.countP p) := List.mem_take_iff_getElem.2 ⟨i, by omega, rfl⟩
    rw [taken] at mem
    rw [List.getElem?_eq_getElem lt]
    exact (List.mem_filter.1 mem).2

end

/-- The cut of a property that holds up to some position and not from there on. -/
theorem cutFrom_eq {holds : Nat → Bool} {size base cut : Nat}
    (upTo : ∀ i, base ≤ i → i < base + size → (holds i = true ↔ i < cut))
    (low : base ≤ cut) (high : cut ≤ base + size) : cutFrom holds size base = cut := by
  fun_induction cutFrom holds size base with
  | case1 size base small here =>
    have := (upTo base (by omega) (by omega)).1 here.2
    omega
  | case2 size base small none =>
    by_cases one : size = 1
    · have := (upTo base (by omega) (by omega)).not.1 fun here => none ⟨one, here⟩
      omega
    · omega
  | case3 size base large ih =>
    simp only [dite_eq_ite] at ih
    by_cases middle : holds (base + size / 2) = true
    · have within := (upTo _ (by omega) (by omega)).1 middle
      rw [if_pos middle] at ih ⊢
      exact ih (fun i from' to' => upTo i (by omega) (by omega)) (by omega) (by omega)
    · have beyond := (upTo _ (by omega) (by omega)).not.1 middle
      rw [if_neg middle] at ih ⊢
      exact ih (fun i from' to' => upTo i (by omega) (by omega)) (by omega) (by omega)

/-- The cut of a list where it stops to have a property. -/
theorem cutFrom_countP {α : Type} {p : α → Bool} {l : List α}
    (closed : l.Pairwise fun a b => p b = true → p a = true) :
    cutFrom (fun i => l[i]?.any p) l.length 0 = l.countP p :=
  cutFrom_eq (fun i _ _ => any_getElem?_iff closed i) (Nat.zero_le _)
    (by rw [Nat.zero_add]; exact List.countP_le_length)

/-! ## Partners -/

variable {left right t : Table} {keys columns : List String} {type : JoinType} {i j : Nat}

def sideCells (left right : Table) (c : String) : Nat ⊕ Nat → Value
  | .inl i => left.cell c i
  | .inr j => right.cell c j

def compareSides (left right : Table) (keys : List String) (a b : Nat ⊕ Nat) : Ordering :=
  compareKeys (keys.map fun _ => false) (keys.map (sideCells left right · a))
    (keys.map (sideCells left right · b))

/-- The key columns hold no mixture of numbers, both sides taken together. -/
def UnmixedKeys (left right : Table) (keys : List String) : Prop :=
  ∀ c ∈ keys, Value.Unmixed (left.cellsOf c ++ right.cellsOf c)

/-- The key columns of both sides taken together have no double that is equal to two integers. -/
def ClearKeys (left right : Table) (keys : List String) : Prop :=
  ∀ c ∈ keys, ¬Value.Blurred {v | v ∈ left.cellsOf c ++ right.cellsOf c}

theorem UnmixedKeys.clear (unmixed : UnmixedKeys left right keys) : ClearKeys left right keys :=
  fun c mem => (unmixed c mem).not_blurred

theorem transCmp_compareSides (clear : ClearKeys left right keys) :
    Std.TransCmp (compareSides left right keys) := by
  refine transCmp_compareKeys fun c mem => not_blurred_range (clear c mem) ?_
  rintro (i | j) some
  · exact List.mem_append_left _ (mem_cellsOf some)
  · exact List.mem_append_right _ (mem_cellsOf some)

theorem risingKeys_right :
    risingKeys (right.key keys i) (right.key keys j) =
      compareSides left right keys (.inr i) (.inr j) := by
  rw [risingKeys, key, List.map_map]
  rfl

theorem risingKeys_left :
    risingKeys (right.key keys j) (left.key keys i) =
      compareSides left right keys (.inr j) (.inl i) := by
  rw [risingKeys, key, List.map_map]
  rfl

def arranged (left right : Table) (keys : List String) : List Nat :=
  sortStable (fun i j => compareSides left right keys (.inr i) (.inr j) == .lt)
    ((List.range right.numRows).filter (present right keys))

def arrangedRows (left right : Table) (keys : List String) : List (Nat × List Value) :=
  (arranged left right keys).map fun j => (j, right.key keys j)

theorem arrangedRows_positions :
    (arrangedRows left right keys).map (·.1) = arranged left right keys := by
  rw [arrangedRows, List.map_map]
  exact List.map_id' _

theorem sortKeyed_eq (clear : ClearKeys left right keys) :
    sortKeyed 32 risingKeys (presentRows right keys) = .ok (arrangedRows left right keys) := by
  have trans := transCmp_compareSides clear
  have order : Std.TransCmp fun i j => compareSides left right keys (.inr i) (.inr j) :=
    { eq_swap := trans.eq_swap, isLE_trans := trans.isLE_trans }
  have keyed : ∀ i j, risingKeys (right.key keys i) (right.key keys j) =
      compareSides left right keys (.inr i) (.inr j) := fun _ _ => risingKeys_right
  rw [presentRows, sortKeyed_map]
  simp only [keyed]
  rw [sort?_eq_sortStable]
  rfl

theorem bne_gt (o : Ordering) : (o != .gt) = o.isLE := by
  cases o <;> rfl

/-- Right rows with the key of a left row that has no missing cell. -/
theorem sameKeys_iff (here : present left keys i = true) :
    SameKeys left right keys i j ↔
      compareSides left right keys (.inr j) (.inl i) = .eq ∧ present right keys j = true := by
  have same : compareSides left right keys (.inr j) (.inl i) = .eq ↔
      ∀ c ∈ keys, (right.cell c j).sortCompare (left.cell c i) = .eq :=
    compareKeys_eq_eq (by simp)
  have turned : ∀ c, (right.cell c j).sortCompare (left.cell c i) = .eq ↔
      (left.cell c i).sortCompare (right.cell c j) = .eq := fun c => Value.sortCompare_eq_comm
  rw [present_iff] at here
  rw [same, present_iff]
  simp only [turned, SameKeys]
  constructor
  · exact fun h => ⟨fun c mem => (h c mem).2.2, fun c mem => (h c mem).2.1⟩
  · exact fun h c mem => ⟨here c mem, h.2 c mem, h.1 c mem⟩

theorem arranged_partners (clear : ClearKeys left right keys)
    (here : present left keys i = true) :
    (arranged left right keys).filter
        (fun j => compareSides left right keys (.inr j) (.inl i) == .eq) =
      partnersOf left right keys i := by
  have trans := transCmp_compareSides clear
  rw [arranged, filter_sortStable, List.filter_filter]
  · refine List.filter_congr fun j _ => ?_
    rw [Bool.eq_iff_iff, Bool.and_eq_true, beq_iff_eq, decide_eq_true_iff, sameKeys_iff here]
  · intro a b first second
    have back := trans.eq_swap (a := .inl i) (b := .inr b)
    rw [beq_iff_eq.1 second] at back
    rw [trans.congr_left (beq_iff_eq.1 first), back]
    rfl

theorem partners_of_cuts {sorted : List (Nat × List Value)} {k : List Value} {low high : Nat}
    (isLow : cutFrom (fun n => sorted[n]?.any fun row => risingKeys row.2 k == .lt)
      sorted.length 0 = low)
    (isHigh : cutFrom (fun n => sorted[n]?.any fun row => risingKeys row.2 k != .gt)
      sorted.length 0 = high) (le : low ≤ high) :
    partners sorted k = .ok (((sorted.take high).drop low).map (·.1)) := by
  subst isLow isHigh
  exact if_neg (Nat.not_lt.2 le)

def against (left right : Table) (keys : List String) (i j : Nat) : Ordering :=
  compareSides left right keys (.inr j) (.inl i)

/-- What holds of a comparison with a key and of every lower outcome holds of the first rows of
the arrangement. -/
theorem arranged_closed (clear : ClearKeys left right keys) {p : Ordering → Bool}
    (down : ∀ a b, (compareSides left right keys (.inr a) (.inr b)).isLE = true →
      p (against left right keys i b) = true → p (against left right keys i a) = true) :
    (arranged left right keys).Pairwise fun a b =>
      p (against left right keys i b) = true → p (against left right keys i a) = true := by
  have trans := transCmp_compareSides clear
  have order : Std.TransCmp fun i j => compareSides left right keys (.inr i) (.inr j) :=
    { eq_swap := trans.eq_swap, isLE_trans := trans.isLE_trans }
  have sorted : (arranged left right keys).Pairwise (InOrder
      (fun i j => compareSides left right keys (.inr i) (.inr j)) fun _ _ => True) :=
    sortStable_pairwise (List.pairwise_of_forall fun _ _ => trivial)
  exact sorted.imp fun h => down _ _ h.isLE

theorem cut_arranged {p : Ordering → Bool}
    (closed : (arranged left right keys).Pairwise fun a b =>
      p (against left right keys i b) = true → p (against left right keys i a) = true) :
    cutFrom (fun n => (arrangedRows left right keys)[n]?.any
        fun row => p (risingKeys row.2 (left.key keys i)))
      (arrangedRows left right keys).length 0 =
      (arranged left right keys).countP fun j => p (against left right keys i j) := by
  rw [arrangedRows, List.length_map, ← cutFrom_countP closed]
  congr 1
  funext n
  rw [List.getElem?_map, Option.any_map]
  congr 1
  funext j
  exact congrArg p risingKeys_left

/-- The partners of a left row are found in the arrangement. -/
theorem partners_eq (clear : ClearKeys left right keys) (here : present left keys i = true) :
    partners (arrangedRows left right keys) (left.key keys i) =
      .ok (partnersOf left right keys i) := by
  have trans := transCmp_compareSides clear
  have below := arranged_closed (p := (· == .lt)) (i := i) clear fun a b le less => by
    simp only [beq_iff_eq] at less ⊢
    exact trans.lt_of_isLE_of_lt le less
  have upTo := arranged_closed (p := (· != .gt)) (i := i) clear fun a b le less => by
    simp only [bne_gt] at less ⊢
    exact trans.isLE_trans le less
  have low : ((arranged left right keys).filter (against left right keys i · != .gt)).countP
      (against left right keys i · == .lt) =
      (arranged left right keys).countP (against left right keys i · == .lt) := by
    rw [List.countP_filter]
    refine List.countP_congr fun j _ => ?_
    cases against left right keys i j <;> simp
  have ordered : (arranged left right keys).countP (against left right keys i · == .lt) ≤
      (arranged left right keys).countP (against left right keys i · != .gt) := by
    rw [← low, List.countP_eq_length_filter (p := (against left right keys i · != .gt))]
    exact List.countP_le_length
  rw [partners_of_cuts (cut_arranged (p := (· == .lt)) below)
    (cut_arranged (p := (· != .gt)) upTo) ordered, List.map_drop, List.map_take,
    arrangedRows_positions, (take_countP upTo).1, ← low, (take_countP (below.filter _)).2,
    List.filter_filter, ← arranged_partners clear here]
  refine congrArg Except.ok (List.filter_congr fun j _ => ?_)
  show _ = (against left right keys i j == .eq)
  cases against left right keys i j <;> rfl

/-! ## Rows of a join -/

theorem keepsLeft_iff : type.keepsLeft = true ↔ type = .left ∨ type = .full := by
  cases type <;> simp [JoinType.keepsLeft]

theorem keepsRight_iff : type.keepsRight = true ↔ type = .right ∨ type = .full := by
  cases type <;> simp [JoinType.keepsRight]

/-- A row with a missing key cell has no partner. -/
theorem partnersOf_absent (absent : ¬present left keys i = true) :
    partnersOf left right keys i = [] := by
  refine List.filter_eq_nil_iff.2 fun j _ same => absent (present_iff.2 fun c mem => ?_)
  exact (of_decide_eq_true same c mem).1

theorem leftPairings_eq (clear : ClearKeys left right keys) (row : i < left.numRows) :
    leftPairings type.keepsLeft (arrangedRows left right keys) (presentRows left keys) i =
      .ok (rowPairings left right keys type i) := by
  have made : (if (partnersOf left right keys i).isEmpty && type.keepsLeft then [⟨some i, none⟩]
      else (partnersOf left right keys i).map fun j => ⟨some i, some j⟩) =
      rowPairings left right keys type i := by
    rw [rowPairings]
    cases partnersOf left right keys i with
    | nil => by_cases kept : type = .left ∨ type = .full <;> simp [kept, keepsLeft_iff]
    | cons j rest => simp
  by_cases here : present left keys i = true
  · have mem : (i, left.key keys i) ∈ presentRows left keys :=
      List.mem_map.2 ⟨i, List.mem_filter.2 ⟨List.mem_range.2 row, here⟩, rfl⟩
    have nodup : ((presentRows left keys).map (·.1)).Nodup := by
      rw [presentRows_positions]
      exact List.nodup_range.filter _
    rw [leftPairings, find?_key nodup mem]
    show (partners _ (left.key keys i) >>= _) = _
    rw [partners_eq clear here, ← made]
    rfl
  · have none : i ∉ (presentRows left keys).map (·.1) := by
      rw [presentRows_positions, List.mem_filter]
      exact fun h => here h.2
    rw [leftPairings, find?_key_none.2 none, ← made, partnersOf_absent here]
    rfl

theorem any_paired (row : j < right.numRows) :
    ((List.range left.numRows).map (rowPairings left right keys type)).flatten.any
        (·.right == some j) = true ↔
      ∃ i < left.numRows, SameKeys left right keys i j := by
  have paired : ∀ i, (∃ row ∈ rowPairings left right keys type i, row.right = some j) ↔
      SameKeys left right keys i j := by
    intro i
    have partner : j ∈ partnersOf left right keys i ↔ SameKeys left right keys i j := by
      simp [partnersOf, row]
    rw [← partner, rowPairings]
    by_cases some : partnersOf left right keys i = []
    · by_cases kept : type = .left ∨ type = .full <;> simp [some, kept]
    · simp [some]
  simp [← paired]

/-- The rows of a join are those of the two loops. -/
theorem pairings_eq (wfl : left.WellFormed) (wfr : right.WellFormed)
    (knownl : ∀ c ∈ keys, c ∈ left.names) (knownr : ∀ c ∈ keys, c ∈ right.names)
    (clear : ClearKeys left right keys) :
    pairings left right keys type = .ok (nestedPairings left right keys type) := by
  have rows : (List.range left.numRows).mapM (leftPairings type.keepsLeft
      (arrangedRows left right keys) (presentRows left keys)) =
      .ok ((List.range left.numRows).map (rowPairings left right keys type)) :=
    mapM_eq_map fun i mem =>
      leftPairings_eq clear (List.mem_range.1 mem)
  have alone : (List.range right.numRows).filter (fun j =>
      !((List.range left.numRows).map (rowPairings left right keys type)).flatten.any
        (·.right == some j)) = aloneOf left right keys := by
    refine List.filter_congr fun j mem => ?_
    have found : ((List.range left.numRows).map (rowPairings left right keys type)).flatten.any
        (·.right == some j) = true ↔ ∃ i < left.numRows, SameKeys left right keys i j :=
      any_paired (List.mem_range.1 mem)
    rw [Bool.eq_iff_iff, Bool.not_eq_true', ← Bool.not_eq_true, found]
    simp
  rw [pairings, matchable_eq wfl knownl, matchable_eq wfr knownr]
  show (sortKeyed 32 risingKeys (presentRows right keys) >>= _) = _
  rw [sortKeyed_eq clear]
  show ((List.range left.numRows).mapM (leftPairings type.keepsLeft _ _) >>= _) = _
  rw [rows]
  refine congrArg Except.ok ?_
  rw [alone, nestedPairings, ← List.flatMap_def]
  by_cases kept : type = .right ∨ type = .full
  · rw [if_pos (keepsRight_iff.2 kept), if_pos kept]
  · rw [if_neg (mt keepsRight_iff.1 kept), if_neg kept, List.append_nil]

/-! ## Cells of a join -/

theorem joinedCell_eq {a b : Option Value} : joinedCell a b = firstValue a b := by
  cases a with
  | none => cases b <;> rfl
  | some a => cases a <;> cases b <;> rfl

theorem sideCell_eq {c : String} {position : Option Nat}
    (inside : ∀ cells, t.cells? c = some cells → ∀ i ∈ position, i < cells.length) :
    sideCell (t.cells? c) position = .ok (sideValue t c position) := by
  unfold sideCell sideValue
  cases found : t.cells? c with
  | none => cases position <;> rfl
  | some cells =>
    cases position with
    | none => rfl
    | some i =>
      simp [List.getElem?_eq_getElem (inside cells found i rfl)]

/-- A column of a join over rows that both sides have. -/
theorem joinedColumn_eq {rows : List Pairing} {c : String} (wfl : left.WellFormed)
    (wfr : right.WellFormed) (inside : ∀ row ∈ rows, row.Inside left.numRows right.numRows) :
    joinedColumn left right rows c = .ok ⟨c, rows.map fun row =>
      firstValue (sideValue left c row.left) (sideValue right c row.right)⟩ := by
  have each : rows.mapM (fun row => do
      let a ← sideCell (left.cells? c) row.left
      let b ← sideCell (right.cells? c) row.right
      Except.ok (joinedCell a b)) = .ok (rows.map fun row =>
        firstValue (sideValue left c row.left) (sideValue right c row.right)) := by
    refine mapM_eq_map fun row mem => ?_
    obtain ⟨insidel, insider⟩ := inside row mem
    rw [sideCell_eq fun cells found i place => wfl.length_cells found ▸ insidel i place,
      sideCell_eq fun cells found j place => wfr.length_cells found ▸ insider j place]
    exact congrArg Except.ok joinedCell_eq
  rw [joinedColumn, each]
  rfl

/-- A join of well-formed tables on columns of both is the join of two loops. -/
theorem joinTables_eq (wfl : left.WellFormed) (wfr : right.WellFormed)
    (knownl : ∀ c ∈ keys, c ∈ left.names) (knownr : ∀ c ∈ keys, c ∈ right.names)
    (nodup : columns.Nodup) (unmixed : UnmixedKeys left right keys) :
    joinTables left right columns keys type = .ok (nestedJoin left right columns keys type) := by
  have rows : pairings left right keys type = .ok (nestedPairings left right keys type) :=
    pairings_eq wfl wfr knownl knownr unmixed.clear
  have found : Ends (pairings left right keys type)
      (fun rows => ∀ row ∈ rows, row.Inside left.numRows right.numRows) fun _ => False :=
    pairings_ends wfl wfr knownl knownr fun ⟨_, c, mem, blurred⟩ =>
      unmixed.clear c mem (blurred.mono fun _ => List.mem_append_right _)
  have inside : ∀ row ∈ nestedPairings left right keys type,
      row.Inside left.numRows right.numRows := found.of_eq_ok rows
  have made : columns.mapM (joinedColumn left right (nestedPairings left right keys type)) =
      .ok (nestedJoin left right columns keys type).columns :=
    mapM_eq_map fun c _ =>
      joinedColumn_eq wfl wfr inside
  have wf : (nestedJoin left right columns keys type).WellFormed :=
    wellFormed_map nodup fun _ _ => List.length_map _
  rw [joinTables, rows]
  show (columns.mapM (joinedColumn left right _) >>= _) = _
  rw [made]
  show lift (ofColumns _) = _
  exact lift_eq_ok.2 (ofColumns_eq_ok.2 ⟨wf, rfl⟩)

/-- A join pairs its sides by two loops over their rows. -/
theorem run_join {bindings : NameMap Table} {l r p : Pipeline} (builtl : l.Built)
    (builtr : r.Built) (node : l.naturalJoin r keys type = .ok p)
    (runl : run bindings l = .ok left) (runr : run bindings r = .ok right)
    (unmixed : UnmixedKeys left right keys) :
    run bindings p = .ok (nestedJoin left right p.columns keys type) := by
  have nodup := (Pipeline.Built.naturalJoin builtl builtr node).columns_nodup
  obtain ⟨wfl, namesl⟩ := run_schema builtl runl
  obtain ⟨wfr, namesr⟩ := run_schema builtr runr
  obtain ⟨fits, rfl⟩ := Pipeline.naturalJoin_eq_ok.1 node
  rw [run, runl, runr]
  exact joinTables_eq wfl wfr (fun c mem => namesl ▸ fits.left_known c mem)
    (fun c mem => namesr ▸ fits.right_known c mem) nodup unmixed

/-- Rows of one key on both sides, rows without a key, and rows that are alone. -/
theorem run_join_full :
    let l := Pipeline.table ⟨"l", .empty, ["k", "x"]⟩
    let r := Pipeline.table ⟨"r", .empty, ["x", "k", "y"]⟩
    let p := Pipeline.join l r ["k"] .full
    let bindings := NameMap.ofList [
      ("l", Table.mk [⟨"k", [.int 2, .null, .int 1, .int 2]⟩,
        ⟨"x", [.null, .int 6, .int 7, .int 8]⟩]),
      ("r", Table.mk [⟨"k", [.int 2, .int 3, .null, .int 2]⟩,
        ⟨"x", [.text "a", .text "b", .text "c", .text "d"]⟩,
        ⟨"y", [.int 10, .int 20, .int 30, .int 40]⟩])]
    run bindings p = .ok ⟨[
      ⟨"k", [.int 2, .int 2, .null, .int 1, .int 2, .int 2, .int 3, .null]⟩,
      ⟨"x", [.text "a", .text "d", .int 6, .int 7, .int 8, .int 8, .text "b", .text "c"]⟩,
      ⟨"y", [.int 10, .int 40, .null, .null, .int 10, .int 40, .int 20, .int 30]⟩]⟩ := by
  intro l r p bindings
  have tablel : TableRef.of "l" ["k", "x"] .empty = .ok ⟨"l", .empty, ["k", "x"]⟩ := by decide
  have tabler : TableRef.of "r" ["x", "k", "y"] .empty =
      .ok ⟨"r", .empty, ["x", "k", "y"]⟩ := by decide
  have node : l.naturalJoin r ["k"] .full = .ok p := rfl
  refine (run_join (.table tablel) (.table tabler) node rfl rfl ?_).trans ?_
  · intro c mem i x mi mx
    obtain rfl := List.mem_singleton.1 mem
    simp [cellsOf, cells?, column?] at mx
  · decide

end TableFlow.Eval
