import TableFlow.Proofs.Table.Equivalence

/-!
# Tables rearranged

A table whose rows and columns are put in another order holds the same cells in the same rows. It
is equivalent to the first one at every tolerance, from either side, if no column holds an
infinity, which is not near itself, nor a double that two different integers of the column are
rounded to, which keeps the rows from being sorted (`rearranged_equivalent_iff`). With cells from
wider columns some table is not equivalent to one of its rearrangements.
-/

namespace TableFlow.Table

open Value

variable {t u : Table} {names : List String} {tolerance : Float}

/-- The cells of a table in the same rows and columns, both in any order. -/
abbrev Rearranged (t u : Table) : Prop := SameRows (· = ·) t u

/-- No infinity, and no double that two different integers are rounded to. -/
structure Steady (S : Set Value) : Prop where
  finite : ∀ v ∈ S, ¬Infinite v
  clear : ¬Blurred S

theorem key_inj {i j : Nat} : t.key names i = u.key names j ↔
    ∀ c ∈ names, t.cell c i = u.cell c j := by
  simp [key]

theorem rearranged_iff : Rearranged t u ↔
    SameNames t u ∧ (t.rowsBy t.names).Perm (u.rowsBy t.names) := by
  rw [Rearranged, sameRows_iff (R := (· = ·)) fun _ _ => key_inj]
  simp

/-- A rearranged table has the first one for a rearrangement. -/
theorem Rearranged.symm (h : Rearranged t u) : Rearranged u t := by
  obtain ⟨same, pairing, cells⟩ := h
  refine ⟨fun c => (same c).symm, pairing.symm, fun j c mem => ?_⟩
  have cell := cells (pairing.symm j) c ((same c).2 mem)
  rw [pairing.apply_symm_apply] at cell
  exact cell.symm

/-- The cells of a rearranged table are those of the first one. -/
theorem Rearranged.inside {cells : String → Set Value} (h : Rearranged t u)
    (inside : ∀ c ∈ t.names, ∀ i < t.numRows, t.cell c i ∈ cells c) :
    ∀ c ∈ u.names, ∀ j < u.numRows, u.cell c j ∈ cells c := by
  obtain ⟨same, pairing, equal⟩ := h.symm
  intro c mem j row
  rw [equal ⟨j, row⟩ c mem]
  exact inside c ((same c).1 mem) _ (pairing ⟨j, row⟩).isLt

theorem rowsBy_inside {cells : String → Set Value} :
    (∀ r ∈ t.rowsBy names, r ∈ Rows (names.map cells)) ↔
      ∀ c ∈ names, ∀ i < t.numRows, t.cell c i ∈ cells c := by
  have row : ∀ i, t.key names i ∈ Rows (names.map cells) ↔ ∀ c ∈ names, t.cell c i ∈ cells c := by
    intro i
    show List.Forall₂ _ (names.map _) (names.map _) ↔ _
    rw [List.forall₂_map_left_iff, List.forall₂_map_right_iff, List.forall₂_same]
  simp only [rowsBy, List.forall_mem_map, List.mem_range, row]
  exact ⟨fun h c mem i row => h i row c mem, fun h i row c mem => h c mem i row⟩

/-- Steady columns make a table equivalent to its rearrangements. -/
theorem equivalent_of_rearranged {cells : String → Set Value} (zero : 0.0 ≤ tolerance)
    (wft : t.WellFormed) (wfu : u.WellFormed) (steady : ∀ c ∈ t.names, Steady (cells c))
    (inside : ∀ c ∈ t.names, ∀ i < t.numRows, t.cell c i ∈ cells c) (h : Rearranged t u) :
    t.equivalent? tolerance u = some true := by
  obtain ⟨same, perm⟩ := rearranged_iff.1 h
  have each : ∀ S ∈ t.names.map cells, Steady S := List.forall_mem_map.2 steady
  have clear : ∀ S ∈ t.names.map cells, ¬Blurred S := fun S mem => (each S mem).clear
  have insidet := rowsBy_inside.2 inside
  have insideu : ∀ s ∈ u.rowsBy t.names, s ∈ Rows (t.names.map cells) := fun s mem =>
    insidet s (perm.mem_iff.2 mem)
  have trans : ∀ r ∈ Rows (t.names.map cells), ∀ s ∈ Rows (t.names.map cells),
      ∀ v ∈ Rows (t.names.map cells), NoGreater r s → NoGreater s v → NoGreater r v :=
    fun _ hr _ hs _ hv => compareRows_trans clear hr hs hv
  obtain ⟨l, sorted, rising⟩ := exists_sorted trans insidet
  obtain ⟨m, sorted', rising'⟩ := exists_sorted trans insideu
  have permt := sortRows?_perm sorted
  have permu := sortRows?_perm sorted'
  have equal : List.Forall₂ (fun r s => compareRows r s = .eq) l m := by
    refine forall₂_sorted (exchange_equal clear) ?_ ?_ rising rising'
      (List.forall₂_same.2 fun r _ => compareRows_self r)
      ((permt.trans perm).trans permu.symm)
    · exact fun r mem => insidet r (permt.mem_iff.1 mem)
    · exact fun s mem => insideu s (permu.mem_iff.1 mem)
  obtain ⟨length, equal⟩ := List.forall₂_iff_zip.1 equal
  refine (equivalent?_iff wft wfu).2 ⟨same, l, m, sorted, sorted',
    List.forall₂_iff_zip.2 ⟨length, fun {r s} mem => ?_⟩⟩
  refine near_of_compareRows zero (fun v hv => ?_) (equal mem)
  obtain ⟨S, column, hS⟩ := exists_of_forall₂
    (insidet r (permt.mem_iff.1 (List.of_mem_zip mem).1)).flip hv
  exact (each S column).finite v hS

/-! ## Columns that are not steady -/

/-- Rows that differ in one cell are near each other only if it is. -/
theorem near_middle {l r : List Value} {v w : Value}
    (h : Near tolerance (l ++ v :: r) (l ++ w :: r)) : v.near tolerance w = true := by
  unfold Near nearRow at h
  rw [List.zip_append rfl, List.zip_cons_cons, List.all_append, List.all_cons] at h
  simp only [Bool.and_eq_true] at h
  exact h.2.1

theorem noGreater_middle {l r : List Value} {v w : Value} (h : v.sortCompare w = .eq) :
    NoGreater (l ++ v :: r) (l ++ w :: r) := by
  rw [NoGreater, compareRows_middle, h]
  rfl

/-- If tables of some rows are equivalent to their rearrangements, rising rows are near those that
they are in another rising order. -/
theorem near_of_rearranging {cells : String → Set Value} (nodup : names.Nodup) (filled : names ≠ [])
    (all : ∀ t u : Table, t.WellFormed → u.WellFormed → t.names = names →
      (∀ c ∈ names, ∀ i < t.numRows, t.cell c i ∈ cells c) → Rearranged t u →
      t.equivalent? tolerance u = some true) (rows rows' : List (List Value))
    (inside : ∀ r ∈ rows, r ∈ Rows (names.map cells)) (short : rows.length ≤ 20)
    (perm : rows.Perm rows')
    (rising : rows.IsChain NoGreater) (rising' : rows'.IsChain NoGreater) :
    List.Forall₂ (Near tolerance) rows rows' := by
  have width : ∀ r ∈ rows, r.length = names.length := fun r mem => by
    simpa using (inside r mem).length_eq
  obtain ⟨t, wft, nt, rt⟩ := exists_table nodup filled width
  obtain ⟨u, wfu, nu, ru⟩ := exists_table nodup filled fun r mem => width r (perm.mem_iff.2 mem)
  have cellsIn := rowsBy_inside.1 (rt.symm ▸ inside)
  have moved : Rearranged t u := rearranged_iff.2 ⟨fun c => by rw [nt, nu], by rwa [nt, rt, ru]⟩
  obtain ⟨-, l, m, sorted, sorted', matched⟩ :=
    (equivalent?_iff wft wfu).1 (all t u wft wfu nt cellsIn moved)
  rw [nt, rt, sortRows?_eq_self short rising] at sorted
  rw [nt, ru, sortRows?_eq_self (perm.length_eq ▸ short) rising'] at sorted'
  cases sorted
  cases sorted'
  exact matched

/-- A column is steady if rising rows that differ in it alone are near those that they are in
another rising order. -/
theorem steady_of_near {S : Set Value} {R : Set (List Value)} {l r : List Value}
    (each : ∀ v ∈ S, l ++ v :: r ∈ R)
    (near : ∀ rows rows' : List (List Value), (∀ r ∈ rows, r ∈ R) → rows.length ≤ 20 →
      rows.Perm rows' → rows.IsChain NoGreater → rows'.IsChain NoGreater →
      List.Forall₂ (Near tolerance) rows rows') : Steady S := by
  constructor
  · intro v hv infinite
    have self := near [l ++ v :: r] [l ++ v :: r] (by simpa using each v hv) (by simp) (.refl _)
      (.singleton _) (.singleton _)
    obtain _ | ⟨self, -⟩ := self
    have self := near_middle self
    rw [near_infinite infinite] at self
    cases self
  · rintro ⟨i, j, apart, mi, mj, same, mx⟩
    -- both integers are equal to the double, so the three rows are in order both ways round
    have first : (int i).sortCompare (float (Number.ofInt64 i)) = .eq := sortCompare_rounded rfl
    have second : (int j).sortCompare (float (Number.ofInt64 i)) = .eq :=
      sortCompare_rounded same.symm
    have ends := near [l ++ int i :: r, l ++ float (Number.ofInt64 i) :: r, l ++ int j :: r]
      [l ++ int j :: r, l ++ float (Number.ofInt64 i) :: r, l ++ int i :: r]
      (by simp [each _ mi, each _ mj, each _ mx]) (by simp) (List.reverse_perm _).symm
      (.cons_cons (noGreater_middle first)
        (.cons_cons (noGreater_middle (sortCompare_eq_comm.1 second)) (.singleton _)))
      (.cons_cons (noGreater_middle second)
        (.cons_cons (noGreater_middle (sortCompare_eq_comm.1 first)) (.singleton _)))
    obtain _ | ⟨ends, -⟩ := ends
    exact apart (near_int.1 (near_middle ends))

/-- Just on steady columns every table is equivalent to its rearrangements, from either side and at
every tolerance. -/
theorem rearranged_equivalent_iff (nodup : names.Nodup) {cells : String → Set Value}
    (nonempty : ∀ c ∈ names, (cells c).Nonempty) :
    (∀ t u : Table, t.WellFormed → u.WellFormed → t.names = names →
      (∀ c ∈ names, ∀ i < t.numRows, t.cell c i ∈ cells c) → Rearranged t u →
      ∀ tolerance : Float, 0.0 ≤ tolerance →
        t.equivalent? tolerance u = some true ∧ u.equivalent? tolerance t = some true) ↔
    ∀ c ∈ names, Steady (cells c) := by
  constructor
  · intro all c mem
    have rows : (Rows (names.map cells)).Nonempty := by
      have : Nonempty Value := ⟨.null⟩
      choose! v hv using nonempty
      exact ⟨names.map v, List.forall₂_map_left_iff.2
        (List.forall₂_map_right_iff.2 (List.forall₂_same.2 hv))⟩
    obtain ⟨l, r, each⟩ := Rows.middle rows (List.mem_map_of_mem mem)
    exact steady_of_near each (near_of_rearranging nodup (List.ne_nil_of_mem mem)
      fun t u wft wfu named inside moved => (all t u wft wfu named inside moved 0.0 (by decide)).1)
  · intro steady t u wft wfu named inside moved tolerance zero
    subst named
    refine ⟨equivalent_of_rearranged zero wft wfu steady inside moved,
      equivalent_of_rearranged zero wfu wft ?_ (moved.inside inside) moved.symm⟩
    exact fun c mem => steady c ((moved.1 c).2 mem)

/-- An integer next to the double that it is rounded to, and missing cells of both kinds. -/
theorem rearranged_equivalent_mixed :
    let S : Set Value :=
      {v | v ∈ [.int 1, .int 2, .float 1.0, .float (0.0 / 0.0), .null, .text "a"]}
    let t : Table := ⟨[⟨"k", [.int 1, .float 1.0, .null, .int 2]⟩,
      ⟨"x", [.text "a", .float (0.0 / 0.0), .null, .int 1]⟩]⟩
    let u : Table := ⟨[⟨"x", [.null, .int 1, .float (0.0 / 0.0), .text "a"]⟩,
      ⟨"k", [.null, .int 2, .float 1.0, .int 1]⟩]⟩
    Steady S ∧ t.WellFormed ∧ u.WellFormed ∧ Rearranged t u ∧ (0.0 : Float) ≤ 0.0 ∧
      t.equivalent? 0.0 u = some true ∧ u.equivalent? 0.0 t = some true := by
  intro S t u
  have steady : Steady S := by
    constructor
    · rintro v mem ⟨x, rfl, infinite⟩
      have finite : x = 1.0 ∨ x = 0.0 / 0.0 := by simpa [S] using mem
      obtain rfl | rfl := finite <;> exact absurd infinite (by decide)
    · rintro ⟨i, j, apart, mi, mj, same, -⟩
      have rounded : Number.ofInt64 1 ≠ Number.ofInt64 2 := by decide
      have one : i = 1 ∨ i = 2 := by simpa [S] using mi
      have two : j = 1 ∨ j = 2 := by simpa [S] using mj
      obtain rfl | rfl := one <;> obtain rfl | rfl := two
      · exact apart rfl
      · exact rounded same
      · exact rounded same.symm
      · exact apart rfl
  have wft : t.WellFormed := ⟨by decide, by decide⟩
  have wfu : u.WellFormed := ⟨by decide, by decide⟩
  have moved : Rearranged t u :=
    rearranged_iff.2 ⟨fun c => by simp [t, u, Table.names, or_comm], by decide⟩
  have zero : (0.0 : Float) ≤ 0.0 := by decide
  have nodup : ["k", "x"].Nodup := by decide
  have nonempty : ∀ c ∈ ["k", "x"], ((fun _ : String => S) c).Nonempty := fun _ _ =>
    ⟨.null, by simp [S]⟩
  have inside : ∀ c ∈ ["k", "x"], ∀ i < 4, t.cell c i ∈ S := by
    show ∀ c ∈ ["k", "x"], ∀ i < 4, t.cell c i ∈ [_, _, _, _, _, _]
    decide
  exact ⟨steady, wft, wfu, moved, zero, (rearranged_equivalent_iff nodup nonempty).2
    (fun _ _ => steady) t u wft wfu rfl inside moved 0.0 zero⟩

/-- A table of one infinite cell is not equivalent to itself, and one of two integers and the
double that both are rounded to is not equivalent to its rows turned around. -/
theorem infinity_apart :
    let t : Table := ⟨[⟨"x", [.float (1.0 / 0.0)]⟩]⟩
    let u : Table := ⟨[⟨"x", [.int 9007199254740993, .float 9007199254740992.0,
      .int 9007199254740992]⟩]⟩
    let v : Table := ⟨[⟨"x", [.int 9007199254740992, .float 9007199254740992.0,
      .int 9007199254740993]⟩]⟩
    t.WellFormed ∧ Rearranged t t ∧ (0.0 : Float) ≤ 1e-9 ∧ t.equivalent? 1e-9 t = some false ∧
      u.WellFormed ∧ v.WellFormed ∧ Rearranged u v ∧ u.equivalent? 1e-9 v = some false := by
  intro t u v
  exact ⟨⟨by decide, by decide⟩, rearranged_iff.2 ⟨fun c => Iff.rfl, .refl _⟩, by decide,
    by decide, ⟨by decide, by decide⟩, ⟨by decide, by decide⟩,
    rearranged_iff.2 ⟨fun c => Iff.rfl, by decide⟩, by decide +kernel⟩

end TableFlow.Table
