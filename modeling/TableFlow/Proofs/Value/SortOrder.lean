import TableFlow.Value.Order
import TableFlow.Proofs.Number.Rounding
import Mathlib.Data.List.Forall2
import Mathlib.Data.Set.Basic

/-!
# The sort order of values

Any two values are ordered one way, and each is equal to itself. The order is transitive on the
values of a set just if no two different integers of the set are rounded to one double that is in
it too (`sortCompare_transCmp_iff`): such a double is equal to both integers, which are compared
exactly with each other. Rows are ordered as their cells are, column by column.
-/

namespace TableFlow.Value

open Number Ordering

variable {a b c : Value}

/-! ## Kinds -/

/-- The place of a value's kind, where missing values are a kind of their own. -/
def group (v : Value) : Nat := if v.isMissing then 3 else v.kindRank

theorem sortCompare_missing (ha : a.isMissing = true) (hb : b.isMissing = true) :
    sortCompare a b = .eq := by
  simp [sortCompare, ha, hb]

theorem sortCompare_present (ha : a.isMissing = false) (hb : b.isMissing = false) :
    sortCompare a b = presentCompare a b := by
  simp [sortCompare, ha, hb]

theorem group_of_missing (h : a.isMissing = true) : a.group = 3 := by
  simp [group, h]

theorem group_of_present (h : a.isMissing = false) : a.group = a.kindRank ∧ a.group < 3 := by
  cases a with
  | null => cases h
  | _ => simp [group, h, kindRank]

/-- Values of different kinds are ordered by their kinds. -/
theorem presentCompare_of_ne (apart : a.kindRank ≠ b.kindRank) :
    presentCompare a b = compare a.kindRank b.kindRank := by
  cases a <;> cases b <;> first | rfl | exact absurd rfl apart

theorem sortCompare_of_lt (less : a.group < b.group) : sortCompare a b = .lt := by
  cases ha : a.isMissing with
  | true =>
    rw [group_of_missing ha] at less
    unfold group at less
    split at less
    · omega
    · cases b <;> simp [kindRank] at less
  | false =>
    cases hb : b.isMissing with
    | true => simp [sortCompare, ha, hb]
    | false =>
      rw [(group_of_present ha).1, (group_of_present hb).1] at less
      rw [sortCompare_present ha hb, presentCompare_of_ne (Nat.ne_of_lt less)]
      exact Nat.compare_eq_lt.2 less

/-! ## Two values -/

theorem compare_swap {α : Type} [Ord α] [Std.OrientedOrd α] (a b : α) :
    compare a b = (compare b a).swap :=
  Std.OrientedOrd.eq_swap

theorem presentCompare_swap (a b : Value) : presentCompare a b = (presentCompare b a).swap := by
  cases a <;> cases b
  case bool.bool p q => exact compare_swap p q
  case int.int i j => exact compare_swap i.toInt j.toInt
  case int.float i x => exact compare_swap (rank (ofInt64 i)) (rank x)
  case float.int x i => exact compare_swap (rank x) (rank (ofInt64 i))
  case float.float x y => exact compare_swap (rank x) (rank y)
  case text.text s t => exact compare_swap s t
  all_goals rfl

/-- The sort order of two values is turned around with them. -/
theorem sortCompare_swap (a b : Value) : sortCompare a b = (sortCompare b a).swap := by
  unfold sortCompare
  cases a.isMissing <;> cases b.isMissing
  · exact presentCompare_swap a b
  · rfl
  · rfl
  · rfl

theorem sortCompare_eq_comm {a b : Value} : sortCompare a b = .eq ↔ sortCompare b a = .eq := by
  rw [sortCompare_swap, Ordering.swap_eq_eq]

theorem sortCompare_self (a : Value) : sortCompare a a = .eq := by
  have swap := sortCompare_swap a a
  cases same : sortCompare a a <;> rw [same] at swap <;> first | rfl | cases swap

theorem group_le (le : (sortCompare a b).isLE = true) : a.group ≤ b.group := by
  by_contra less
  rw [sortCompare_swap, sortCompare_of_lt (Nat.lt_of_not_le less)] at le
  cases le

/-! ## Numbers -/

/-- A number as a double, in the total order of doubles. -/
def place : Value → Int
  | int i => rank (ofInt64 i)
  | float x => rank x
  | _ => 0

theorem number_cases (h : a.kindRank = 1) : (∃ i, a = int i) ∨ ∃ x, a = float x := by
  cases a with
  | int i => exact .inl ⟨i, rfl⟩
  | float x => exact .inr ⟨x, rfl⟩
  | _ => cases h

/-- Two numbers that are not both integers are compared as doubles. -/
theorem presentCompare_place (ha : a.kindRank = 1) (hb : b.kindRank = 1)
    (mixed : ∀ i j, ¬(a = int i ∧ b = int j)) : presentCompare a b = compare a.place b.place := by
  obtain ⟨i, rfl⟩ | ⟨x, rfl⟩ := number_cases ha <;> obtain ⟨j, rfl⟩ | ⟨y, rfl⟩ := number_cases hb
  · exact absurd ⟨rfl, rfl⟩ (mixed i j)
  · rfl
  · rfl
  · rfl

/-- What is no greater is placed no higher, also among integers. -/
theorem place_le (ha : a.kindRank = 1) (hb : b.kindRank = 1)
    (le : (presentCompare a b).isLE = true) : a.place ≤ b.place := by
  by_cases integers : ∃ i j, a = int i ∧ b = int j
  · obtain ⟨i, j, rfl, rfl⟩ := integers
    exact rank_ofInt64_mono (Int.isLE_compare.1 le)
  · rw [presentCompare_place ha hb fun i j same => integers ⟨i, j, same⟩] at le
    exact Int.isLE_compare.1 le

/-- Two different integers of a set and one double in it to which both are rounded. -/
def Blurred (S : Set Value) : Prop :=
  ∃ i j : Int64, i ≠ j ∧ int i ∈ S ∧ int j ∈ S ∧ ofInt64 i = ofInt64 j ∧ float (ofInt64 i) ∈ S

theorem Blurred.mono {S T : Set Value} (blurred : Blurred S) (sub : S ⊆ T) : Blurred T := by
  obtain ⟨i, j, apart, mi, mj, same, mx⟩ := blurred
  exact ⟨i, j, apart, sub mi, sub mj, same, sub mx⟩

theorem number_trans {S : Set Value} (clear : ¬Blurred S) (ma : a ∈ S) (mb : b ∈ S) (mc : c ∈ S)
    (ha : a.kindRank = 1) (hb : b.kindRank = 1) (hc : c.kindRank = 1)
    (ab : (presentCompare a b).isLE = true) (bc : (presentCompare b c).isLE = true) :
    (presentCompare a c).isLE = true := by
  have low := place_le ha hb ab
  have high := place_le hb hc bc
  by_cases integers : ∃ i k, a = int i ∧ c = int k
  · obtain ⟨i, k, rfl, rfl⟩ := integers
    refine Int.isLE_compare.2 ?_
    obtain ⟨j, rfl⟩ | ⟨x, rfl⟩ := number_cases hb
    · exact (Int.isLE_compare.1 ab).trans (Int.isLE_compare.1 bc)
    · -- the double is no less than the one integer as a double and no greater than the other
      by_contra greater
      have back : rank (ofInt64 k) ≤ rank (ofInt64 i) := rank_ofInt64_mono (by omega)
      have first : ofInt64 i = x := rank_injective (by simp only [place] at low high; omega)
      have second : ofInt64 k = x := rank_injective (by simp only [place] at low high; omega)
      refine clear ⟨i, k, fun same => ?_, ma, mc, first.trans second.symm, first ▸ mb⟩
      rw [same] at greater
      omega
  · rw [presentCompare_place ha hc fun i k same => integers ⟨i, k, same⟩]
    exact Int.isLE_compare.2 (low.trans high)

/-! ## Three values -/

/-- Present values of one kind. -/
theorem kind_trans {S : Set Value} (clear : ¬Blurred S) (ma : a ∈ S) (mb : b ∈ S) (mc : c ∈ S)
    (present : a.kindRank < 3) (hb : b.kindRank = a.kindRank) (hc : c.kindRank = a.kindRank)
    (ab : (presentCompare a b).isLE = true) (bc : (presentCompare b c).isLE = true) :
    (presentCompare a c).isLE = true := by
  cases a with
  | null => cases Nat.lt_irrefl _ present
  | bool p =>
    cases b <;> cases hb
    cases c <;> cases hc
    exact Std.TransOrd.isLE_trans ab bc
  | int i => exact number_trans clear ma mb mc rfl hb hc ab bc
  | float x => exact number_trans clear ma mb mc rfl hb hc ab bc
  | text s =>
    cases b <;> cases hb
    cases c <;> cases hc
    rename_i t u
    exact Std.TransOrd.isLE_trans (a := s) (b := t) (c := u) ab bc

theorem present_of_group (h : a.group < 3) : a.isMissing = false := by
  cases missing : a.isMissing with
  | true =>
    rw [group_of_missing missing] at h
    cases Nat.lt_irrefl _ h
  | false => rfl

/-- The sort order is transitive where no double is equal to two integers. -/
theorem sortCompare_trans {S : Set Value} (clear : ¬Blurred S) (ma : a ∈ S) (mb : b ∈ S)
    (mc : c ∈ S) (ab : (sortCompare a b).isLE = true) (bc : (sortCompare b c).isLE = true) :
    (sortCompare a c).isLE = true := by
  have low := group_le ab
  have high := group_le bc
  obtain less | same := Nat.lt_or_eq_of_le (low.trans high)
  · rw [sortCompare_of_lt less]
    rfl
  cases hc : c.isMissing with
  | true =>
    have ha : a.isMissing = true := by
      cases ha : a.isMissing with
      | true => rfl
      | false =>
        have := (group_of_present ha).2
        have := group_of_missing hc
        omega
    rw [sortCompare_missing ha hc]
    rfl
  | false =>
    obtain ⟨kindc, small⟩ := group_of_present hc
    have ha := present_of_group (a := a) (by omega)
    have hb := present_of_group (a := b) (by omega)
    have kinda := (group_of_present ha).1
    have kindb := (group_of_present hb).1
    rw [sortCompare_present ha hb] at ab
    rw [sortCompare_present hb hc] at bc
    rw [sortCompare_present ha hc]
    exact kind_trans clear ma mb mc (by omega) (by omega) (by omega) ab bc

/-- An integer is equal to the double that it is rounded to. -/
theorem sortCompare_rounded {i : Int64} {x : Float} (same : ofInt64 i = x) :
    sortCompare (int i) (float x) = .eq := by
  have number : (float x).isMissing = false := same ▸ isNaN_ofInt64 i
  rw [sortCompare_present rfl number, presentCompare_place rfl rfl (by simp), ← same]
  exact Int.compare_eq_eq.2 rfl

theorem sortCompare_int (i j : Int64) : sortCompare (int i) (int j) = compare i.toInt j.toInt := rfl

/-- A smaller integer, a greater one, and the double that both are equal to. -/
theorem Blurred.exists_lt {S : Set Value} (blurred : Blurred S) :
    ∃ (i j : Int64) (x : Float), int i ∈ S ∧ int j ∈ S ∧ float x ∈ S ∧
      i.toInt < j.toInt ∧ ofInt64 i = x ∧ ofInt64 j = x := by
  obtain ⟨i, j, apart, mi, mj, same, mx⟩ := blurred
  obtain below | above := Int.lt_or_gt_of_ne (mt Int64.toInt_inj.1 apart)
  · exact ⟨i, j, _, mi, mj, mx, below, rfl, same.symm⟩
  · exact ⟨j, i, _, mj, mi, mx, above, same.symm, rfl⟩

/-- Of two integers and the double that both are equal to, the smaller integer is less than the
greater one, and none is less than another otherwise. -/
theorem sortCompare_blurred {i j : Int64} {x : Float} (less : i.toInt < j.toInt)
    (low : ofInt64 i = x) (high : ofInt64 j = x) (a b : Fin 3) :
    ((![int i, float x, int j] a).sortCompare (![int i, float x, int j] b) == .lt) =
      decide (a = 0 ∧ b = 2) := by
  have ix := sortCompare_rounded low
  have jx := sortCompare_rounded high
  have xi := sortCompare_eq_comm.1 ix
  have xj := sortCompare_eq_comm.1 jx
  have ij : sortCompare (int i) (int j) = .lt := Int.compare_eq_lt.2 less
  have ji : sortCompare (int j) (int i) = .gt := Int.compare_eq_gt.2 less
  fin_cases a <;> fin_cases b <;> simp [sortCompare_self, ix, jx, xi, xj, ij, ji]

/-- A double that is equal to two integers keeps the order from being transitive. -/
theorem not_blurred {S : Set Value} (trans : ∀ a ∈ S, ∀ b ∈ S, ∀ c ∈ S,
    (sortCompare a b).isLE = true → (sortCompare b c).isLE = true → (sortCompare a c).isLE = true) :
    ¬Blurred S := by
  rintro ⟨i, j, ne, mi, mj, same, mx⟩
  have first : sortCompare (int i) (float (ofInt64 i)) = .eq := sortCompare_rounded rfl
  have second : sortCompare (int j) (float (ofInt64 i)) = .eq := sortCompare_rounded same.symm
  have le := trans _ mi _ mx _ mj (by rw [first]; rfl) (by rw [sortCompare_swap, second]; rfl)
  have ge := trans _ mj _ mx _ mi (by rw [second]; rfl) (by rw [sortCompare_swap, first]; rfl)
  rw [sortCompare_int, Int.isLE_compare] at le ge
  exact ne (Int64.toInt_inj.1 (Int.le_antisymm le ge))

/-! ## Rows -/

/-- The rows whose cells are taken from given sets, one for each column. -/
def Rows (columns : List (Set Value)) : Set (List Value) :=
  {row | List.Forall₂ (· ∈ ·) row columns}

theorem compareRows_swap (as bs : List Value) :
    compareRows as bs = (compareRows bs as).swap := by
  induction as generalizing bs with
  | nil => cases bs <;> rfl
  | cons a as ih =>
    cases bs with
    | nil => rfl
    | cons b bs =>
      rw [compareRows, compareRows, sortCompare_swap a b, ih bs]
      cases sortCompare b a <;> rfl

theorem compareRows_self (as : List Value) : compareRows as as = .eq := by
  induction as with
  | nil => rfl
  | cons a as ih =>
    rw [compareRows, sortCompare_self]
    exact ih

theorem isLE_compareRows {as bs : List Value} :
    (compareRows (a :: as) (b :: bs)).isLE = true ↔
      sortCompare a b = .lt ∨ sortCompare a b = .eq ∧ (compareRows as bs).isLE = true := by
  rw [compareRows]
  cases sortCompare a b <;> simp

/-- What is equal at the ends is equal in between. -/
theorem eq_of_sortCompare_eq {S : Set Value} (clear : ¬Blurred S) (ma : a ∈ S) (mb : b ∈ S)
    (mc : c ∈ S) (ab : (sortCompare a b).isLE = true) (bc : (sortCompare b c).isLE = true)
    (ac : sortCompare a c = .eq) : sortCompare a b = .eq ∧ sortCompare b c = .eq := by
  have ca : (sortCompare c a).isLE = true := by
    rw [sortCompare_swap, ac]
    rfl
  have ba := sortCompare_trans clear mb mc ma bc ca
  have cb := sortCompare_trans clear mc ma mb ca ab
  rw [sortCompare_swap] at ba cb
  exact ⟨eq_eq_of_isLE_of_isLE_swap ab ba, eq_eq_of_isLE_of_isLE_swap bc cb⟩

theorem compareRows_trans {columns : List (Set Value)} (clear : ∀ S ∈ columns, ¬Blurred S)
    {as bs cs : List Value} (ma : as ∈ Rows columns) (mb : bs ∈ Rows columns)
    (mc : cs ∈ Rows columns) (ab : (compareRows as bs).isLE = true)
    (bc : (compareRows bs cs).isLE = true) : (compareRows as cs).isLE = true := by
  induction ma generalizing bs cs with
  | nil =>
    cases mb
    cases mc
    rfl
  | @cons a S as columns ha tails ih =>
    obtain _ | ⟨hb, tailsb⟩ := mb
    obtain _ | ⟨hc, tailsc⟩ := mc
    rename_i b bs c cs
    have inS := clear S (List.mem_cons_self ..)
    rw [isLE_compareRows] at ab bc ⊢
    have firstab : (sortCompare a b).isLE = true := by
      obtain less | ⟨same, -⟩ := ab <;> simp [*]
    have firstbc : (sortCompare b c).isLE = true := by
      obtain less | ⟨same, -⟩ := bc <;> simp [*]
    have first := sortCompare_trans inS ha hb hc firstab firstbc
    cases ac : sortCompare a c with
    | lt => exact .inl rfl
    | gt => rw [ac] at first; cases first
    | eq =>
      obtain ⟨sameab, samebc⟩ := eq_of_sortCompare_eq inS ha hb hc firstab firstbc ac
      refine .inr ⟨rfl, ih (fun T hT => clear T (List.mem_cons_of_mem _ hT)) tailsb tailsc ?_ ?_⟩
      · simpa [sameab] using ab
      · simpa [samebc] using bc

/-- Rows that differ in one cell are ordered as it is. -/
theorem compareRows_middle (l r : List Value) (a b : Value) :
    compareRows (l ++ a :: r) (l ++ b :: r) = sortCompare a b := by
  induction l with
  | nil =>
    rw [List.nil_append, List.nil_append, compareRows, compareRows_self]
    cases sortCompare a b <;> rfl
  | cons c l ih =>
    rw [List.cons_append, List.cons_append, compareRows, sortCompare_self]
    exact ih

theorem Rows.middle {columns : List (Set Value)} {S : Set Value} (some : (Rows columns).Nonempty)
    (mem : S ∈ columns) : ∃ l r, ∀ a ∈ S, l ++ a :: r ∈ Rows columns := by
  obtain ⟨row, fits⟩ := some
  induction fits with
  | nil => cases mem
  | @cons a T row columns first rest ih =>
    obtain rfl | mem := List.mem_cons.1 mem
    · exact ⟨[], row, fun a ha => .cons ha rest⟩
    · obtain ⟨l, r, each⟩ := ih mem
      exact ⟨a :: l, r, fun b hb => .cons first (each b hb)⟩

/-! ## Total preorders -/

/-- Every value and every row is equal to itself, and two of them turned around are ordered the
other way. The order is transitive on a set of values just if no double in it is equal to two
integers in it, and on the rows of some columns just if that holds of each column. -/
theorem sortCompare_transCmp_iff (S : Set Value) (columns : List (Set Value)) :
    (∀ a, sortCompare a a = .eq) ∧ (∀ a b, sortCompare b a = (sortCompare a b).swap) ∧
      (∀ as, compareRows as as = .eq) ∧
      (∀ as bs, compareRows bs as = (compareRows as bs).swap) ∧
      (Std.TransCmp (fun a b : S => sortCompare a b) ↔ ¬Blurred S) ∧
      ((Rows columns).Nonempty →
        (Std.TransCmp (fun a b : Rows columns => compareRows a b) ↔
          ∀ S ∈ columns, ¬Blurred S)) := by
  refine ⟨sortCompare_self, fun a b => sortCompare_swap b a, compareRows_self,
    fun as bs => compareRows_swap bs as, ⟨fun trans => ?_, fun clear => ?_⟩,
    fun some => ⟨fun trans S mem => ?_, fun clear => ?_⟩⟩
  · refine not_blurred fun a ha b hb c hc ab bc => ?_
    exact trans.isLE_trans (a := ⟨a, ha⟩) (b := ⟨b, hb⟩) (c := ⟨c, hc⟩) ab bc
  · exact { eq_swap := sortCompare_swap _ _
            isLE_trans := fun {a b c} => sortCompare_trans clear a.2 b.2 c.2 }
  · obtain ⟨l, r, each⟩ := Rows.middle some mem
    refine not_blurred fun a ha b hb c hc ab bc => ?_
    rw [← compareRows_middle l r] at ab bc ⊢
    exact trans.isLE_trans (a := ⟨_, each a ha⟩) (b := ⟨_, each b hb⟩) (c := ⟨_, each c hc⟩) ab bc
  · exact { eq_swap := compareRows_swap _ _
            isLE_trans := fun {a b c} => compareRows_trans clear a.2 b.2 c.2 }

/-- Two integers beyond 53 bits, and the double that one of them is rounded to. -/
theorem sortCompare_transCmp_mixed :
    let S : Set Value := {.null, .bool true, .text "a", .int 9007199254740993,
      .int 9007199254740995, .float 9007199254740992.0}
    ¬Blurred S ∧ Std.TransCmp (fun a b : S => sortCompare a b) ∧
      (Rows [S, S]).Nonempty ∧ Std.TransCmp (fun a b : Rows [S, S] => compareRows a b) := by
  intro S
  have integers : ∀ i, .int i ∈ S → i = 9007199254740993 ∨ i = 9007199254740995 := by
    intro i mem
    simpa [S] using mem
  have apart : ofInt64 9007199254740993 ≠ ofInt64 9007199254740995 := by decide +kernel
  have clear : ¬Blurred S := by
    rintro ⟨i, j, ne, mi, mj, same, -⟩
    obtain rfl | rfl := integers i mi <;> obtain rfl | rfl := integers j mj
    · exact ne rfl
    · exact apart same
    · exact apart same.symm
    · exact ne rfl
  have some : (Rows [S, S]).Nonempty :=
    ⟨[.null, .null], .cons (.inl rfl) (.cons (.inl rfl) .nil)⟩
  obtain ⟨-, -, -, -, values, rows⟩ := sortCompare_transCmp_iff S [S, S]
  exact ⟨clear, values.2 clear, some, (rows some).2 (by simpa using clear)⟩

/-- A double that two integers are rounded to is equal to both, though one is greater. -/
theorem equal_to_both_neighbours :
    sortCompare (.int 9007199254740993) (.float 9007199254740992.0) = .eq ∧
      sortCompare (.float 9007199254740992.0) (.int 9007199254740992) = .eq ∧
      sortCompare (.int 9007199254740993) (.int 9007199254740992) = .gt ∧
      compareRows [.int 9007199254740993] [.float 9007199254740992.0] = .eq ∧
      compareRows [.float 9007199254740992.0] [.int 9007199254740992] = .eq ∧
      compareRows [.int 9007199254740993] [.int 9007199254740992] = .gt := by
  decide +kernel

end TableFlow.Value
