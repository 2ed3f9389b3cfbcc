import TableFlow.Table.Sorting
import Mathlib.Data.List.Basic
import Mathlib.Data.List.Chain
import Mathlib.Data.List.Forall2
import Mathlib.Data.Set.Basic

/-!
# What sorting by insertion gives

By a comparison that is a total preorder, a list is put in rising order, and of equal elements
the one that came first stays first (`sortStable_pairwise`). Elements among which none is less
than another are not rearranged at all (`filter_sortStable`), and a list in which none is less than
the one in front of it stays as it is (`sortStable_eq_self`). Where two lists match in some order,
they match in rising order if partners can be exchanged (`forall₂_sorted`).
-/

namespace TableFlow

variable {α β : Type} {less : α → α → Bool} {a : α} {l : List α}

/-! ## What is not lost and what is not rearranged -/

theorem insertFalling_perm : (insertFalling less a l).Perm (a :: l) := by
  induction l with
  | nil => exact .refl _
  | cons b rest ih =>
    unfold insertFalling
    split
    · exact (ih.cons b).trans (.swap ..)
    · exact .refl _

theorem insertAll_cons {sorted : List α} :
    insertAll less sorted (a :: l) =
      insertAll less (insertFalling less a sorted.reverse).reverse l := by
  rw [insertAll, insertAll, List.foldl_cons, List.reverse_reverse]

theorem insertAll_perm {sorted : List α} : (insertAll less sorted l).Perm (sorted ++ l) := by
  induction l generalizing sorted with
  | nil => simp [insertAll]
  | cons a l ih =>
    rw [insertAll_cons]
    have put : (insertFalling less a sorted.reverse).reverse.Perm (a :: sorted) :=
      (List.reverse_perm _).trans (insertFalling_perm.trans ((List.reverse_perm sorted).cons a))
    exact ih.trans ((put.append_right l).trans List.perm_middle.symm)

theorem sortStable_perm : (sortStable less l).Perm l :=
  insertAll_perm

theorem filter_insertFalling {p : α → Bool}
    (alike : ∀ a b, p a = true → p b = true → less a b = false) :
    (insertFalling less a l).filter p = (if p a then [a] else []) ++ l.filter p := by
  induction l with
  | nil => by_cases here : p a = true <;> simp [insertFalling, here]
  | cons b l ih =>
    rw [insertFalling]
    split
    · rename_i below
      have apart : ¬(p a = true ∧ p b = true) := by
        rintro ⟨pa, pb⟩
        rw [alike a b pa pb] at below
        cases below
      by_cases pa : p a = true <;> by_cases pb : p b = true <;> simp_all
    · by_cases pa : p a = true <;> simp [pa]

theorem filter_insertAll {p : α → Bool} {sorted : List α}
    (alike : ∀ a b, p a = true → p b = true → less a b = false) :
    (insertAll less sorted l).filter p = sorted.filter p ++ l.filter p := by
  induction l generalizing sorted with
  | nil => simp [insertAll]
  | cons a l ih =>
    rw [insertAll_cons, ih, List.filter_reverse, filter_insertFalling alike, List.filter_reverse]
    by_cases pa : p a = true <;> simp [pa]

/-- The elements of a kind keep their order if none of them is less than another. -/
theorem filter_sortStable {p : α → Bool}
    (alike : ∀ a b, p a = true → p b = true → less a b = false) :
    (sortStable less l).filter p = l.filter p :=
  filter_insertAll alike

theorem insertAll_eq_append {sorted : List α}
    (rising : (sorted ++ l).IsChain fun a b => less b a = false) :
    insertAll less sorted l = sorted ++ l := by
  induction l generalizing sorted with
  | nil => simp [insertAll]
  | cons a l ih =>
    have put : insertFalling less a sorted.reverse = a :: sorted.reverse := by
      cases split : sorted.reverse with
      | nil => rfl
      | cons b before =>
        have above : less a b = false := by
          rw [List.reverse_eq_iff.1 split, List.reverse_cons, List.append_assoc] at rising
          exact (List.isChain_append_cons_cons.1 rising).2.1
        rw [insertFalling, above]
        rfl
    rw [insertAll_cons, put, ih (by simpa using rising)]
    simp

/-- A list stays as it is if no element is less than the one in front of it. -/
theorem sortStable_eq_self (rising : l.IsChain fun a b => less b a = false) :
    sortStable less l = l :=
  insertAll_eq_append rising

theorem insertFalling_map {less : β → β → Bool} {f : α → β} :
    insertFalling less (f a) (l.map f) =
      (insertFalling (fun a b => less (f a) (f b)) a l).map f := by
  induction l with
  | nil => rfl
  | cons b l ih =>
    rw [List.map_cons, insertFalling, insertFalling]
    split
    · rw [ih, List.map_cons]
    · rfl

theorem insertAll_map {less : β → β → Bool} {f : α → β} {sorted : List α} :
    insertAll less (sorted.map f) (l.map f) =
      (insertAll (fun a b => less (f a) (f b)) sorted l).map f := by
  induction l generalizing sorted with
  | nil => simp [insertAll]
  | cons a l ih =>
    rw [List.map_cons, insertAll_cons, insertAll_cons, ← List.map_reverse, insertFalling_map,
      ← List.map_reverse, ih]

/-- What is sorted by a property of the elements can be sorted before they are made. -/
theorem sortStable_map {less : β → β → Bool} {f : α → β} :
    sortStable less (l.map f) = (sortStable (fun a b => less (f a) (f b)) l).map f := by
  rw [sortStable, sortStable, ← insertAll_map, List.map_nil]

/-! ## Rising order -/

section

variable {cmp : α → α → Ordering} {before : α → α → Prop}

/-- In order: less, or equal and before. -/
def InOrder (cmp : α → α → Ordering) (before : α → α → Prop) (a b : α) : Prop :=
  cmp a b = .lt ∨ cmp a b = .eq ∧ before a b

theorem InOrder.isLE {a b : α} (h : InOrder cmp before a b) : (cmp a b).isLE = true := by
  obtain less | ⟨same, -⟩ := h
  · rw [less]; rfl
  · rw [same]; rfl

theorem inOrder_of_isLE {a b : α} (le : (cmp a b).isLE = true) (first : before a b) :
    InOrder cmp before a b := by
  cases outcome : cmp a b with
  | lt => exact .inl outcome
  | eq => exact .inr ⟨outcome, first⟩
  | gt => rw [outcome] at le; cases le

theorem InOrder.asymm {a b : α} [Std.OrientedCmp cmp] (h : InOrder cmp before a b)
    (apart : before a b → ¬before b a) : ¬InOrder cmp before b a := by
  rintro (below | ⟨same, after⟩)
  · have le := h.isLE
    rw [Std.OrientedCmp.gt_iff_lt.2 below] at le
    cases le
  · obtain below | ⟨-, first⟩ := h
    · rw [Std.OrientedCmp.eq_comm.1 same] at below
      cases below
    · exact apart first after

variable [Std.TransCmp cmp]

theorem insertFalling_pairwise (sorted : l.Pairwise fun a b => InOrder cmp before b a)
    (last : ∀ b ∈ l, before b a) :
    (insertFalling (fun a b => cmp a b == .lt) a l).Pairwise
      fun a b => InOrder cmp before b a := by
  induction l with
  | nil => exact List.pairwise_singleton _ _
  | cons b l ih =>
    obtain ⟨head, rest⟩ := List.pairwise_cons.1 sorted
    rw [insertFalling]
    split
    · rename_i below
      refine List.pairwise_cons.2 ⟨fun c mem => ?_,
        ih rest fun c mem => last c (List.mem_cons_of_mem _ mem)⟩
      obtain rfl | mem := List.mem_cons.1 (insertFalling_perm.mem_iff.1 mem)
      · exact .inl (by simpa using below)
      · exact head c mem
    · rename_i above
      have le : (cmp b a).isLE = true := by
        have swap : cmp b a = (cmp a b).swap := Std.OrientedCmp.eq_swap
        rw [swap]
        cases outcome : cmp a b <;> simp_all
      refine List.pairwise_cons.2 ⟨fun c mem => ?_, sorted⟩
      obtain rfl | inner := List.mem_cons.1 mem
      · exact inOrder_of_isLE le (last c mem)
      · exact inOrder_of_isLE (Std.TransCmp.isLE_trans (head c inner).isLE le) (last c mem)

theorem insertAll_pairwise {sorted : List α} (rising : sorted.Pairwise (InOrder cmp before))
    (given : l.Pairwise before) (apart : ∀ b ∈ sorted, ∀ a ∈ l, before b a) :
    (insertAll (fun a b => cmp a b == .lt) sorted l).Pairwise (InOrder cmp before) := by
  induction l generalizing sorted with
  | nil => simpa [insertAll] using rising
  | cons a l ih =>
    obtain ⟨first, rest⟩ := List.pairwise_cons.1 given
    rw [insertAll_cons]
    refine ih ?_ rest fun b mem c later => ?_
    · rw [List.pairwise_reverse]
      exact insertFalling_pairwise (List.pairwise_reverse.2 (by simpa using rising))
        fun b mem => apart b (by simpa using mem) a (List.mem_cons_self ..)
    · obtain rfl | mem := List.mem_cons.1 (insertFalling_perm.mem_iff.1 (List.mem_reverse.1 mem))
      · exact first c later
      · exact apart b (by simpa using mem) c (List.mem_cons_of_mem _ later)

/-- Sorted by a total preorder, a list is in rising order, and equal elements stay in the order
in which they came. -/
theorem sortStable_pairwise (given : l.Pairwise before) :
    (sortStable (fun a b => cmp a b == .lt) l).Pairwise (InOrder cmp before) :=
  insertAll_pairwise .nil given (by simp)

end

/-! ## Matching in rising order -/

/-- Partners can be exchanged: of two elements in order that match two others crosswise, each one
matches in order as well. -/
def Exchange (le near : α → α → Prop) (R : Set α) : Prop :=
  ∀ a ∈ R, ∀ a' ∈ R, ∀ b ∈ R, ∀ b' ∈ R, le a a' → le b b' → near a b' → near a' b →
    near a b ∧ near a' b'

/-- The partner of an element can be put in another's place where that matches too. -/
theorem exists_partner {near : α → α → Prop} {b : α} {before after : List α}
    (matched : List.Forall₂ near l (before ++ b :: after)) :
    ∃ a ∈ l, near a b ∧ ∀ b', near a b' → List.Forall₂ near l (before ++ b' :: after) := by
  induction before generalizing l with
  | nil =>
    obtain _ | ⟨here, rest⟩ := matched
    exact ⟨_, List.mem_cons_self .., here, fun b' other => .cons other rest⟩
  | cons c before ih =>
    obtain _ | ⟨first, rest⟩ := matched
    obtain ⟨a, mem, here, replace⟩ := ih rest
    exact ⟨a, List.mem_cons_of_mem _ mem, here, fun b' other => .cons first (replace b' other)⟩

/-- Lists that match in some order match in rising order if partners can be exchanged. -/
theorem forall₂_sorted {le near : α → α → Prop} {R : Set α} {m m' : List α}
    (exchange : Exchange le near R) (inside : ∀ a ∈ l, a ∈ R) (inside' : ∀ b ∈ m, b ∈ R)
    (rising : l.Pairwise le) (rising' : m.Pairwise le) (matched : List.Forall₂ near l m')
    (perm : m'.Perm m) : List.Forall₂ near l m := by
  induction l generalizing m m' with
  | nil =>
    cases matched
    obtain rfl := List.nil_perm.1 perm
    exact .nil
  | cons a l ih =>
    obtain _ | ⟨here, rest⟩ := matched
    rename_i b' m'
    obtain ⟨ha, insidel⟩ := List.forall_mem_cons.1 inside
    obtain ⟨first, risingl⟩ := List.pairwise_cons.1 rising
    cases m with
    | nil => cases perm.eq_nil
    | cons b m =>
      obtain ⟨hb, insidem⟩ := List.forall_mem_cons.1 inside'
      obtain ⟨first', risingm⟩ := List.pairwise_cons.1 rising'
      by_cases same : b' = b
      · subst same
        exact .cons here (ih insidel insidem risingl risingm rest perm.cons_inv)
      · -- the least element on the right is the partner of a later one, which takes over `b'`
        have early : b' ∈ m :=
          (List.mem_cons.1 (perm.mem_iff.1 (List.mem_cons_self ..))).resolve_left same
        have later : b ∈ m' :=
          (List.mem_cons.1 (perm.mem_iff.2 (List.mem_cons_self ..))).resolve_left (Ne.symm same)
        obtain ⟨before, after, rfl⟩ := List.append_of_mem later
        obtain ⟨a', mem, there, replace⟩ := exists_partner rest
        obtain ⟨now, then'⟩ := exchange a ha a' (insidel a' mem) b hb b' (insidem b' early)
          (first a' mem) (first' b' early) here there
        have swapped : (b :: (before ++ b' :: after)).Perm (b :: m) :=
          (List.perm_middle.cons b).trans ((List.Perm.swap ..).trans
            ((List.perm_middle.symm.cons b').trans perm))
        exact .cons now
          (ih insidel insidem risingl risingm (replace b' then') swapped.cons_inv)

end TableFlow
