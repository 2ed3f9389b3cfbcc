import TableFlow.Proofs.Table.Sorting
import Mathlib.Data.List.Perm.Basic
import Mathlib.Order.RelClasses

/-!
# Merging

Two lists in rising order, the first one all from before the second, merge to one in rising order,
from the front (`mergeUp_pairwise`) and from the back alike (`mergeDown_eq`). Half a merge from each
end meets in the middle (`mergeEnds?_eq`), so that short lists are sorted (`sortShort?_sorts`).
None of this holds by a comparison that is not transitive. What holds by any comparison is that
nothing is lost where there is a result.
-/

namespace TableFlow

variable {α β : Type} {less : α → α → Bool} {l r out : List α}

/-- Nothing is lost where there is a result. -/
def Keeps (sort? : List α → Option (List α)) : Prop :=
  ∀ l out, sort? l = some out → out.Perm l

/-! ## What is not lost -/

theorem mergeUp_perm : (mergeUp less l r).Perm (l ++ r) :=
  List.merge_perm_append _

theorem mergeDown_perm : (mergeDown less l r).Perm (l ++ r) :=
  calc (mergeDown less l r).Perm (r.reverse ++ l.reverse) :=
        (List.reverse_perm _).trans mergeUp_perm
    _ = (l ++ r).reverse := List.reverse_append.symm
    List.Perm _ (l ++ r) := List.reverse_perm _

theorem merge_perm : (merge less l r).Perm (l ++ r) := by
  rw [merge]
  split
  · exact mergeUp_perm
  · exact mergeDown_perm

/-- So many steps take a start of each list, as long as neither runs out. -/
theorem mergeSteps_takes (less : α → α → Bool) {n : Nat} (hl : n ≤ l.length) (hr : n ≤ r.length) :
    ∃ i j, i + j = n ∧ (mergeSteps less n l r).left = l.drop i ∧
      (mergeSteps less n l r).right = r.drop j ∧
      (mergeSteps less n l r).out.Perm (l.take i ++ r.take j) := by
  induction n generalizing l r with
  | zero => exact ⟨0, 0, rfl, rfl, rfl, .refl _⟩
  | succ n ih =>
    match l, r with
    | a :: l, b :: r =>
      rw [List.length_cons] at hl hr
      rw [mergeSteps]
      split
      · obtain ⟨i, j, sum, left, right, perm⟩ :=
          ih (l := a :: l) (r := r) (by simp; omega) (by omega)
        exact ⟨i, j + 1, by omega, left, right, (perm.cons b).trans List.perm_middle.symm⟩
      · obtain ⟨i, j, sum, left, right, perm⟩ :=
          ih (l := l) (r := b :: r) (by omega) (by simp; omega)
        exact ⟨i + 1, j, by omega, left, right, perm.cons a⟩

/-- Steps from the back leave a start of each list. -/
theorem mergeSteps_leaves (less : α → α → Bool) {n : Nat} (hl : n ≤ l.length) (hr : n ≤ r.length) :
    ∃ i j, i + j + n = l.length + r.length ∧ i ≤ l.length ∧ j ≤ r.length ∧
      (mergeSteps less n r.reverse l.reverse).right.length = i ∧
      (mergeSteps less n r.reverse l.reverse).out.reverse.Perm (l.drop i ++ r.drop j) := by
  obtain ⟨j, i, sum, -, rest, perm⟩ := mergeSteps_takes less
    (hr.trans_eq r.length_reverse.symm) (hl.trans_eq l.length_reverse.symm)
  refine ⟨l.length - i, r.length - j, by omega, by omega, by omega, by simp [rest], ?_⟩
  calc (mergeSteps less n r.reverse l.reverse).out.reverse.Perm
        (r.reverse.take j ++ l.reverse.take i) := (List.reverse_perm _).trans perm
    _ = (r.drop (r.length - j)).reverse ++ (l.drop (l.length - i)).reverse := by
      rw [List.take_reverse, List.take_reverse]
    List.Perm _ (l.drop (l.length - i) ++ r.drop (r.length - j)) :=
      ((List.reverse_perm _).append (List.reverse_perm _)).trans List.perm_append_comm

theorem take_append_take_append_drop {i k : Nat} :
    l.take i ++ ((l.drop i).take k ++ l.drop (i + k)) = l := by
  rw [← List.drop_drop, List.take_append_drop, List.take_append_drop]

/-- Starts of two lists, what comes next in one of them, and the rest of both. -/
theorem perm_crosswise {a b c d m : List α} :
    (a ++ c ++ m ++ (b ++ d)).Perm (a ++ b ++ (c ++ (m ++ d))) ∧
      (a ++ c ++ m ++ (b ++ d)).Perm (a ++ (m ++ b) ++ (c ++ d)) := by
  classical
  constructor <;> refine List.perm_iff_count.2 fun x => ?_ <;>
    simp only [List.count_append] <;> omega

theorem mergeEnds?_perm (halves : l.length = (l.length + r.length) / 2)
    (found : mergeEnds? less l r = some out) : out.Perm (l ++ r) := by
  obtain ⟨i, j, taken, left, right, low⟩ := mergeSteps_takes less
    (n := (l.length + r.length) / 2) (l := l) (r := r) (by omega) (by omega)
  obtain ⟨i', j', remain, -, -, rest, high⟩ := mergeSteps_leaves (fun a b => less b a)
    (n := (l.length + r.length) / 2) (l := l) (r := r) (by omega) (by omega)
  simp only [mergeEnds?, left, right, rest, List.length_drop] at found
  split at found
  · obtain rfl := Option.some.inj found
    obtain rfl : i' = i := by omega
    obtain rfl : j' = j + (l.length + r.length) % 2 := by omega
    refine ((low.append_right _).append high).trans (perm_crosswise.1.trans ?_)
    rw [List.take_append_drop, take_append_take_append_drop]
  · split at found
    · obtain rfl := Option.some.inj found
      obtain rfl : i' = i + (l.length + r.length) % 2 := by omega
      obtain rfl : j' = j := by omega
      refine ((low.append_right _).append high).trans (perm_crosswise.2.trans ?_)
      rw [List.take_append_drop, take_append_take_append_drop]
    · cases found

theorem mergeTwos_perm {p q : α × α} :
    (mergeTwos less p q).Perm ([p.1, p.2] ++ [q.1, q.2]) := by
  classical
  refine List.perm_iff_count.2 fun x => ?_
  rw [mergeTwos]
  cases less q.1 p.1 <;> cases less q.2 p.2 <;>
    simp only [Bool.false_eq_true, if_true, if_false] <;> split <;>
    simp only [List.count_append, List.count_cons, List.count_nil] <;> omega

theorem sortTwo_perm {a b : α} :
    [(sortTwo less a b).1, (sortTwo less a b).2].Perm [a, b] := by
  rw [sortTwo]
  split
  · exact .swap ..
  · exact .refl _

theorem sortFour_perm {a b c d : α} : (sortFour less a b c d).Perm [a, b, c, d] :=
  mergeTwos_perm.trans (sortTwo_perm.append sortTwo_perm)

theorem sortFew?_keeps : Keeps (sortFew? less) := by
  intro l out found
  rw [sortFew?.eq_def] at found
  split at found
  · obtain rfl := Option.some.inj found
    exact sortFour_perm
  · rename_i a b c d e f g h
    refine (mergeEnds?_perm ?_ found).trans (sortFour_perm.append sortFour_perm)
    simp [sortFour_perm.length_eq]
  · obtain rfl := Option.some.inj found
    exact .refl _

theorem sortHalf?_keeps {few : Nat} : Keeps (sortHalf? less few) := by
  intro l out found
  obtain ⟨first, start, rfl⟩ := Option.map_eq_some_iff.1 found
  calc (insertAll less first (l.drop few)).Perm (first ++ l.drop few) := insertAll_perm
    List.Perm _ (l.take few ++ l.drop few) := (sortFew?_keeps _ _ start).append_right _
    _ = l := List.take_append_drop ..

theorem sortShort?_keeps {narrow : Bool} : Keeps (sortShort? less narrow) := by
  intro l out found
  rw [sortShort?] at found
  split at found
  · obtain rfl := Option.some.inj found
    exact .refl _
  · obtain ⟨left, sortedLeft, found⟩ := Option.bind_eq_some_iff.1 found
    obtain ⟨right, sortedRight, found⟩ := Option.bind_eq_some_iff.1 found
    have permLeft := sortHalf?_keeps _ _ sortedLeft
    have permRight := sortHalf?_keeps _ _ sortedRight
    have halves : left.length = (left.length + right.length) / 2 := by
      rw [permLeft.length_eq, permRight.length_eq, List.length_take, List.length_drop]
      omega
    calc out.Perm (left ++ right) := mergeEnds?_perm halves found
      List.Perm _ (l.take (l.length / 2) ++ l.drop (l.length / 2)) := permLeft.append permRight
      _ = l := List.take_append_drop ..

/-! ## What only the comparison matters to -/

def Merging.map (f : α → β) (m : Merging α) : Merging β :=
  ⟨m.out.map f, m.left.map f, m.right.map f⟩

section

variable {less : β → β → Bool} {f : α → β}

theorem mergeUp_map :
    mergeUp less (l.map f) (r.map f) = (mergeUp (fun a b => less (f a) (f b)) l r).map f := by
  rw [mergeUp, mergeUp, List.map_merge (s := fun a b => !less b a) fun _ _ _ _ => rfl]

theorem mergeDown_map :
    mergeDown less (l.map f) (r.map f) = (mergeDown (fun a b => less (f a) (f b)) l r).map f := by
  rw [mergeDown, mergeDown, ← List.map_reverse, ← List.map_reverse, mergeUp_map,
    List.map_reverse]

theorem merge_map :
    merge less (l.map f) (r.map f) = (merge (fun a b => less (f a) (f b)) l r).map f := by
  rw [merge, merge, List.length_map, List.length_map]
  split
  · exact mergeUp_map
  · exact mergeDown_map

theorem mergeSteps_map {n : Nat} :
    mergeSteps less n (l.map f) (r.map f) =
      (mergeSteps (fun a b => less (f a) (f b)) n l r).map f := by
  induction n generalizing l r with
  | zero => rfl
  | succ n ih =>
    match l, r with
    | [], r => rfl
    | a :: l, [] => rfl
    | a :: l, b :: r =>
      rw [List.map_cons, List.map_cons, mergeSteps, mergeSteps]
      split
      · exact congrArg (fun m => { m with out := f b :: m.out }) (ih (l := a :: l) (r := r))
      · exact congrArg (fun m => { m with out := f a :: m.out }) (ih (l := l) (r := b :: r))

theorem mergeEnds?_map :
    mergeEnds? less (l.map f) (r.map f) =
      (mergeEnds? (fun a b => less (f a) (f b)) l r).map (List.map f) := by
  simp only [mergeEnds?, List.length_map, ← List.map_reverse, mergeSteps_map, Merging.map]
  split
  · simp
  · split <;> simp

theorem mergeTwos_map {p q : α × α} :
    mergeTwos less (p.map f f) (q.map f f) =
      (mergeTwos (fun a b => less (f a) (f b)) p q).map f := by
  simp only [mergeTwos, Prod.map]
  by_cases low : less (f q.1) (f p.1) = true <;> by_cases high : less (f q.2) (f p.2) = true <;>
    simp only [low, high, Bool.false_eq_true, if_true, if_false] <;> split <;> rfl

theorem sortTwo_map {a b : α} :
    sortTwo less (f a) (f b) = (sortTwo (fun a b => less (f a) (f b)) a b).map f f := by
  rw [sortTwo, sortTwo]
  split <;> rfl

theorem sortFour_map {a b c d : α} :
    sortFour less (f a) (f b) (f c) (f d) =
      (sortFour (fun a b => less (f a) (f b)) a b c d).map f := by
  rw [sortFour, sortTwo_map, sortTwo_map, mergeTwos_map, sortFour]

theorem sortFew?_map :
    sortFew? less (l.map f) = (sortFew? (fun a b => less (f a) (f b)) l).map (List.map f) := by
  match l with
  | [a, b, c, d] => exact congrArg some sortFour_map
  | [a, b, c, d, e, f, g, h] =>
    simp only [List.map_cons, List.map_nil, sortFew?, sortFour_map, mergeEnds?_map]
  | [] | [_] | [_, _] | [_, _, _] | [_, _, _, _, _] | [_, _, _, _, _, _]
  | [_, _, _, _, _, _, _] | _ :: _ :: _ :: _ :: _ :: _ :: _ :: _ :: _ :: _ => rfl

theorem sortHalf?_map {few : Nat} :
    sortHalf? less few (l.map f) =
      (sortHalf? (fun a b => less (f a) (f b)) few l).map (List.map f) := by
  rw [sortHalf?, sortHalf?, ← List.map_take, ← List.map_drop, sortFew?_map, Option.map_map,
    Option.map_map]
  exact congrArg (Option.map · _) (funext fun first => insertAll_map)

theorem sortShort?_map {narrow : Bool} :
    sortShort? less narrow (l.map f) =
      (sortShort? (fun a b => less (f a) (f b)) narrow l).map (List.map f) := by
  rw [sortShort?, sortShort?, List.length_map]
  split
  · rfl
  · simp only [← List.map_take, ← List.map_drop, sortHalf?_map, mergeEnds?_map,
      Option.bind_eq_bind, Option.bind_map, Option.map_bind, Function.comp_def]

end

/-! ## Rising order -/

/-- Elements that come one before the other are put in rising order. -/
def Sorts (cmp : α → α → Ordering) (before : α → α → Prop)
    (sort? : List α → Option (List α)) : Prop :=
  ∀ l : List α, l.Pairwise before →
    ∃ out, sort? l = some out ∧ out.Pairwise (InOrder cmp before)

@[simp]
theorem mergeUp_nil_left : mergeUp less [] r = r :=
  List.nil_merge r

@[simp]
theorem mergeUp_nil_right : mergeUp less l [] = l :=
  List.merge_right l

theorem mergeUp_cons_cons {a b : α} :
    mergeUp less (a :: l) (b :: r) =
      if less b a then b :: mergeUp less (a :: l) r else a :: mergeUp less l (b :: r) := by
  rw [mergeUp, List.cons_merge_cons]
  cases less b a <;> rfl

/-- What the steps gave, and what the rest of both lists gives. -/
theorem mergeSteps_append {n : Nat} :
    (mergeSteps less n l r).out ++
      mergeUp less (mergeSteps less n l r).left (mergeSteps less n l r).right =
        mergeUp less l r := by
  induction n generalizing l r with
  | zero => rfl
  | succ n ih =>
    match l, r with
    | [], r => rfl
    | a :: l, [] => rfl
    | a :: l, b :: r =>
      rw [mergeUp_cons_cons, mergeSteps]
      split
      · exact congrArg (b :: ·) ih
      · exact congrArg (a :: ·) ih

theorem mergeSteps_out (less : α → α → Bool) {n : Nat} (hl : n ≤ l.length) (hr : n ≤ r.length) :
    (mergeSteps less n l r).out = (mergeUp less l r).take n := by
  obtain ⟨i, j, sum, -, -, perm⟩ := mergeSteps_takes less hl hr
  have length : (mergeSteps less n l r).out.length = n := by
    rw [perm.length_eq, List.length_append, List.length_take, List.length_take]
    omega
  rw [← mergeSteps_append (n := n), List.take_left' length]

variable {cmp : α → α → Ordering} {before : α → α → Prop} [Std.TransCmp cmp]

theorem isLE_of_not_less {a b : α} (above : ¬(cmp b a == .lt) = true) : (cmp a b).isLE = true := by
  have swap : cmp a b = (cmp b a).swap := Std.OrientedCmp.eq_swap
  rw [swap]
  cases outcome : cmp b a <;> simp_all

theorem not_less_of_isLE {a b : α} (le : (cmp a b).isLE = true) : cmp b a ≠ .lt := by
  have swap : cmp a b = (cmp b a).swap := Std.OrientedCmp.eq_swap
  intro less
  rw [swap, less] at le
  cases le

theorem mergeUp_pairwise (left : l.Pairwise (InOrder cmp before))
    (right : r.Pairwise (InOrder cmp before)) (apart : ∀ a ∈ l, ∀ b ∈ r, before a b) :
    (mergeUp (fun a b => cmp a b == .lt) l r).Pairwise (InOrder cmp before) := by
  induction l generalizing r with
  | nil => simpa [mergeUp] using right
  | cons a l ihl =>
    induction r with
    | nil => simpa [mergeUp] using left
    | cons b r ihr =>
      obtain ⟨firstl, restl⟩ := List.pairwise_cons.1 left
      obtain ⟨firstr, restr⟩ := List.pairwise_cons.1 right
      rw [mergeUp_cons_cons]
      split
      · rename_i less
        have less : cmp b a = .lt := by simpa using less
        refine List.pairwise_cons.2 ⟨fun c mem => ?_,
          ihr restr fun c mem d later => apart c mem d (List.mem_cons_of_mem _ later)⟩
        obtain mem | mem := List.mem_append.1 (mergeUp_perm.mem_iff.1 mem)
        · obtain rfl | mem := List.mem_cons.1 mem
          · exact .inl less
          · exact .inl (Std.TransCmp.lt_of_lt_of_isLE less (firstl c mem).isLE)
        · exact firstr c mem
      · rename_i above
        have le : (cmp a b).isLE = true := isLE_of_not_less above
        have apart' := List.forall_mem_cons.1 apart
        refine List.pairwise_cons.2 ⟨fun c mem => ?_, ihl restl right apart'.2⟩
        obtain mem | mem := List.mem_append.1 (mergeUp_perm.mem_iff.1 mem)
        · exact firstl c mem
        · refine inOrder_of_isLE ?_ (apart'.1 c mem)
          obtain rfl | mem := List.mem_cons.1 mem
          · exact le
          · exact Std.TransCmp.isLE_trans le (firstr c mem).isLE

/-- From the back is from the front with both lists, the comparison and the places reversed. -/
theorem mergeDown_pairwise (left : l.Pairwise (InOrder cmp before))
    (right : r.Pairwise (InOrder cmp before)) (apart : ∀ a ∈ l, ∀ b ∈ r, before a b) :
    (mergeDown (fun a b => cmp a b == .lt) l r).Pairwise (InOrder cmp before) := by
  have turned : (mergeUp (fun a b => cmp b a == .lt) r.reverse l.reverse).Pairwise
      (InOrder (fun a b => cmp b a) fun a b => before b a) :=
    mergeUp_pairwise (List.pairwise_reverse.2 right)
      (List.pairwise_reverse.2 left) fun b later a mem => apart a (by simpa using mem) b
        (by simpa using later)
  exact List.pairwise_reverse.2 turned

theorem merge_pairwise (left : l.Pairwise (InOrder cmp before))
    (right : r.Pairwise (InOrder cmp before)) (apart : ∀ a ∈ l, ∀ b ∈ r, before a b) :
    (merge (fun a b => cmp a b == .lt) l r).Pairwise (InOrder cmp before) := by
  rw [merge]
  split
  · exact mergeUp_pairwise left right apart
  · exact mergeDown_pairwise left right apart

theorem apart_of_perm {l' r' : List α} (perml : l'.Perm l) (permr : r'.Perm r)
    (apart : ∀ a ∈ l, ∀ b ∈ r, before a b) : ∀ a ∈ l', ∀ b ∈ r', before a b :=
  fun a mem b later => apart a (perml.mem_iff.1 mem) b (permr.mem_iff.1 later)

variable [Std.Asymm before]

/-- A list in rising order is determined by its elements. -/
theorem eq_of_rising (rising : l.Pairwise (InOrder cmp before))
    (rising' : r.Pairwise (InOrder cmp before)) (perm : l.Perm r) : l = r :=
  perm.eq_of_pairwise (fun _ _ _ _ ab ba => (ab.asymm (Std.Asymm.asymm _ _) ba).elim)
    rising rising'

theorem mergeDown_eq (left : l.Pairwise (InOrder cmp before))
    (right : r.Pairwise (InOrder cmp before)) (apart : ∀ a ∈ l, ∀ b ∈ r, before a b) :
    mergeDown (fun a b => cmp a b == .lt) l r = mergeUp (fun a b => cmp a b == .lt) l r :=
  eq_of_rising (mergeDown_pairwise left right apart) (mergeUp_pairwise left right apart)
    (mergeDown_perm.trans mergeUp_perm.symm)

/-- Steps from the back give the end of the merge from the front. -/
theorem mergeSteps_stop {n : Nat} (hl : n ≤ l.length) (hr : n ≤ r.length)
    (left : l.Pairwise (InOrder cmp before)) (right : r.Pairwise (InOrder cmp before))
    (apart : ∀ a ∈ l, ∀ b ∈ r, before a b) :
    (mergeSteps (fun a b => cmp b a == .lt) n r.reverse l.reverse).out.reverse =
      (mergeUp (fun a b => cmp a b == .lt) l r).drop (l.length + r.length - n) := by
  rw [mergeSteps_out _ (by simpa using hr) (by simpa using hl), List.reverse_take,
    ← mergeDown_eq left right apart, mergeDown, mergeUp_perm.length_eq, List.length_append,
    List.length_reverse, List.length_reverse, Nat.add_comm r.length]

omit [Std.TransCmp cmp] [Std.Asymm before] in
/-- A property tells the elements of one list from those of the other. -/
theorem countP_parts {p : α → Bool} {l' r' : List α} (mine : ∀ a ∈ l, p a = true)
    (other : ∀ b ∈ r, p b = false) (subl : l' ⊆ l) (subr : r' ⊆ r) :
    (l' ++ r').countP p = l'.length := by
  have all : l'.countP p = l'.length :=
    List.countP_eq_length.2 fun a mem => mine a (subl mem)
  have none : r'.countP p = 0 :=
    List.countP_eq_zero.2 fun b mem => Bool.eq_false_iff.1 (other b (subr mem))
  rw [List.countP_append, all, none, Nat.add_zero]

/-- Two merges from the ends leave of the first list what it has in the middle of the whole. -/
theorem mergeSteps_meet {n k : Nat} {p : α → Bool} (size : n + k + n = l.length + r.length)
    (hl : n ≤ l.length) (hr : n ≤ r.length) (left : l.Pairwise (InOrder cmp before))
    (right : r.Pairwise (InOrder cmp before)) (apart : ∀ a ∈ l, ∀ b ∈ r, before a b)
    (mine : ∀ a ∈ l, p a = true) (other : ∀ b ∈ r, p b = false) :
    (mergeSteps (fun a b => cmp a b == .lt) n l r).left.length +
        (mergeSteps (fun a b => cmp b a == .lt) n r.reverse l.reverse).right.length =
      l.length +
        (((mergeUp (fun a b => cmp a b == .lt) l r).drop n).take k).countP p := by
  obtain ⟨i, j, -, restl, -, low⟩ := mergeSteps_takes (fun a b => cmp a b == .lt) hl hr
  obtain ⟨i', j', -, short, -, restr, high⟩ := mergeSteps_leaves (fun a b => cmp b a == .lt) hl hr
  have low := (low.countP_eq p).trans (countP_parts mine other (List.take_subset ..)
    (List.take_subset ..))
  have high := (high.countP_eq p).trans (countP_parts mine other (List.drop_subset ..)
    (List.drop_subset ..))
  have parts : (mergeUp (fun a b => cmp a b == .lt) l r).countP p = l.length :=
    (mergeUp_perm.countP_eq p).trans
      (countP_parts mine other (List.Subset.refl _) (List.Subset.refl _))
  rw [mergeSteps_out _ hl hr, List.length_take] at low
  rw [mergeSteps_stop hl hr left right apart, List.length_drop,
    show l.length + r.length - n = n + k by omega] at high
  rw [restl, restr, List.length_drop]
  generalize mergeUp (fun a b => cmp a b == .lt) l r = whole at low high parts ⊢
  rw [← take_append_take_append_drop (l := whole) (i := n) (k := k), List.countP_append,
    List.countP_append] at parts
  omega

/-- Two merges from the ends of lists in rising order meet, and give the same as one from the
front. -/
theorem mergeEnds?_eq (halves : l.length = (l.length + r.length) / 2)
    (left : l.Pairwise (InOrder cmp before)) (right : r.Pairwise (InOrder cmp before))
    (apart : ∀ a ∈ l, ∀ b ∈ r, before a b) :
    mergeEnds? (fun a b => cmp a b == .lt) l r =
      some (mergeUp (fun a b => cmp a b == .lt) l r) := by
  classical
  generalize half_def : (l.length + r.length) / 2 = half at halves
  generalize odd_def : (l.length + r.length) % 2 = odd
  have mine : ∀ a ∈ l, decide (a ∈ l) = true := fun a mem => decide_eq_true mem
  have other : ∀ b ∈ r, decide (b ∈ l) = false := fun b later => decide_eq_false fun mem =>
    Std.Asymm.asymm b b (apart b mem b later) (apart b mem b later)
  have start := mergeSteps_out (fun a b => cmp a b == .lt) (n := half) (l := l) (r := r)
    (by omega) (by omega)
  have stop := mergeSteps_stop (n := half) (by omega) (by omega) left right apart
  rw [show l.length + r.length - half = half + odd by omega] at stop
  have meet := mergeSteps_meet (n := half) (k := odd) (by omega) (by omega) (by omega) left right
    apart mine other
  generalize whole_def : mergeUp (fun a b => cmp a b == .lt) l r = whole at start stop meet ⊢
  have few : ((whole.drop half).take odd).countP (· ∈ l) ≤ odd :=
    List.countP_le_length.trans (List.length_take_le ..)
  obtain ⟨m, short, found⟩ : ∃ m, m.length ≤ odd ∧
      mergeEnds? (fun a b => cmp a b == .lt) l r =
        some (whole.take half ++ m ++ whole.drop (half + odd)) := by
    simp only [mergeEnds?, half_def, odd_def, start, stop, meet]
    split
    · exact ⟨_, List.length_take_le .., rfl⟩
    · rw [if_pos (by omega)]
      exact ⟨_, List.length_take_le .., rfl⟩
  have perm : (whole.take half ++ (m ++ whole.drop (half + odd))).Perm
      (whole.take half ++ ((whole.drop half).take odd ++ whole.drop (half + odd))) := by
    rw [take_append_take_append_drop, ← List.append_assoc]
    exact (mergeEnds?_perm (half_def ▸ halves) found).trans (whole_def ▸ mergeUp_perm.symm)
  have same : m = (whole.drop half).take odd := by
    have middle := (List.perm_append_right_iff _).1 ((List.perm_append_left_iff _).1 perm)
    have one : m.length ≤ 1 := by omega
    match m, one with
    | [], _ => exact (List.nil_perm.1 middle).symm
    | [a], _ => exact List.singleton_perm.1 middle
  rw [found, same, List.append_assoc, take_append_take_append_drop]

theorem mergeEnds?_sorts (halves : l.length = (l.length + r.length) / 2)
    (left : l.Pairwise (InOrder cmp before)) (right : r.Pairwise (InOrder cmp before))
    (apart : ∀ a ∈ l, ∀ b ∈ r, before a b) :
    ∃ out, mergeEnds? (fun a b => cmp a b == .lt) l r = some out ∧
      out.Pairwise (InOrder cmp before) :=
  ⟨_, mergeEnds?_eq halves left right apart, mergeUp_pairwise left right apart⟩

omit [Std.Asymm before] in
theorem mergeTwos_eq {p q : α × α} (hp : (cmp p.1 p.2).isLE = true)
    (hq : (cmp q.1 q.2).isLE = true) :
    mergeTwos (fun a b => cmp a b == .lt) p q =
      mergeUp (fun a b => cmp a b == .lt) [p.1, p.2] [q.1, q.2] := by
  obtain ⟨a, b⟩ := p
  obtain ⟨c, d⟩ := q
  simp only [mergeTwos, mergeUp_cons_cons]
  by_cases low : cmp c a = .lt <;> by_cases high : cmp d b = .lt
  · simp only [low, high, beq_self_eq_true, if_true, mergeUp_nil_right]
    split <;> rfl
  · have ba : cmp b a ≠ .lt := not_less_of_isLE hp
    have bd : (cmp b d).isLE = true := isLE_of_not_less (by simpa using high)
    have da : cmp d a ≠ .lt := not_less_of_isLE (Std.TransCmp.isLE_trans hp bd)
    simp [low, high, ba, da]
  · have dc : cmp d c ≠ .lt := not_less_of_isLE hq
    have cb : cmp c b = .lt := Std.TransCmp.lt_of_isLE_of_lt hq high
    simp [low, high, dc, cb]
  · simp only [low, high, beq_iff_eq, if_false, mergeUp_nil_left]
    split <;> rfl

omit [Std.TransCmp cmp] [Std.Asymm before] in
theorem sortTwo_eq {a b : α} :
    [(sortTwo less a b).1, (sortTwo less a b).2] = mergeUp less [a] [b] := by
  rw [mergeUp_cons_cons, sortTwo]
  split <;> simp [mergeUp]

omit [Std.Asymm before] in
theorem sortFour_pairwise {a b c d : α} (given : [a, b, c, d].Pairwise before) :
    (sortFour (fun a b => cmp a b == .lt) a b c d).Pairwise (InOrder cmp before) := by
  obtain ⟨first, last, apart⟩ := List.pairwise_append.1
    (show ([a, b] ++ [c, d]).Pairwise before from given)
  have pair {x y : α} (given : [x, y].Pairwise before) :
      [(sortTwo (fun a b => cmp a b == .lt) x y).1,
        (sortTwo (fun a b => cmp a b == .lt) x y).2].Pairwise (InOrder cmp before) := by
    rw [sortTwo_eq]
    exact mergeUp_pairwise (List.pairwise_singleton ..) (List.pairwise_singleton ..)
      (by simpa using given)
  have left := pair first
  have right := pair last
  rw [sortFour, mergeTwos_eq (List.pairwise_pair.1 left).isLE (List.pairwise_pair.1 right).isLE]
  exact mergeUp_pairwise left right (apart_of_perm sortTwo_perm sortTwo_perm apart)

theorem sortFew?_sorts (cmp : α → α → Ordering) [Std.TransCmp cmp] (given : l.Pairwise before)
    (size : l.length = 1 ∨ l.length = 4 ∨ l.length = 8) :
    ∃ out, sortFew? (fun a b => cmp a b == .lt) l = some out ∧
      out.Pairwise (InOrder cmp before) := by
  match l, size with
  | [a], _ => exact ⟨[a], rfl, List.pairwise_singleton ..⟩
  | [a, b, c, d], _ => exact ⟨_, rfl, sortFour_pairwise given⟩
  | [a, b, c, d, e, f, g, h], _ =>
    obtain ⟨first, last, apart⟩ := List.pairwise_append.1
      (show ([a, b, c, d] ++ [e, f, g, h]).Pairwise before from given)
    have left : (sortFour (fun a b => cmp a b == .lt) a b c d).Pairwise (InOrder cmp before) :=
      sortFour_pairwise first
    have right : (sortFour (fun a b => cmp a b == .lt) e f g h).Pairwise (InOrder cmp before) :=
      sortFour_pairwise last
    exact mergeEnds?_sorts (by simp [sortFour_perm.length_eq]) left right
      (apart_of_perm sortFour_perm sortFour_perm apart)

theorem sortHalf?_sorts (cmp : α → α → Ordering) [Std.TransCmp cmp] {few : Nat}
    (given : l.Pairwise before) (size : few ≤ l.length)
    (is : few = 1 ∨ few = 4 ∨ few = 8) :
    ∃ out, sortHalf? (fun a b => cmp a b == .lt) few l = some out ∧
      out.Pairwise (InOrder cmp before) := by
  obtain ⟨first, last, apart⟩ := List.pairwise_append.1 ((l.take_append_drop few).symm ▸ given)
  obtain ⟨start, found, rising⟩ := sortFew?_sorts cmp first
    (by rwa [List.length_take, Nat.min_eq_left size])
  refine ⟨_, congrArg (Option.map _) found, insertAll_pairwise rising last ?_⟩
  exact apart_of_perm (sortFew?_keeps _ _ found) (.refl _) apart

theorem sortShort?_sorts {narrow : Bool} :
    Sorts cmp before (sortShort? (fun a b => cmp a b == .lt) narrow) := by
  intro l given
  rw [sortShort?]
  split
  · rename_i short
    match l, short with
    | [], _ => exact ⟨_, rfl, .nil⟩
    | [a], _ => exact ⟨_, rfl, List.pairwise_singleton ..⟩
  · generalize few_def :
      (if narrow = true ∧ 16 ≤ l.length then 8 else if 8 ≤ l.length then 4 else 1)
      = few
    have size : few ≤ l.length / 2 ∧ (few = 1 ∨ few = 4 ∨ few = 8) := by
      split at few_def
      · omega
      · split at few_def <;> omega
    obtain ⟨first, last, apart⟩ :=
      List.pairwise_append.1 ((l.take_append_drop (l.length / 2)).symm ▸ given)
    have sizel : few ≤ (l.take (l.length / 2)).length := by rw [List.length_take]; omega
    have sizer : few ≤ (l.drop (l.length / 2)).length := by rw [List.length_drop]; omega
    obtain ⟨left, foundl, risingl⟩ := sortHalf?_sorts cmp first sizel size.2
    obtain ⟨right, foundr, risingr⟩ := sortHalf?_sorts cmp last sizer size.2
    have perml := sortHalf?_keeps _ _ foundl
    have permr := sortHalf?_keeps _ _ foundr
    have halves : left.length = (left.length + right.length) / 2 := by
      rw [perml.length_eq, permr.length_eq, List.length_take, List.length_drop]
      omega
    simpa [foundl, foundr] using
      mergeEnds?_sorts halves risingl risingr (apart_of_perm perml permr apart)

end TableFlow
