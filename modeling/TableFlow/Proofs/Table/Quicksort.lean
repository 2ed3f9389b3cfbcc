import TableFlow.Proofs.Table.Merging

/-!
# Quicksort by a stable partition

A partition around a pivot keeps the elements of both parts in the order in which they came, so
quicksort puts elements that come one before the other in rising order (`quicksort?_sorts`). What
carries it is that no element is less than the pivot it was last found not less than: where the
new pivot is not greater than that one, everything not greater than the new pivot is equal to it.
-/

namespace TableFlow

variable {α β : Type} {less : α → α → Bool} {l out : List α} {a : α}

/-! ## The pivot -/

theorem middle_lt {less : Nat → Nat → Bool} {i j k n : Nat} (hi : i < n) (hj : j < n) (hk : k < n) :
    middle less i j k < n := by
  rw [middle]
  split
  · split
    · exact hj
    · exact hk
  · exact hi

theorem middleOf_lt {less : Nat → Nat → Bool} {m n i j k : Nat} (some : 0 < m) (hi : i + m ≤ n)
    (hj : j + m ≤ n) (hk : k + m ≤ n) : middleOf less m i j k < n := by
  induction m using Nat.strongRecOn generalizing i j k with
  | ind m ih =>
    rw [middleOf]
    split
    · exact middle_lt (by omega) (by omega) (by omega)
    · have around {p : Nat} (hp : p + m ≤ n) :
          middleOf less (m / 8) p (p + m / 8 * 4) (p + m / 8 * 7) < n :=
        ih (m / 8) (by omega) (by omega) (by omega) (by omega) (by omega)
      exact middle_lt (around hi) (around hj) (around hk)

theorem pivot_lt (long : 8 ≤ l.length) : pivot less l < l.length :=
  middleOf_lt (by omega) (by omega) (by omega) (by omega)

theorem exists_pivot (less : α → α → Bool) (long : ¬l.length ≤ 32) :
    ∃ v, l[pivot less l]? = some v :=
  ⟨_, List.getElem?_eq_getElem (pivot_lt (by omega))⟩

theorem pivot_map {less : β → β → Bool} {f : α → β} :
    pivot less (l.map f) = pivot (fun a b => less (f a) (f b)) l := by
  have same : below less (l.map f) = below (fun a b => less (f a) (f b)) l := by
    funext i j
    rw [below, below, List.getElem?_map, List.getElem?_map]
    cases l[i]? <;> cases l[j]? <;> rfl
  rw [pivot, pivot, same, List.length_map]

/-! ## The two parts -/

variable {goes : α → Bool} {here : Bool} {p : Nat}

theorem splitAround_eq : splitAround goes here p l =
    ((l.zipIdx.filter fun x => if x.2 = p then here else goes x.1).map (·.1),
      (l.zipIdx.filter fun x => !if x.2 = p then here else goes x.1).map (·.1)) := by
  rw [splitAround, List.partition_eq_filter_filter]
  rfl

theorem splitAround_perm (goes : α → Bool) (here : Bool) (p : Nat) :
    ((splitAround goes here p l).1 ++ (splitAround goes here p l).2).Perm l := by
  rw [splitAround_eq, ← List.map_append]
  simpa using (List.filter_append_perm (fun x => if x.2 = p then here else goes x.1)
    l.zipIdx).map (·.1)

theorem splitAround_sublist (goes : α → Bool) (here : Bool) (p : Nat) :
    (splitAround goes here p l).1.Sublist l ∧
    (splitAround goes here p l).2.Sublist l := by
  rw [splitAround_eq]
  constructor <;> simpa using (List.filter_sublist (l := l.zipIdx)).map (·.1)

theorem of_mem_left {v : α} (place : l[p]? = some v)
    (mem : a ∈ (splitAround goes here p l).1) : goes a = true ∨ a = v ∧ here = true := by
  simp only [splitAround_eq, List.mem_map, List.mem_filter] at mem
  obtain ⟨⟨a, i⟩, ⟨listed, kept⟩, rfl⟩ := mem
  rw [List.mem_zipIdx_iff_getElem?] at listed
  simp only at kept listed
  split at kept
  · rename_i same
    rw [same, place] at listed
    exact .inr ⟨(Option.some.inj listed).symm, kept⟩
  · exact .inl kept

/-- The second part is the first one of the opposite property. -/
theorem splitAround_right :
    (splitAround goes here p l).2 = (splitAround (fun a => !goes a) (!here) p l).1 := by
  have same : (fun x : α × Nat => !if x.2 = p then here else goes x.1) =
      fun x => if x.2 = p then !here else !goes x.1 := by
    funext x
    split <;> rfl
  rw [splitAround_eq, splitAround_eq, same]

theorem of_mem_right {v : α} (place : l[p]? = some v)
    (mem : a ∈ (splitAround goes here p l).2) : goes a = false ∨ a = v ∧ here = false := by
  rw [splitAround_right] at mem
  simpa using of_mem_left place mem

theorem splitAround_map {goes : β → Bool} {f : α → β} :
    splitAround goes here p (l.map f) =
      (splitAround (fun a => goes (f a)) here p l).map (List.map f) (List.map f) := by
  rw [splitAround_eq, splitAround_eq, List.zipIdx_map, List.filter_map, List.filter_map]
  simp [Function.comp_def]

/-! ## The recursion -/

variable {narrow : Bool} {otherwise? : List α → Option (List α)} {limit : Nat}
  {ancestor : Option α}

theorem quicksort?_short (short : l.length ≤ 32) :
    quicksort? less narrow otherwise? limit ancestor l = sortShort? less narrow l := by
  cases limit <;> rw [quicksort?, if_pos short]

theorem quicksort?_long (long : ¬l.length ≤ 32) {v : α}
    (place : l[pivot less l]? = some v) :
    quicksort? less narrow otherwise? (limit + 1) ancestor l =
      if ancestor.any (!less · v) || (splitAround (less · v) false (pivot less l) l).1.isEmpty then
        (quicksort? less narrow otherwise? limit none
          (splitAround (!less v ·) true (pivot less l) l).2).map
            ((splitAround (!less v ·) true (pivot less l) l).1 ++ ·)
      else
        (quicksort? less narrow otherwise? limit ancestor
          (splitAround (less · v) false (pivot less l) l).1).bind fun left =>
            (quicksort? less narrow otherwise? limit (some v)
              (splitAround (less · v) false (pivot less l) l).2).map (left ++ ·) := by
  rw [quicksort?, if_neg long]
  simp only [place, Option.bind_eq_bind, Option.bind_some, Option.pure_def]
  split <;> simp only [Option.map_eq_bind] <;> rfl

theorem quicksort?_keeps (otherwise : Keeps otherwise?) :
    Keeps (quicksort? less narrow otherwise? limit ancestor) := by
  induction limit generalizing ancestor with
  | zero =>
    intro l out found
    rw [quicksort?] at found
    split at found
    · exact sortShort?_keeps _ _ found
    · exact otherwise _ _ found
  | succ limit ih =>
    intro l out found
    by_cases short : l.length ≤ 32
    · exact sortShort?_keeps _ _ (quicksort?_short short ▸ found)
    · obtain ⟨v, place⟩ := exists_pivot less short
      rw [quicksort?_long short place] at found
      split at found
      · obtain ⟨greater, foundg, rfl⟩ := Option.map_eq_some_iff.1 found
        exact ((ih _ _ foundg).append_left _).trans (splitAround_perm ..)
      · obtain ⟨left, foundl, found⟩ := Option.bind_eq_some_iff.1 found
        obtain ⟨right, foundr, rfl⟩ := Option.map_eq_some_iff.1 found
        exact ((ih _ _ foundl).append (ih _ _ foundr)).trans (splitAround_perm ..)

theorem quicksort?_map {less : β → β → Bool} {f : α → β} {otherwise'? : List β → Option (List β)}
    (otherwise : ∀ l, otherwise'? (l.map f) = (otherwise? l).map (List.map f)) :
    quicksort? less narrow otherwise'? limit (ancestor.map f) (l.map f) =
      (quicksort? (fun a b => less (f a) (f b)) narrow otherwise? limit ancestor l).map
        (List.map f) := by
  induction limit generalizing ancestor l with
  | zero =>
    rw [quicksort?, quicksort?, List.length_map]
    split
    · exact sortShort?_map
    · exact otherwise l
  | succ limit ih =>
    by_cases short : l.length ≤ 32
    · rw [quicksort?_short (by simpa using short), quicksort?_short short, sortShort?_map]
    · obtain ⟨v, place⟩ := exists_pivot (fun a b => less (f a) (f b)) short
      have place' : (l.map f)[pivot less (l.map f)]? = some (f v) := by
        rw [pivot_map, List.getElem?_map, place]
        rfl
      rw [quicksort?_long short place, quicksort?_long (by simpa using short) place']
      simp only [pivot_map, splitAround_map, Prod.map, List.isEmpty_map, Option.any_map]
      split
      · rw [← Option.map_none f, ih, Option.map_map, Option.map_map]
        simp [Function.comp_def]
      · have right (l : List α) := @ih l (some v)
        simp only [Option.map_some] at right
        rw [ih]
        simp [right, Option.bind_map, Option.map_bind, Function.comp_def]

section

variable {cmp : α → α → Ordering} {before : α → α → Prop} [Std.TransCmp cmp] [Std.Asymm before]

omit [Std.Asymm before] in
theorem isLE_of_mem_right {v : α} (place : l[p]? = some v)
    (mem : a ∈ (splitAround (cmp · v == .lt) false p l).2) : (cmp v a).isLE = true := by
  obtain above | ⟨rfl, -⟩ := of_mem_right place mem
  · exact isLE_of_not_less (by simpa using above)
  · exact Std.ReflCmp.isLE_rfl

omit [Std.Asymm before] in
/-- If nothing is less than the pivot, what is not greater than it is equal to it. -/
theorem pairwise_same {v : α} {r : List α} (place : l[p]? = some v) (given : l.Pairwise before)
    (least : ∀ a ∈ l, (cmp v a).isLE = true) (rising : r.Pairwise (InOrder cmp before))
    (perm : r.Perm (splitAround (fun a => !cmp v a == .lt) true p l).2) :
    ((splitAround (fun a => !cmp v a == .lt) true p l).1 ++ r).Pairwise (InOrder cmp before) := by
  have same {a : α} (mem : a ∈ (splitAround (fun a => !cmp v a == .lt) true p l).1) :
      (cmp a v).isLE = true := by
    obtain small | ⟨rfl, -⟩ := of_mem_left place mem
    · exact isLE_of_not_less (by simpa using small)
    · exact Std.ReflCmp.isLE_rfl
  refine List.pairwise_append.2 ⟨?_, rising, fun a mem b later => ?_⟩
  · refine (given.sublist (splitAround_sublist ..).1).imp_of_mem fun mem mem' first => ?_
    exact inOrder_of_isLE (Std.TransCmp.isLE_trans (same mem)
      (least _ ((splitAround_sublist ..).1.subset mem'))) first
  · have great : cmp v b = .lt := by
      obtain great | ⟨-, no⟩ := of_mem_right place (perm.mem_iff.1 later)
      · simpa using great
      · cases no
    exact .inl (Std.TransCmp.lt_of_isLE_of_lt (same mem) great)

omit [Std.Asymm before] in
theorem pairwise_parts {v : α} {left right : List α} (place : l[p]? = some v)
    (risingl : left.Pairwise (InOrder cmp before)) (risingr : right.Pairwise (InOrder cmp before))
    (perml : left.Perm (splitAround (cmp · v == .lt) false p l).1)
    (permr : right.Perm (splitAround (cmp · v == .lt) false p l).2) :
    (left ++ right).Pairwise (InOrder cmp before) := by
  refine List.pairwise_append.2 ⟨risingl, risingr, fun a mem b later => ?_⟩
  obtain small | ⟨-, no⟩ := of_mem_left place (perml.mem_iff.1 mem)
  · exact .inl (Std.TransCmp.lt_of_lt_of_isLE (by simpa using small)
      (isLE_of_mem_right place (permr.mem_iff.1 later)))
  · cases no

theorem quicksort?_sorts_above (otherwise : Sorts cmp before otherwise?)
    (kept : Keeps otherwise?) (given : l.Pairwise before)
    (above : ∀ a ∈ ancestor, ∀ b ∈ l, (cmp a b).isLE = true) :
    ∃ out, quicksort? (fun a b => cmp a b == .lt) narrow otherwise? limit ancestor l = some out ∧
      out.Pairwise (InOrder cmp before) := by
  induction limit generalizing ancestor l with
  | zero =>
    rw [quicksort?]
    split
    · exact sortShort?_sorts l given
    · exact otherwise l given
  | succ limit ih =>
    by_cases short : l.length ≤ 32
    · rw [quicksort?_short short]
      exact sortShort?_sorts l given
    · obtain ⟨v, place⟩ := exists_pivot (fun a b => cmp a b == .lt) short
      rw [quicksort?_long short place]
      generalize pivot (fun a b => cmp a b == .lt) l = p at place
      split
      · rename_i none
        have least : ∀ b ∈ l, (cmp v b).isLE = true := by
          intro b mem
          obtain level | empty := Bool.or_eq_true_iff.1 none
          · obtain ⟨a, old, level⟩ := (Option.any_eq_true ..).1 level
            exact Std.TransCmp.isLE_trans (isLE_of_not_less (by simpa using level))
              (above a old b mem)
          · have perm := splitAround_perm (l := l) (cmp · v == .lt) false p
            rw [List.isEmpty_iff.1 empty, List.nil_append] at perm
            exact isLE_of_mem_right place (perm.mem_iff.2 mem)
        obtain ⟨greater, found, rising⟩ := @ih _ Option.none
          (given.sublist (splitAround_sublist (fun a => !cmp v a == .lt) true p).2) (by simp)
        exact ⟨_, congrArg (Option.map _) found, pairwise_same place given least rising
          (quicksort?_keeps kept _ _ found)⟩
      · obtain ⟨left, foundl, risingl⟩ := @ih _ ancestor
          (given.sublist (splitAround_sublist (cmp · v == .lt) false p).1)
          fun a old b mem => above a old b ((splitAround_sublist ..).1.subset mem)
        obtain ⟨right, foundr, risingr⟩ := @ih _ (some v)
          (given.sublist (splitAround_sublist (cmp · v == .lt) false p).2)
          fun a old b mem => Option.some.inj old ▸ isLE_of_mem_right place mem
        refine ⟨left ++ right, by simp [foundl, foundr], ?_⟩
        exact pairwise_parts place risingl risingr (quicksort?_keeps kept _ _ foundl)
          (quicksort?_keeps kept _ _ foundr)

theorem quicksort?_sorts (otherwise : Sorts cmp before otherwise?) (kept : Keeps otherwise?) :
    Sorts cmp before (quicksort? (fun a b => cmp a b == .lt) narrow otherwise? limit none) :=
  fun _ given => quicksort?_sorts_above otherwise kept given (by simp)

end

end TableFlow
