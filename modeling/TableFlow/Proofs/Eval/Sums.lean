import Mathlib
import TableFlow.Proofs.Eval.Arithmetic

/-!
# Sums of integers

A sum of integers is taken from the left. It is the integer of the exact sum as long as every
running total has 64 bits, and a double from the first total on that has more
(`foldlM_integers`, `foldlM_beyond`). Running totals depend on the order: in every order they lie
between the sum of the negative integers and that of the positive ones (`total_bounds`), and some
order reaches each of these. So the sum is the same for every order of the rows just if both have
64 bits (`sums_exact_iff`).
-/

namespace TableFlow.Eval

open Value

def integers (vs : List Value) : List Int64 :=
  vs.filterMap fun
    | .int i => some i
    | _ => none

def total (l : List Int64) : Int := (l.map (·.toInt)).sum

def gains (l : List Int64) : Int := total (l.filter (0 < ·.toInt))

def losses (l : List Int64) : Int := total (l.filter (·.toInt < 0))

variable {l m front : List Int64} {a n : Int64} {s : Int} {vs ws : List Value}

theorem total_nil : total [] = 0 := rfl

theorem total_cons : total (a :: l) = a.toInt + total l := by
  simp [total]

theorem total_perm (h : l.Perm m) : total l = total m := (h.map _).sum_eq

theorem gains_perm (h : l.Perm m) : gains l = gains m := total_perm (h.filter _)

theorem losses_perm (h : l.Perm m) : losses l = losses m := total_perm (h.filter _)

theorem gains_cons : gains (a :: l) = max a.toInt 0 + gains l := by
  by_cases positive : 0 < a.toInt
  · rw [gains, List.filter_cons_of_pos (by simpa using positive), total_cons, ← gains]
    omega
  · rw [gains, List.filter_cons_of_neg (by simpa using positive), ← gains]
    omega

theorem losses_cons : losses (a :: l) = min a.toInt 0 + losses l := by
  by_cases negative : a.toInt < 0
  · rw [losses, List.filter_cons_of_pos (by simpa using negative), total_cons, ← losses]
    omega
  · rw [losses, List.filter_cons_of_neg (by simpa using negative), ← losses]
    omega

theorem total_nonneg (each : ∀ b ∈ l, 0 ≤ b.toInt) : 0 ≤ total l :=
  List.sum_nonneg (by simpa using each)

theorem total_nonpos (each : ∀ b ∈ l, b.toInt ≤ 0) : total l ≤ 0 := by
  induction l with
  | nil => exact Int.le_refl 0
  | cons b l ih =>
    have first := each b (List.mem_cons_self ..)
    have rest := ih fun c mem => each c (List.mem_cons_of_mem _ mem)
    rw [total_cons]
    omega

/-- A running total lies between the losses and the gains. -/
theorem total_bounds (h : front <+: l) : losses l ≤ total front ∧ total front ≤ gains l := by
  induction l generalizing front with
  | nil =>
    obtain rfl := List.prefix_nil.1 h
    decide
  | cons a l ih =>
    rw [losses_cons, gains_cons]
    obtain rfl | ⟨rest, rfl, shorter⟩ := List.prefix_cons_iff.1 h
    · have := ih List.nil_prefix
      rw [total_nil] at this ⊢
      omega
    · have := ih shorter
      rw [total_cons]
      omega

/-! ## Running totals -/

/-- The running totals from a start on have 64 bits. -/
def RunsWithin (s : Int) (l : List Int64) : Prop := ∀ front, front <+: l → InRange (s + total front)

theorem runsWithin_nil : RunsWithin s [] ↔ InRange s := by
  simp [RunsWithin, total]

theorem runsWithin_cons :
    RunsWithin s (a :: l) ↔ InRange s ∧ RunsWithin (s + a.toInt) l := by
  constructor
  · intro h
    refine ⟨by simpa [total_nil] using h [] List.nil_prefix, fun front before => ?_⟩
    rw [Int.add_assoc, ← total_cons]
    exact h _ (List.cons_prefix_cons.2 ⟨rfl, before⟩)
  · rintro ⟨start, h⟩ front before
    obtain rfl | ⟨rest, rfl, shorter⟩ := List.prefix_cons_iff.1 before
    · simpa [total_nil] using start
    · rw [total_cons, ← Int.add_assoc]
      exact h rest shorter

/-- If each of some integers leaves the 64 bits from a total within them, so does their sum. -/
theorem leaves_together (start : InRange s) (some : l ≠ [])
    (each : ∀ b ∈ l, ¬InRange (s + b.toInt)) : ¬InRange (s + total l) := by
  obtain ⟨b, rest, rfl⟩ := List.exists_cons_of_ne_nil some
  have size : ∀ c ∈ b :: rest, (0 ≤ s → 9223372036854775807 - s < c.toInt) ∧
      (s < 0 → c.toInt < -9223372036854775808 - s) := by
    intro c mem
    have bounds := inRange_toInt c
    have wide := each c mem
    rw [inRange_iff] at bounds wide
    omega
  have first := size b (List.mem_cons_self ..)
  rw [inRange_iff] at start
  rw [inRange_iff, total_cons]
  obtain negative | positive := Int.lt_or_le s 0
  · have others : total rest ≤ 0 := total_nonpos fun c mem => by
      have := size c (List.mem_cons_of_mem _ mem)
      omega
    omega
  · have others : 0 ≤ total rest := total_nonneg fun c mem => by
      have := size c (List.mem_cons_of_mem _ mem)
      omega
    omega

/-- From a total within 64 bits, integers whose sum ends within 64 bits can be added in an order
that never leaves them. -/
theorem exists_runsWithin (start : InRange s) (finish : InRange (s + total l)) :
    ∃ m, l.Perm m ∧ RunsWithin s m := by
  induction size : l.length generalizing s l with
  | zero =>
    obtain rfl := List.length_eq_zero_iff.1 size
    exact ⟨[], .refl _, runsWithin_nil.2 start⟩
  | succ k ih =>
    have some : l ≠ [] := List.ne_nil_of_length_eq_add_one size
    obtain ⟨b, mem, next⟩ : ∃ b ∈ l, InRange (s + b.toInt) := by
      by_contra none
      exact leaves_together start some (fun b mem inside => none ⟨b, mem, inside⟩) finish
    have order : l.Perm (b :: l.erase b) := List.perm_cons_erase mem
    rw [total_perm order, total_cons, ← Int.add_assoc] at finish
    obtain ⟨m, perm, within⟩ := ih next finish (by rw [List.length_erase_of_mem mem]; omega)
    exact ⟨b :: m, order.trans (perm.cons b), runsWithin_cons.2 ⟨start, within⟩⟩

/-! ## Sums of values -/

theorem add_integers (a b : Int64) : ∃ z, Exact (a.toInt + b.toInt) z
    (Arithmetic.add.apply (.int a) (.int b)) :=
  ⟨_, onInts_exact (by decide) rfl rfl⟩

/-- A sum is exact whose running totals have 64 bits. -/
theorem foldlM_integers (within : RunsWithin a.toInt l) :
    ∃ n : Int64, n.toInt = a.toInt + total l ∧
      (l.map Value.int).foldlM Arithmetic.add.apply (.int a) = .ok (.int n) := by
  induction l generalizing a with
  | nil => exact ⟨a, by simp [total], rfl⟩
  | cons b l ih =>
    obtain ⟨-, rest⟩ := runsWithin_cons.1 within
    have next : InRange (a.toInt + b.toInt) := by
      simpa [total_nil] using rest [] List.nil_prefix
    obtain ⟨z, kept⟩ := add_integers a b
    rw [List.map_cons, List.foldlM_cons]
    generalize Arithmetic.add.apply (.int a) (.int b) = outcome at kept
    cases kept with
    | @integer c same =>
      obtain ⟨n, sum, run⟩ := ih (a := c) (same ▸ rest)
      exact ⟨n, by rw [sum, same, total_cons, Int.add_assoc], run⟩
    | beyond wide => exact absurd next wide

/-- A sum that is a double stays one. -/
theorem foldlM_double {x : Float} :
    ∃ z, (l.map Value.int).foldlM Arithmetic.add.apply (.float x) = .ok (.float z) := by
  induction l generalizing x with
  | nil => exact ⟨x, rfl⟩
  | cons b l ih => exact ih

/-- A sum becomes a double at the first running total that has more than 64 bits. -/
theorem foldlM_beyond (wide : ¬RunsWithin a.toInt l) :
    ∃ z, (l.map Value.int).foldlM Arithmetic.add.apply (.int a) = .ok (.float z) := by
  induction l generalizing a with
  | nil => exact absurd (runsWithin_nil.2 (inRange_toInt a)) wide
  | cons b l ih =>
    obtain ⟨z, kept⟩ := add_integers a b
    rw [List.map_cons, List.foldlM_cons]
    generalize Arithmetic.add.apply (.int a) (.int b) = outcome at kept
    cases kept with
    | @integer c same =>
      refine ih (a := c) fun rest => wide (runsWithin_cons.2 ⟨inRange_toInt a, ?_⟩)
      rwa [← same]
    | beyond wide => exact foldlM_double

/-! ## The aggregate -/

theorem integers_perm (h : vs.Perm ws) : (integers vs).Perm (integers ws) := h.filterMap _

theorem integers_map (l : List Int64) : integers (l.map .int) = l := by
  simp [integers, List.filterMap_map]

/-- The values that a sum is taken of. -/
theorem filter_whole (whole : ∀ v ∈ vs, v = .null ∨ ∃ i, v = .int i) :
    vs.filter (!·.isNull) = (integers vs).map .int := by
  induction vs with
  | nil => rfl
  | cons v vs ih =>
    have rest := ih fun w mem => whole w (List.mem_cons_of_mem _ mem)
    obtain rfl | ⟨i, rfl⟩ := whole v (List.mem_cons_self ..)
    · exact rest
    · exact congrArg (Value.int i :: ·) rest

/-- Every order of the integers among values comes of an order of the values. -/
theorem exists_order (whole : ∀ v ∈ vs, v = .null ∨ ∃ i, v = .int i)
    (order : (integers vs).Perm l) : ∃ ws, vs.Perm ws ∧ integers ws = l := by
  refine ⟨vs.filter (·.isNull) ++ l.map .int, ?_, ?_⟩
  · refine (List.filter_append_perm (·.isNull) vs).symm.trans (List.Perm.append_left _ ?_)
    rw [filter_whole whole]
    exact order.map _
  · have nulls : integers (vs.filter (·.isNull)) = [] := by
      refine List.filterMap_eq_nil_iff.2 fun v mem => ?_
      obtain ⟨-, null⟩ := List.mem_filter.1 mem
      cases v <;> first | rfl | cases null
    rw [integers, List.filterMap_append, ← integers, ← integers, nulls, integers_map,
      List.nil_append]

/-- Integers and nulls, at least one of them an integer, and the exact sum in 64 bits. -/
structure Addends (vs : List Value) (n : Int64) : Prop where
  whole : ∀ v ∈ vs, v = .null ∨ ∃ i, v = .int i
  some : ∃ i, .int i ∈ vs
  exact : n.toInt = total (integers vs)

namespace Addends

theorem perm (h : Addends vs n) (order : vs.Perm ws) : Addends ws n where
  whole v mem := h.whole v (order.mem_iff.2 mem)
  some := h.some.imp fun _ => order.mem_iff.1
  exact := h.exact.trans (total_perm (integers_perm order))

theorem aggregate_eq (h : Addends vs n) : aggregate "sum" vs =
    ((integers vs).map Value.int).foldlM Arithmetic.add.apply (.int 0) := by
  have known : aggregate "sum" vs = sum (vs.filter (!·.isNull)) := rfl
  obtain ⟨i, mem⟩ := h.some
  have nonempty : integers vs ≠ [] :=
    List.ne_nil_of_mem (List.mem_filterMap.2 ⟨.int i, mem, rfl⟩)
  obtain ⟨j, rest, same⟩ := List.exists_cons_of_ne_nil nonempty
  rw [known, filter_whole h.whole, same]
  rfl

theorem aggregate_within (h : Addends vs n) (within : RunsWithin 0 (integers vs)) :
    aggregate "sum" vs = .ok (.int n) := by
  obtain ⟨m, sum, run⟩ := foldlM_integers (a := 0) within
  obtain rfl : m = n := Int64.toInt_inj.1 (by rw [sum, h.exact]; exact Int.zero_add _)
  rw [h.aggregate_eq, run]

theorem aggregate_beyond (h : Addends vs n) (wide : ¬RunsWithin 0 (integers vs)) :
    ∃ x, aggregate "sum" vs = .ok (.float x) := by
  rw [h.aggregate_eq]
  exact foldlM_beyond (a := 0) wide

theorem aggregate_iff (h : Addends vs n) :
    aggregate "sum" vs = .ok (.int n) ↔ RunsWithin 0 (integers vs) := by
  refine ⟨fun sum => ?_, h.aggregate_within⟩
  by_contra wide
  obtain ⟨x, double⟩ := h.aggregate_beyond wide
  rw [sum] at double
  cases double

/-- Some order of the values has the exact sum. -/
theorem exists_exact (h : Addends vs n) :
    ∃ ws, vs.Perm ws ∧ aggregate "sum" ws = .ok (.int n) := by
  have finish : InRange (0 + total (integers vs)) := by
    rw [Int.zero_add, ← h.exact]
    exact inRange_toInt n
  obtain ⟨m, order, within⟩ := exists_runsWithin (by decide) finish
  obtain ⟨ws, perm, rfl⟩ := exists_order h.whole order
  exact ⟨ws, perm, (h.perm perm).aggregate_within within⟩

end Addends

/-- The running totals of some integers have 64 bits in every order of these if their gains and
their losses have. -/
theorem runsWithin_perm_iff :
    (∀ m, l.Perm m → RunsWithin 0 m) ↔ InRange (gains l) ∧ InRange (losses l) := by
  constructor
  · intro h
    -- the gains come first in one order, and the losses in another one
    have first : ∀ p : Int64 → Bool, InRange (total (l.filter p)) := fun p => by
      have := h _ (List.filter_append_perm p l).symm _ (List.prefix_append _ _)
      rwa [Int.zero_add] at this
    exact ⟨first _, first _⟩
  · rintro ⟨most, least⟩ m order front before
    have bounds := total_bounds before
    rw [← gains_perm order, ← losses_perm order] at bounds
    rw [inRange_iff] at most least ⊢
    omega

/-- The sum of integers and nulls whose exact sum has 64 bits is this sum just if every running
total has 64 bits, and else a double. It is exact in every order of the values, and the same in
every order of them, just if the sum of the positive integers and that of the negative ones have 64
bits. -/
theorem sums_exact_iff (addends : Addends vs n) :
    (aggregate "sum" vs = .ok (.int n) ↔
        ∀ front, front <+: integers vs → InRange (total front)) ∧
      (aggregate "sum" vs = .ok (.int n) ∨ ∃ x, aggregate "sum" vs = .ok (.float x)) ∧
      ((∀ ws, vs.Perm ws → aggregate "sum" ws = .ok (.int n)) ↔
        InRange (gains (integers vs)) ∧ InRange (losses (integers vs))) ∧
      ((∀ ws, vs.Perm ws → aggregate "sum" ws = aggregate "sum" vs) ↔
        InRange (gains (integers vs)) ∧ InRange (losses (integers vs))) := by
  have everywhere : (∀ ws, vs.Perm ws → aggregate "sum" ws = .ok (.int n)) ↔
      InRange (gains (integers vs)) ∧ InRange (losses (integers vs)) := by
    rw [← runsWithin_perm_iff]
    constructor
    · intro same m order
      obtain ⟨ws, perm, rfl⟩ := exists_order addends.whole order
      exact (addends.perm perm).aggregate_iff.1 (same ws perm)
    · intro within ws perm
      exact (addends.perm perm).aggregate_within (within _ (integers_perm perm))
  refine ⟨?_, ?_, everywhere, ?_⟩
  · simp only [addends.aggregate_iff, RunsWithin, Int.zero_add]
  · by_cases within : RunsWithin 0 (integers vs)
    · exact .inl (addends.aggregate_within within)
    · exact .inr (addends.aggregate_beyond within)
  · rw [← everywhere]
    constructor
    · intro same ws perm
      obtain ⟨ws', perm', sum⟩ := addends.exists_exact
      rw [same ws perm, ← same ws' perm', sum]
    · intro same ws perm
      rw [same ws perm, same vs (.refl _)]

/-- The greatest integer, a null and minus one, in every order. -/
theorem sums_exact_iff_greatest :
    Addends [.int Int64.maxValue, .null, .int (-1)] 9223372036854775806 ∧
      ∀ ws, [.int Int64.maxValue, .null, .int (-1)].Perm ws →
        aggregate "sum" ws = .ok (.int 9223372036854775806) := by
  have addends : Addends [.int Int64.maxValue, .null, .int (-1)] 9223372036854775806 :=
    ⟨by simp, ⟨-1, by simp⟩, by decide⟩
  obtain ⟨-, -, everywhere, -⟩ := sums_exact_iff addends
  exact ⟨addends, everywhere.2 (by decide)⟩

/-- The greatest integer, one and minus one: their sum has 64 bits, and is a double in this order
and an integer in another. -/
theorem running_total_overflows :
    Addends [.int Int64.maxValue, .int 1, .int (-1)] Int64.maxValue ∧
      aggregate "sum" [.int Int64.maxValue, .int 1, .int (-1)] =
        .ok (.float 9223372036854775808.0) ∧
      [Value.int Int64.maxValue, .int 1, .int (-1)].Perm
        [.int 1, .int (-1), .int Int64.maxValue] ∧
      aggregate "sum" [.int 1, .int (-1), .int Int64.maxValue] = .ok (.int Int64.maxValue) :=
  ⟨⟨by simp, ⟨-1, by simp⟩, by decide⟩, by decide, by decide, by decide⟩

end TableFlow.Eval
