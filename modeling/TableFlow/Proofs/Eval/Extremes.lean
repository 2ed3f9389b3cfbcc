import TableFlow.Eval.Function
import TableFlow.Proofs.Value.Comparison

/-!
# Least and greatest values

The extreme of a column is carried along its values: a later value replaces the one that is kept
where it compares as wanted. Among numbers what is kept is unbeaten (`Unbeaten.run`), since beating
is transitive although equality is not, and two unbeaten numbers are equal. NaN beats nothing and
nothing beats it, so it stays where it comes first and goes where it does not. So an extreme is
the same in every order of the rows just if there is no NaN next to a number (`extremes_same_iff`).
-/

namespace TableFlow

namespace Value

open Number

variable {a b c : Value} {wanted : Ordering}

/-! ## Comparing numbers -/

inductive IsNumber : Value → Prop where
  | int (i : Int64) : IsNumber (.int i)
  | float {x : Float} : x.isNaN = false → IsNumber (.float x)

/-- The integer of the bits of a number as a double. -/
def level : Value → Int
  | int i => Number.level (ofInt64 i)
  | float x => Number.level x
  | _ => 0

theorem level_int_mono {i j : Int64} (le : i.toInt ≤ j.toInt) :
    level (.int i) ≤ level (.int j) := by
  have apart : ¬ZeroPair (ofInt64 i) (ofInt64 j) := fun pair =>
    not_oppositeZeros ((oppositeZeros_iff rfl rfl).2 pair)
  have same : compare (rank (ofInt64 i)) (rank (ofInt64 j)) =
      compare (level (.int i)) (level (.int j)) := totalCompare_level apart
  rw [← Int.isLE_compare, ← same, Int.isLE_compare]
  exact rank_ofInt64_mono le

theorem compare?_swap (a b : Value) : a.compare? b = (b.compare? a).map Ordering.swap := by
  cases a <;> cases b
  case bool.bool p q => exact congrArg some (compare_swap p q)
  case int.int i j => exact congrArg some (compare_swap i.toInt j.toInt)
  case text.text s t => exact congrArg some (compare_swap s t)
  case int.float | float.int | float.float => exact partialCompare_swap _ _
  all_goals rfl

/-- Numbers that are not both integers are compared as doubles. -/
theorem compare?_level (ha : a.IsNumber) (hb : b.IsNumber)
    (mixed : ∀ i j, ¬(a = .int i ∧ b = .int j)) :
    a.compare? b = some (compare a.level b.level) := by
  cases ha with
  | int i =>
    cases hb with
    | int j => exact absurd ⟨rfl, rfl⟩ (mixed i j)
    | float hy => exact partialCompare_level (isNaN_ofInt64 i) hy
  | float hx =>
    cases hb with
    | int j => exact partialCompare_level hx (isNaN_ofInt64 j)
    | float hy => exact partialCompare_level hx hy

/-- Any two numbers are compared. -/
theorem exists_compare? (ha : a.IsNumber) (hb : b.IsNumber) : ∃ o, a.compare? b = some o := by
  by_cases integers : ∃ i j, a = .int i ∧ b = .int j
  · obtain ⟨i, j, rfl, rfl⟩ := integers
    exact ⟨_, rfl⟩
  · exact ⟨_, compare?_level ha hb fun i j both => integers ⟨i, j, both⟩⟩

theorem compare?_lt_iff (ha : a.IsNumber) (hb : b.IsNumber) :
    a.compare? b = some .lt ↔
      a.level < b.level ∨ ∃ i j, a = .int i ∧ b = .int j ∧ i.toInt < j.toInt := by
  by_cases integers : ∃ i j, a = .int i ∧ b = .int j
  · obtain ⟨i, j, rfl, rfl⟩ := integers
    have outcome : (int i).compare? (int j) = some .lt ↔ i.toInt < j.toInt :=
      Option.some_inj.trans compare_lt_iff_lt
    rw [outcome]
    constructor
    · exact fun less => .inr ⟨i, j, rfl, rfl, less⟩
    · rintro (below | ⟨k, l, first, second, less⟩)
      · by_contra above
        have := level_int_mono (Int.not_lt.1 above)
        omega
      · cases first
        cases second
        exact less
  · rw [compare?_level ha hb fun i j both => integers ⟨i, j, both⟩, Option.some_inj,
      compare_lt_iff_lt]
    constructor
    · exact .inl
    · rintro (below | ⟨i, j, first, second, -⟩)
      · exact below
      · exact absurd ⟨i, j, first, second⟩ integers

theorem level_le_of_lt (ha : a.IsNumber) (hb : b.IsNumber) (outcome : a.compare? b = some .lt) :
    a.level ≤ b.level := by
  obtain below | ⟨i, j, rfl, rfl, less⟩ := (compare?_lt_iff ha hb).1 outcome
  · exact Int.le_of_lt below
  · exact level_int_mono (Int.le_of_lt less)

theorem compare?_lt_trans (ha : a.IsNumber) (hb : b.IsNumber) (hc : c.IsNumber)
    (first : a.compare? b = some .lt) (second : b.compare? c = some .lt) :
    a.compare? c = some .lt := by
  have le := level_le_of_lt ha hb first
  have le' := level_le_of_lt hb hc second
  rw [compare?_lt_iff ha hc]
  obtain below | ⟨i, j, rfl, rfl, less⟩ := (compare?_lt_iff ha hb).1 first
  · exact .inl (by omega)
  · obtain below | ⟨j, k, same, rfl, less'⟩ := (compare?_lt_iff hb hc).1 second
    · exact .inl (by omega)
    · cases same
      exact .inr ⟨i, k, rfl, rfl, Int.lt_trans less less'⟩

/-- Being less is transitive on numbers, and so is being greater. -/
theorem compare?_trans (side : wanted ≠ .eq) (ha : a.IsNumber) (hb : b.IsNumber)
    (hc : c.IsNumber) (first : a.compare? b = some wanted) (second : b.compare? c = some wanted) :
    a.compare? c = some wanted := by
  cases wanted with
  | eq => exact absurd rfl side
  | lt => exact compare?_lt_trans ha hb hc first second
  | gt =>
    have turned : ∀ {v w : Value}, v.compare? w = some .gt → w.compare? v = some .lt :=
      fun outcome => by rw [compare?_swap, outcome]; rfl
    rw [compare?_swap, compare?_lt_trans hc hb ha (turned second) (turned first)]
    rfl

theorem compare?_self (ha : a.IsNumber) : a.compare? a = some .eq := by
  have doubles : ∀ {x : Float}, x.isNaN = false → partialCompare x x = some .eq := fun hx => by
    rw [partialCompare_level hx hx, compare_eq_iff_eq.2 rfl]
  cases ha with
  | int i => exact congrArg some (compare_eq_iff_eq.2 rfl)
  | float hx => exact doubles hx

end Value

namespace Eval

open Value

variable {wanted : Ordering} {v w a b : Value} {vs ws seen rest : List Value}

/-! ## The value that is kept -/

/-- The value is one of those seen, and none of them beats it. -/
structure Unbeaten (wanted : Ordering) (seen : List Value) (b : Value) : Prop where
  mem : b ∈ seen
  kept : ∀ u ∈ seen, u.compare? b ≠ some wanted

def better (wanted : Ordering) (b v : Value) : Value := if v.compare? b = some wanted then v else b

theorem best_cons : best wanted (v :: rest) = rest.foldl (better wanted) v := rfl

theorem Unbeaten.step (side : wanted ≠ .eq) (numbers : ∀ u ∈ seen, u.IsNumber) (number : w.IsNumber)
    (h : Unbeaten wanted seen b) : Unbeaten wanted (seen ++ [w]) (better wanted b w) := by
  unfold better
  split
  next beats =>
    refine ⟨by simp, fun u mem beaten => ?_⟩
    obtain old | new := List.mem_append.1 mem
    · exact h.kept u old (compare?_trans side (numbers u old) number (numbers b h.mem) beaten beats)
    · obtain rfl := List.mem_singleton.1 new
      rw [compare?_self number] at beaten
      exact side (Option.some.inj beaten).symm
  next stays =>
    refine ⟨List.mem_append_left _ h.mem, fun u mem => ?_⟩
    obtain old | new := List.mem_append.1 mem
    · exact h.kept u old
    · obtain rfl := List.mem_singleton.1 new
      exact stays

theorem Unbeaten.run (side : wanted ≠ .eq) (numbers : ∀ u ∈ seen ++ rest, u.IsNumber)
    (h : Unbeaten wanted seen b) :
    Unbeaten wanted (seen ++ rest) (rest.foldl (better wanted) b) := by
  induction rest generalizing seen b with
  | nil => rwa [List.append_nil]
  | cons w rest ih =>
    have next := h.step side (fun u mem => numbers u (List.mem_append_left _ mem))
      (numbers w (by simp))
    rw [List.append_cons] at numbers ⊢
    exact ih numbers next

theorem best_unbeaten (side : wanted ≠ .eq) (numbers : ∀ u ∈ vs, u.IsNumber) (some : vs ≠ []) :
    Unbeaten wanted vs (best wanted vs) := by
  obtain ⟨v, rest, rfl⟩ := List.exists_cons_of_ne_nil some
  have start : Unbeaten wanted [v] v := by
    refine ⟨List.mem_singleton_self v, fun u mem => ?_⟩
    obtain rfl := List.mem_singleton.1 mem
    rw [compare?_self (numbers u (List.mem_cons_self ..))]
    exact fun equal => side (Option.some.inj equal).symm
  exact Unbeaten.run side numbers start

/-- Two unbeaten numbers are equal. -/
theorem Unbeaten.equal (side : wanted ≠ .eq) (order : vs.Perm ws) (numbers : ∀ u ∈ vs, u.IsNumber)
    (ha : Unbeaten wanted vs a) (hb : Unbeaten wanted ws b) : a.compare? b = some .eq := by
  obtain ⟨o, outcome⟩ := exists_compare? (numbers a ha.mem) (numbers b (order.mem_iff.2 hb.mem))
  have forth : o ≠ wanted := fun same =>
    hb.kept a (order.mem_iff.1 ha.mem) (same ▸ outcome)
  have back : o.swap ≠ wanted := fun same =>
    ha.kept b (order.mem_iff.2 hb.mem) (by rw [compare?_swap, outcome, ← same]; rfl)
  rw [outcome]
  cases o <;> cases wanted <;> first | rfl | exact absurd rfl forth | exact absurd rfl back |
    exact absurd rfl side

/-! ## NaN -/

theorem best_mem (wanted : Ordering) (some : vs ≠ []) : best wanted vs ∈ vs := by
  obtain ⟨v, rest, rfl⟩ := List.exists_cons_of_ne_nil some
  rw [best_cons]
  clear some
  induction rest generalizing v with
  | nil => exact List.mem_singleton_self v
  | cons w rest ih =>
    have kept : better wanted v w ∈ [v, w] := by
      unfold better
      split <;> simp
    have mem := ih (v := better wanted v w)
    simp only [List.foldl_cons, List.mem_cons, List.not_mem_nil, or_false] at kept mem ⊢
    obtain same | later := mem
    · rw [same]
      exact kept.imp_right .inl
    · exact .inr (.inr later)

/-- What is missing stays missing, and what is present stays present. -/
theorem better_missing : (better wanted b v).isMissing = b.isMissing := by
  unfold better
  split
  next beats =>
    obtain ⟨here, there⟩ := present_of_compared beats
    rw [here, there]
  next => rfl

/-- The first value decides if the extreme is missing. -/
theorem best_missing : (best wanted (v :: rest)).isMissing = v.isMissing := by
  rw [best_cons]
  induction rest generalizing v with
  | nil => rfl
  | cons w rest ih => exact ih.trans better_missing

/-! ## The aggregate -/

/-- Both are null, both are NaN, or they are equal. -/
inductive SameExtreme : Value → Value → Prop where
  | null : SameExtreme .null .null
  | nan {x y : Float} : x.isNaN = true → y.isNaN = true → SameExtreme (.float x) (.float y)
  | equal {a b : Value} : a.compare? b = some .eq → SameExtreme a b

theorem SameExtreme.missing (h : SameExtreme a b) : a.isMissing = b.isMissing := by
  cases h with
  | null => rfl
  | nan hx hy => exact hx.trans hy.symm
  | equal compared =>
    obtain ⟨here, there⟩ := present_of_compared compared
    rw [here, there]

def extreme (wanted : Ordering) (vs : List Value) : Value := best wanted (vs.filter (!·.isNull))

theorem extreme_missing (some : v.isNull = false) :
    (extreme wanted (v :: rest)).isMissing = v.isMissing := by
  rw [extreme, List.filter_cons_of_pos (by simpa using some)]
  exact best_missing

/-- There is NaN among the values, and a value that is not missing. -/
def Mixed (vs : List Value) : Prop :=
  (∃ x, .float x ∈ vs ∧ x.isNaN = true) ∧ ∃ v ∈ vs, v.isMissing = false

theorem exists_apart (wanted : Ordering) (mixed : Mixed vs) : ∃ ws ws', vs.Perm ws ∧ vs.Perm ws' ∧
    (extreme wanted ws).isMissing = true ∧ (extreme wanted ws').isMissing = false := by
  obtain ⟨⟨x, mem, nan⟩, v, mem', present⟩ := mixed
  have some : v.isNull = false := by
    cases v <;> first | rfl | cases present
  exact ⟨_, _, List.perm_cons_erase mem, List.perm_cons_erase mem',
    (extreme_missing rfl).trans nan, (extreme_missing some).trans present⟩

/-- What is not null are numbers only, or NaN only. -/
theorem numbers_or_nan (numbers : ∀ v ∈ vs, v = .null ∨ v.isNumeric = true) (plain : ¬Mixed vs) :
    (∀ v ∈ vs.filter (!·.isNull), v.IsNumber) ∨
      ∀ v ∈ vs.filter (!·.isNull), ∃ x, v = .float x ∧ x.isNaN = true := by
  have present : ∀ v ∈ vs.filter (!·.isNull), v ∈ vs ∧ v.isNumeric = true := by
    intro v mem
    obtain ⟨mem, some⟩ := List.mem_filter.1 mem
    obtain rfl | number := numbers v mem
    · cases some
    · exact ⟨mem, number⟩
  by_cases nan : ∃ x, .float x ∈ vs ∧ x.isNaN = true
  · refine .inr fun v here => ?_
    obtain ⟨mem, number⟩ := present v here
    have missing : v.isMissing ≠ false := fun absent => plain ⟨nan, v, mem, absent⟩
    cases v with
    | int i => exact absurd rfl missing
    | float x => exact ⟨x, rfl, by simpa [isMissing] using missing⟩
    | _ => cases number
  · refine .inl fun v here => ?_
    obtain ⟨mem, number⟩ := present v here
    cases v with
    | int i => exact .int i
    | float x => exact .float (Bool.eq_false_iff.2 fun found => nan ⟨x, mem, found⟩)
    | _ => cases number

theorem extreme_same (side : wanted ≠ .eq) (numbers : ∀ v ∈ vs, v = .null ∨ v.isNumeric = true)
    (plain : ¬Mixed vs) (order : vs.Perm ws) :
    SameExtreme (extreme wanted vs) (extreme wanted ws) := by
  have kinds := numbers_or_nan numbers plain
  have order' := order.filter (!·.isNull)
  unfold extreme
  generalize vs.filter (!·.isNull) = us at order' kinds ⊢
  generalize ws.filter (!·.isNull) = us' at order' ⊢
  by_cases empty : us = []
  · subst empty
    obtain rfl := List.nil_perm.1 order'
    exact .null
  have empty' : us' ≠ [] := fun none => empty (List.perm_nil.1 (none ▸ order'))
  obtain all | all := kinds
  · have all' : ∀ v ∈ us', v.IsNumber := fun v mem => all v (order'.mem_iff.2 mem)
    exact .equal ((best_unbeaten side all empty).equal side order' all
      (best_unbeaten side all' empty'))
  · obtain ⟨x, here, nan⟩ := all _ (best_mem wanted empty)
    obtain ⟨y, there, nan'⟩ := all _ (order'.mem_iff.2 (best_mem wanted empty'))
    rw [here, there]
    exact .nan nan nan'

theorem extreme_same_iff (side : wanted ≠ .eq)
    (numbers : ∀ v ∈ vs, v = .null ∨ v.isNumeric = true) :
    (∀ ws, vs.Perm ws → SameExtreme (extreme wanted vs) (extreme wanted ws)) ↔ ¬Mixed vs := by
  refine ⟨fun same mixed => ?_, fun plain ws => extreme_same side numbers plain⟩
  obtain ⟨ws, ws', order, order', missing, present⟩ := exists_apart wanted mixed
  have apart := (same ws order).missing.symm.trans (same ws' order').missing
  rw [missing, present] at apart
  cases apart

/-- The least and the greatest of numbers and nulls are the same in every order of these, just if
there is no NaN next to a number. -/
theorem extremes_same_iff (numbers : ∀ v ∈ vs, v = .null ∨ v.isNumeric = true) :
    ∀ name ∈ ["min", "max"],
      (∀ ws, vs.Perm ws → ∃ a b, aggregate name vs = .ok a ∧ aggregate name ws = .ok b ∧
        SameExtreme a b) ↔ ¬Mixed vs := by
  have outcome : ∀ name wanted, (∀ us, aggregate name us = .ok (extreme wanted us)) →
      wanted ≠ .eq → ((∀ ws, vs.Perm ws → ∃ a b, aggregate name vs = .ok a ∧
        aggregate name ws = .ok b ∧ SameExtreme a b) ↔ ¬Mixed vs) := by
    intro name wanted known side
    simp only [known, Except.ok.injEq, exists_eq_left', exists_and_left]
    exact extreme_same_iff side numbers
  intro name mem
  obtain rfl | rfl : name = "min" ∨ name = "max" := by simpa using mem
  · exact outcome _ .lt (fun _ => rfl) (by decide)
  · exact outcome _ .gt (fun _ => rfl) (by decide)

/-- A double that two integers are rounded to, next to both of them and a null. -/
theorem extremes_same_iff_rounded :
    (∀ v ∈ [Value.int 9007199254740993, .float 9007199254740992.0, .null, .int 9007199254740992],
      v = .null ∨ v.isNumeric = true) ∧
    aggregate "min" [.int 9007199254740993, .float 9007199254740992.0, .null,
      .int 9007199254740992] = .ok (.int 9007199254740992) ∧
    ∀ ws, [Value.int 9007199254740993, .float 9007199254740992.0, .null,
        .int 9007199254740992].Perm ws →
      ∃ b, aggregate "min" ws = .ok b ∧ SameExtreme (.int 9007199254740992) b := by
  have numbers : ∀ v ∈ [Value.int 9007199254740993, .float 9007199254740992.0, .null,
      .int 9007199254740992], v = .null ∨ v.isNumeric = true := by
    simp [isNumeric]
  have plain : ¬Mixed [.int 9007199254740993, .float 9007199254740992.0, .null,
      .int 9007199254740992] := by
    rintro ⟨⟨x, mem, nan⟩, -⟩
    obtain rfl : x = 9007199254740992.0 := by simpa using mem
    exact absurd nan (by decide)
  have least : aggregate "min" [.int 9007199254740993, .float 9007199254740992.0, .null,
      .int 9007199254740992] = .ok (.int 9007199254740992) := by decide
  refine ⟨numbers, least, fun ws order => ?_⟩
  obtain ⟨a, b, first, second, same⟩ :=
    (extremes_same_iff numbers "min" (by decide)).2 plain ws order
  rw [least] at first
  cases first
  exact ⟨b, second, same⟩

/-- NaN and one, in both orders. -/
theorem nan_first_stays :
    (∀ v ∈ [Value.float (0.0 / 0.0), .int 1], v = .null ∨ v.isNumeric = true) ∧
      [Value.float (0.0 / 0.0), .int 1].Perm [.int 1, .float (0.0 / 0.0)] ∧
      aggregate "min" [.float (0.0 / 0.0), .int 1] = .ok (.float (0.0 / 0.0)) ∧
      aggregate "min" [.int 1, .float (0.0 / 0.0)] = .ok (.int 1) ∧
      ¬SameExtreme (.float (0.0 / 0.0)) (.int 1) := by
  refine ⟨by simp [isNumeric], .swap .., by decide, by decide, fun same => ?_⟩
  exact absurd same.missing (by decide)

end Eval

end TableFlow
