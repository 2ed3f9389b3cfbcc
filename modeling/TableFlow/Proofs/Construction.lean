import TableFlow.Pipeline.Build
import TableFlow.Proofs.Lookup
import TableFlow.Proofs.Outcome

/-!
# Pipelines made by the builders

`Pipeline.Built` holds of the pipelines that calls of the builders make. A builder accepts
a step exactly if the step fits its source; what that means is one structure for each kind
of step (`ExtensionFits`, …), which later proofs read instead of the builder's code. The
columns of a built pipeline are not empty and differ (`Built.columns_ne_nil`,
`Built.columns_nodup`).
-/

namespace TableFlow

/-! ## The checks -/

theorem checkUnique_eq_ok {place : Place} {names : List String} {u : Unit} :
    checkUnique place names = .ok u ↔ names.Nodup := by
  have := @firstRepeat?_eq_none [] names
  unfold checkUnique
  split <;> simp_all

theorem checkColumnList_eq_ok {place : Place} {names : List String} {u : Unit} :
    checkColumnList place names = .ok u ↔ names ≠ [] ∧ names.Nodup := by
  unfold checkColumnList
  by_cases h : names = [] <;> simp [h, checkUnique_eq_ok]

theorem filter_not_eq_nil {p : String → Bool} {names : List String} :
    names.filter (!p ·) = [] ↔ ∀ a ∈ names, p a = true := by
  simp [List.filter_eq_nil_iff]

namespace Pipeline

theorem hasColumn_iff {p : Pipeline} {c : String} : p.hasColumn c = true ↔ c ∈ p.columns := by
  simp [hasColumn]

end Pipeline

theorem checkKnown_eq_ok {place : Place} {names : List String} {p : Pipeline} {u : Unit} :
    checkKnown place names p = .ok u ↔ ∀ c ∈ names, c ∈ p.columns := by
  simp only [← Pipeline.hasColumn_iff, ← filter_not_eq_nil]
  unfold checkKnown
  split <;> simp_all

theorem checkReverse_eq_ok {reverse orderBy : List String} {u : Unit} :
    checkReverse reverse orderBy = .ok u ↔ ∀ c ∈ reverse, c ∈ orderBy := by
  have := @filter_not_eq_nil (orderBy.contains ·) reverse
  unfold checkReverse
  split <;> simp_all

theorem TableRef.of_eq_ok {name : String} {columns : List String} {qualifiers : NameMap String}
    {t : TableRef} :
    TableRef.of name columns qualifiers = .ok t ↔
      name ≠ "" ∧ columns ≠ [] ∧ columns.Nodup ∧ ⟨name, qualifiers, columns⟩ = t := by
  simp only [TableRef.of, guard_eq_ok, bind_eq_ok, checkColumnList_eq_ok, exists_const,
    Except.ok.injEq, and_assoc, ne_eq]

structure WindowFits (source : Pipeline) (w : Window) : Prop where
  partition_nodup : w.partitionBy.Nodup
  order_nodup : w.orderBy.Nodup
  reverse_nodup : w.reverse.Nodup
  partition_known : ∀ c ∈ w.partitionBy, c ∈ source.columns
  order_known : ∀ c ∈ w.orderBy, c ∈ source.columns
  reverse_ordered : ∀ c ∈ w.reverse, c ∈ w.orderBy

theorem Window.check_eq_ok {source : Pipeline} {w : Window} {u : Unit} :
    w.check source = .ok u ↔ WindowFits source w := by
  simp only [Window.check, bind_eq_ok, checkUnique_eq_ok, checkKnown_eq_ok, checkReverse_eq_ok,
    exists_const]
  constructor
  · rintro ⟨h1, h2, h3, h4, h5, h6⟩
    exact ⟨h1, h2, h3, h4, h5, h6⟩
  · rintro ⟨h1, h2, h3, h4, h5, h6⟩
    exact ⟨h1, h2, h3, h4, h5, h6⟩

theorem Window.checkAssigned_eq_ok {w : Window} {names : List String} {u : Unit} :
    w.checkAssigned names = .ok u ↔ ∀ c ∈ names, c ∉ w.partitionBy ∧ c ∉ w.orderBy := by
  have none :=
    @List.find?_eq_none _ (fun k => w.partitionBy.contains k || w.orderBy.contains k) names
  simp only [List.contains_eq_mem, Bool.or_eq_true, decide_eq_true_eq, not_or] at none
  rw [← none, Window.checkAssigned]
  split <;> simp_all

namespace Pipeline

/-! ## What the builders accept -/

variable {source left right p : Pipeline}

/-- Assignments over columns of a source; none is to a column of the window. -/
structure ExtensionFits (source : Pipeline) (assignments : List (String × Formula))
    (window : Window) : Prop where
  assigns : assignments ≠ []
  nodup : (assignments.map (·.1)).Nodup
  placed : WindowFits source window
  apart : ∀ c ∈ assignments.map (·.1), c ∉ window.partitionBy ∧ c ∉ window.orderBy
  known : ∀ c ∈ Formula.columnsOfAll (assignments.map (·.2)), c ∈ source.columns

theorem extend_eq_ok {assignments : List (String × Formula)} {window : Window} :
    source.extend assignments window = .ok p ↔
      ExtensionFits source assignments window ∧ extension source assignments window = p := by
  simp only [extend, guard_eq_ok, bind_eq_ok, checkUnique_eq_ok, Window.check_eq_ok,
    Window.checkAssigned_eq_ok, checkKnown_eq_ok, exists_const, Except.ok.injEq]
  constructor
  · rintro ⟨h1, h2, h3, h4, h5, rfl⟩
    exact ⟨⟨by simpa using h1, h2, h3, h4, h5⟩, rfl⟩
  · rintro ⟨⟨h1, h2, h3, h4, h5⟩, rfl⟩
    exact ⟨by simpa using h1, h2, h3, h4, h5, rfl⟩

theorem selectRows_eq_ok {condition : Formula} :
    source.selectRows condition = .ok p ↔
      (∀ c ∈ condition.columns, c ∈ source.columns) ∧ filter source condition = p := by
  simp only [selectRows, bind_eq_ok, checkKnown_eq_ok, exists_const, Except.ok.injEq,
    NameSet.mem_def]

theorem selectColumns_eq_ok {columns : List String} :
    source.selectColumns columns = .ok p ↔
      columns ≠ [] ∧ columns.Nodup ∧ (∀ c ∈ columns, c ∈ source.columns) ∧
        selection source columns = p := by
  simp only [selectColumns, bind_eq_ok, checkColumnList_eq_ok, checkKnown_eq_ok, exists_const,
    Except.ok.injEq, and_assoc, ne_eq]

theorem dropColumns_eq_ok {dropped : List String} :
    source.dropColumns dropped = .ok p ↔
      dropped ≠ [] ∧ dropped.Nodup ∧ (∀ c ∈ dropped, c ∈ source.columns) ∧
        (∃ c ∈ source.columns, c ∉ dropped) ∧ removal source dropped = p := by
  simp only [dropColumns, guard_eq_ok, bind_eq_ok, checkUnique_eq_ok, checkKnown_eq_ok,
    exists_const, Except.ok.injEq, List.all_eq_true, List.contains_iff_mem, not_forall,
    exists_prop, ne_eq]

/-- Groups and aggregates over columns of a source. -/
structure GroupingFits (source : Pipeline) (assignments : List (String × Formula))
    (groupBy : List String) : Prop where
  gives : groupBy ++ assignments.map (·.1) ≠ []
  groups_known : ∀ c ∈ groupBy, c ∈ source.columns
  known : ∀ c ∈ Formula.columnsOfAll (assignments.map (·.2)), c ∈ source.columns
  nodup : (groupBy ++ assignments.map (·.1)).Nodup

theorem project_eq_ok {assignments : List (String × Formula)} {groupBy : List String} :
    source.project assignments groupBy = .ok p ↔
      GroupingFits source assignments groupBy ∧ grouping source assignments groupBy = p := by
  simp only [project, guard_eq_ok, bind_eq_ok, checkUnique_eq_ok, checkKnown_eq_ok, exists_const,
    Except.ok.injEq]
  have empty : ¬(assignments.isEmpty && groupBy.isEmpty) = true ↔
      groupBy ++ assignments.map (·.1) ≠ [] := by
    simp [and_comm]
  rw [empty]
  constructor
  · rintro ⟨h1, -, h2, h3, h4, rfl⟩
    exact ⟨⟨h1, h2, h3, h4⟩, rfl⟩
  · rintro ⟨⟨h1, h2, h3, h4⟩, rfl⟩
    exact ⟨h1, (List.nodup_append.1 h4).1, h2, h3, h4, rfl⟩

structure OrderFits (source : Pipeline) (order : RowOrder) : Prop where
  order_nodup : order.orderBy.Nodup
  reverse_nodup : order.reverse.Nodup
  known : ∀ c ∈ order.orderBy, c ∈ source.columns
  reverse_ordered : ∀ c ∈ order.reverse, c ∈ order.orderBy

theorem orderRows_eq_ok {order : RowOrder} :
    source.orderRows order = .ok p ↔ OrderFits source order ∧ ordering source order = p := by
  simp only [orderRows, bind_eq_ok, checkUnique_eq_ok, checkKnown_eq_ok, checkReverse_eq_ok,
    exists_const, Except.ok.injEq]
  constructor
  · rintro ⟨h1, h2, h3, h4, rfl⟩
    exact ⟨⟨h1, h2, h3, h4⟩, rfl⟩
  · rintro ⟨⟨h1, h2, h3, h4⟩, rfl⟩
    exact ⟨h1, h2, h3, h4, rfl⟩

/-- Renamed columns of a source; no new name is that of a column that keeps its name. -/
structure RelabelingFits (source : Pipeline) (pairs : List (String × String)) : Prop where
  renames : pairs ≠ []
  new_nodup : (pairs.map (·.1)).Nodup
  old_nodup : (pairs.map (·.2)).Nodup
  known : ∀ c ∈ pairs.map (·.2), c ∈ source.columns
  free : ∀ c ∈ pairs.map (·.1), c ∈ source.columns → c ∈ pairs.map (·.2)

theorem renameColumns_eq_ok {pairs : List (String × String)} :
    source.renameColumns pairs = .ok p ↔
      RelabelingFits source pairs ∧ relabeling source pairs = p := by
  have free := @List.find?_eq_none _
    (fun pair => source.hasColumn pair.1 && !(pairs.map (·.2)).contains pair.1) pairs
  simp only [renameColumns, guard_eq_ok, bind_eq_ok, checkUnique_eq_ok, checkKnown_eq_ok,
    exists_const]
  constructor
  · rintro ⟨h1, h2, h3, h4, h5⟩
    split at h5
    · cases h5
    · rename_i none
      rw [Except.ok.injEq] at h5
      refine ⟨⟨by simpa using h1, h2, h3, h4, ?_⟩, h5⟩
      intro c hc hs
      obtain ⟨pair, hp, rfl⟩ := List.mem_map.1 hc
      simpa [hasColumn_iff.2 hs] using free.1 none pair hp
  · rintro ⟨⟨h1, h2, h3, h4, h5⟩, rfl⟩
    refine ⟨by simpa using h1, h2, h3, h4, ?_⟩
    have none := free.2 fun pair hp => by
      have := h5 pair.1 (List.mem_map_of_mem hp)
      simpa [hasColumn_iff] using this
    simp only [none]

/-- Join keys that both sides have. -/
structure JoinFits (left right : Pipeline) (keys : List String) : Prop where
  keyed : keys ≠ []
  nodup : keys.Nodup
  left_known : ∀ c ∈ keys, c ∈ left.columns
  right_known : ∀ c ∈ keys, c ∈ right.columns

theorem checkKeys_eq_ok {side : Side} {keys : List String} {u : Unit} :
    checkKeys side keys p = .ok u ↔ ∀ c ∈ keys, c ∈ p.columns := by
  simp only [← hasColumn_iff, ← filter_not_eq_nil]
  unfold checkKeys
  split <;> simp_all

theorem naturalJoin_eq_ok {keys : List String} {type : JoinType} :
    left.naturalJoin right keys type = .ok p ↔
      JoinFits left right keys ∧ join left right keys type = p := by
  simp only [naturalJoin, guard_eq_ok, bind_eq_ok, checkUnique_eq_ok, checkKeys_eq_ok,
    exists_const, Except.ok.injEq]
  constructor
  · rintro ⟨h1, h2, h3, h4, rfl⟩
    exact ⟨⟨h1, h2, h3, h4⟩, rfl⟩
  · rintro ⟨⟨h1, h2, h3, h4⟩, rfl⟩
    exact ⟨h1, h2, h3, h4, rfl⟩

/-! ## Built pipelines -/

inductive Built : Pipeline → Prop where
  | table {name : String} {columns : List String} {qualifiers : NameMap String} {t : TableRef} :
      TableRef.of name columns qualifiers = .ok t → Built (table t)
  | extend {source p : Pipeline} {assignments : List (String × Formula)} {window : Window} :
      Built source → source.extend assignments window = .ok p → Built p
  | selectRows {source p : Pipeline} {condition : Formula} :
      Built source → source.selectRows condition = .ok p → Built p
  | selectColumns {source p : Pipeline} {columns : List String} :
      Built source → source.selectColumns columns = .ok p → Built p
  | dropColumns {source p : Pipeline} {dropped : List String} :
      Built source → source.dropColumns dropped = .ok p → Built p
  | project {source p : Pipeline} {assignments : List (String × Formula)}
      {groupBy : List String} :
      Built source → source.project assignments groupBy = .ok p → Built p
  | orderRows {source p : Pipeline} {order : RowOrder} :
      Built source → source.orderRows order = .ok p → Built p
  | renameColumns {source p : Pipeline} {pairs : List (String × String)} :
      Built source → source.renameColumns pairs = .ok p → Built p
  | naturalJoin {left right p : Pipeline} {keys : List String} {type : JoinType} :
      Built left → Built right → left.naturalJoin right keys type = .ok p → Built p

theorem mem_withMissing {l more : List String} {c : String} :
    c ∈ withMissing l more ↔ c ∈ l ∨ c ∈ more := by
  by_cases h : c ∈ l <;> simp [withMissing, h]

theorem nodup_withMissing {l more : List String} (hl : l.Nodup) (hm : more.Nodup) :
    (withMissing l more).Nodup := by
  refine List.nodup_append.2 ⟨hl, hm.filter _, ?_⟩
  rintro a ha b hb rfl
  simp [ha] at hb

theorem newName_of_mem {pairs : List (String × String)} (nodup : (pairs.map (·.2)).Nodup)
    {pair : String × String} (h : pair ∈ pairs) : newName pairs pair.2 = pair.1 := by
  simp [newName, find?_key nodup h]

theorem newName_of_not_mem {pairs : List (String × String)} {c : String}
    (h : c ∉ pairs.map (·.2)) : newName pairs c = c := by
  rw [newName, find?_key_none.2 h]
  rfl

theorem oldName_of_mem {pairs : List (String × String)} (nodup : (pairs.map (·.1)).Nodup)
    {pair : String × String} (h : pair ∈ pairs) : oldName pairs pair.1 = pair.2 := by
  simp [oldName, find?_key nodup h]

theorem oldName_of_not_mem {pairs : List (String × String)} {c : String}
    (h : c ∉ pairs.map (·.1)) : oldName pairs c = c := by
  rw [oldName, find?_key_none.2 h]
  rfl

/-- The name behind a column's new name is the column. -/
theorem RelabelingFits.oldName_newName {pairs : List (String × String)}
    (fits : RelabelingFits source pairs) {c : String} (h : c ∈ source.columns) :
    oldName pairs (newName pairs c) = c := by
  by_cases old : c ∈ pairs.map (·.2)
  · obtain ⟨pair, hp, rfl⟩ := List.mem_map.1 old
    rw [newName_of_mem fits.old_nodup hp, oldName_of_mem fits.new_nodup hp]
  · rw [newName_of_not_mem old]
    exact oldName_of_not_mem fun new => old (fits.free c new h)

/-- New names stay apart: the old ones can be read off them. -/
theorem RelabelingFits.nodup_columns {pairs : List (String × String)}
    (fits : RelabelingFits source pairs) (nodup : source.columns.Nodup) :
    (source.columns.map (newName pairs)).Nodup := by
  refine List.Nodup.map_on (fun a ha b hb e => ?_) nodup
  rw [← fits.oldName_newName ha, e, fits.oldName_newName hb]

theorem Built.columns_ne_nil (built : p.Built) : p.columns ≠ [] := by
  induction built with
  | table h =>
    obtain ⟨-, ne, -, rfl⟩ := TableRef.of_eq_ok.1 h
    exact ne
  | extend _ h ih =>
    obtain ⟨-, rfl⟩ := extend_eq_ok.1 h
    simp [columns, withMissing, ih]
  | selectRows _ h ih =>
    obtain ⟨-, rfl⟩ := selectRows_eq_ok.1 h
    exact ih
  | selectColumns _ h =>
    obtain ⟨ne, -, -, rfl⟩ := selectColumns_eq_ok.1 h
    exact ne
  | dropColumns _ h =>
    obtain ⟨-, -, -, ⟨c, known, stays⟩, rfl⟩ := dropColumns_eq_ok.1 h
    have : c ∈ columns (removal _ _) := List.mem_filter.2 ⟨known, by simpa using stays⟩
    exact List.ne_nil_of_mem this
  | project _ h =>
    obtain ⟨fits, rfl⟩ := project_eq_ok.1 h
    exact fits.gives
  | orderRows _ h ih =>
    obtain ⟨-, rfl⟩ := orderRows_eq_ok.1 h
    exact ih
  | renameColumns _ h ih =>
    obtain ⟨-, rfl⟩ := renameColumns_eq_ok.1 h
    simpa [columns] using ih
  | naturalJoin _ _ h ih =>
    obtain ⟨-, rfl⟩ := naturalJoin_eq_ok.1 h
    simp [columns, withMissing, ih]

theorem Built.columns_nodup (built : p.Built) : p.columns.Nodup := by
  induction built with
  | table h =>
    obtain ⟨-, -, nodup, rfl⟩ := TableRef.of_eq_ok.1 h
    exact nodup
  | extend _ h ih =>
    obtain ⟨fits, rfl⟩ := extend_eq_ok.1 h
    exact nodup_withMissing ih fits.nodup
  | selectRows _ h ih =>
    obtain ⟨-, rfl⟩ := selectRows_eq_ok.1 h
    exact ih
  | selectColumns _ h =>
    obtain ⟨-, nodup, -, rfl⟩ := selectColumns_eq_ok.1 h
    exact nodup
  | dropColumns _ h ih =>
    obtain ⟨-, -, -, -, rfl⟩ := dropColumns_eq_ok.1 h
    exact ih.filter _
  | project _ h =>
    obtain ⟨fits, rfl⟩ := project_eq_ok.1 h
    exact fits.nodup
  | orderRows _ h ih =>
    obtain ⟨-, rfl⟩ := orderRows_eq_ok.1 h
    exact ih
  | renameColumns _ h ih =>
    obtain ⟨fits, rfl⟩ := renameColumns_eq_ok.1 h
    exact fits.nodup_columns ih
  | naturalJoin _ _ h ihl ihr =>
    obtain ⟨-, rfl⟩ := naturalJoin_eq_ok.1 h
    exact nodup_withMissing ihl ihr

end Pipeline

end TableFlow
