import TableFlow.Proofs.Identity
import TableFlow.Proofs.Nodes

/-!
# The tables of a pipeline

The tables of a pipeline are collected by a walk with a stack (`walk`). Ahead of it are the leaves
of the pipelines on the stack, so it misses none, however the pipeline branches. It compares a
table only with the first one that it has seen under the key; if all tables agree with that one,
they agree with each other, so it finds a conflict wherever there is one (`gather_ends`). What it
gives out depends on the leaves and not on their order, so exchanging the sides of a join changes
neither the keys nor the columns under them (`tables_complete`).
-/

namespace TableFlow.Pipeline

variable {p q : Pipeline} {t u : TableRef} {l : List TableRef} {m found : NameMap TableRef}
  {k : String}

/-- Two tables conflict: they have one key and different columns. -/
def Conflict (t u : TableRef) : Prop := t.key = u.key ∧ t.columns ≠ u.columns

/-! ## Collecting -/

/-- What is collected has every table's columns under its key, and what was found before stays.
An error names the key of a table that conflicts with one found before or with another one. -/
theorem gather_ends :
    Ends (gather l found)
      (fun m => (∀ k seen, found.get? k = some seen → m.get? k = some seen) ∧
        ∀ t ∈ l, ∃ seen, m.get? t.key = some seen ∧ seen.columns = t.columns)
      fun e => ∃ t ∈ l, e = .conflictingTable t.key ∧
        ((∃ seen, found.get? t.key = some seen ∧ seen.columns ≠ t.columns) ∨
          ∃ u ∈ l, Conflict t u) := by
  induction l generalizing found with
  | nil => exact ⟨fun _ _ => id, nofun⟩
  | cons t rest ih =>
    have wider : ∀ {v}, (∃ u ∈ rest, Conflict v u) → ∃ u ∈ t :: rest, Conflict v u := by
      rintro v ⟨u, mem, conflict⟩
      exact ⟨u, List.mem_cons_of_mem t mem, conflict⟩
    rw [gather]
    split
    · rename_i seen here
      split
      · rename_i same
        refine ih.mono (fun m kept => ?_) fun e failed => ?_
        · obtain ⟨stays, each⟩ := kept
          exact ⟨stays, List.forall_mem_cons.2 ⟨⟨seen, stays _ _ here, same⟩, each⟩⟩
        · obtain ⟨v, mem, error, why⟩ := failed
          exact ⟨v, List.mem_cons_of_mem t mem, error, why.imp_right wider⟩
      · rename_i differ
        exact ⟨t, List.mem_cons_self, rfl, .inl ⟨seen, here, differ⟩⟩
    · rename_i absent
      -- from here on the table is among those found: a later conflict with it is one of the list
      refine ih.mono (fun m kept => ?_) fun e failed => ?_
      · obtain ⟨stays, each⟩ := kept
        have own : m.get? t.key = some t := stays _ _ (by rw [NameMap.get?_insert, if_pos rfl])
        refine ⟨fun k seen before => stays k seen ?_, List.forall_mem_cons.2 ⟨⟨t, own, rfl⟩, each⟩⟩
        rw [NameMap.get?_insert, if_neg]
        · exact before
        · rintro rfl
          rw [absent] at before
          cases before
      · obtain ⟨v, mem, error, why⟩ := failed
        refine ⟨v, List.mem_cons_of_mem t mem, error, ?_⟩
        rcases why with ⟨seen, at_key, differ⟩ | later
        · rw [NameMap.get?_insert] at at_key
          split at at_key
          · rename_i same
            obtain rfl := Option.some.inj at_key
            exact .inr ⟨t, List.mem_cons_self, same, differ.symm⟩
          · exact .inl ⟨seen, at_key, differ⟩
        · exact .inr (wider later)

/-! ## The walk -/

def size : Pipeline → Nat
  | table _ => 1
  | extension source _ _ | filter source _ | selection source _ | removal source _
  | grouping source _ _ | ordering source _ | relabeling source _ => source.size + 1
  | join left right _ _ => left.size + right.size + 1

def ahead (stack : List Pipeline) : Nat := stack.foldr (fun p rest => p.size + rest) 0

/-- A step is gone when its sources have taken its place. -/
theorem ahead_sources {stack : List Pipeline} :
    ahead (p :: stack) = ahead (p.sources.reverse ++ stack) + 1 := by
  cases p <;> simp [ahead, sources, size] <;> omega

/-- The walk over the pipelines on a stack, the top one first: a table is compared with the one
found under its key, if any, and then the sources are put on the stack, so that the last one is
the top. -/
def walk : List Pipeline → NameMap TableRef → Except Error (NameMap TableRef)
  | [], found => .ok found
  | .table t :: stack, found =>
    match found.get? t.key with
    | some seen =>
      if seen.columns = t.columns then walk stack found else .error (.conflictingTable t.key)
    | none => walk stack (found.insert t.key t)
  | p :: stack, found => walk (p.sources.reverse ++ stack) found
termination_by stack => ahead stack
decreasing_by
  · exact Nat.lt_of_succ_le (ahead_sources (p := .table t)).ge
  · exact Nat.lt_of_succ_le (ahead_sources (p := .table t)).ge
  · exact Nat.lt_of_succ_le ahead_sources.ge

/-- The leaves of a step are those of its sources, the last source first. -/
theorem leaves_eq_flatMap (step : p.sources ≠ []) :
    p.leaves = p.sources.reverse.flatMap leaves := by
  cases p with
  | table t => exact absurd rfl step
  | _ => simp [leaves, sources]

/-- The walk collects the leaves of the pipelines on the stack, those of the top one first. -/
theorem walk_eq_gather {stack : List Pipeline} :
    walk stack found = gather (stack.flatMap leaves) found := by
  induction stack, found using walk.induct with
  | case1 found => rw [walk, List.flatMap_nil, gather]
  | case2 t stack found seen here same ih =>
    rw [walk, here, List.flatMap_cons, leaves, List.singleton_append, gather, here]
    simpa [same] using ih
  | case3 t stack found seen here differ =>
    rw [walk, here, List.flatMap_cons, leaves, List.singleton_append, gather, here]
    simp [differ]
  | case4 t stack found absent ih =>
    rw [walk, absent, List.flatMap_cons, leaves, List.singleton_append, gather, absent]
    exact ih
  | case5 p stack found step ih =>
    have below : p.sources ≠ [] := by
      cases p with
      | table t => exact absurd rfl (step t)
      | _ => simp [sources]
    rw [walk, ih, List.flatMap_append, List.flatMap_cons, leaves_eq_flatMap below]
    exact step

theorem mem_leaves_iff : t ∈ p.leaves ↔ Inside (.table t) p := by
  constructor
  · intro leaf
    induction p with
    | table u =>
      obtain rfl := List.mem_singleton.1 leaf
      exact .root
    | join left right _ _ ihl ihr =>
      rcases List.mem_append.1 leaf with leaf | leaf
      · exact .source (by simp [sources]) (ihr leaf)
      · exact .source (by simp [sources]) (ihl leaf)
    | extension _ _ _ ih => exact .source (List.mem_singleton.2 rfl) (ih leaf)
    | filter _ _ ih => exact .source (List.mem_singleton.2 rfl) (ih leaf)
    | selection _ _ ih => exact .source (List.mem_singleton.2 rfl) (ih leaf)
    | removal _ _ ih => exact .source (List.mem_singleton.2 rfl) (ih leaf)
    | grouping _ _ _ ih => exact .source (List.mem_singleton.2 rfl) (ih leaf)
    | ordering _ _ ih => exact .source (List.mem_singleton.2 rfl) (ih leaf)
    | relabeling _ _ ih => exact .source (List.mem_singleton.2 rfl) (ih leaf)
  · intro inside
    generalize same : Pipeline.table t = q at inside
    induction inside with
    | root => exact same ▸ List.mem_singleton.2 rfl
    | source mem _ ih =>
      rw [leaves_eq_flatMap (List.ne_nil_of_mem mem)]
      exact List.mem_flatMap.2 ⟨_, List.mem_reverse.2 mem, ih⟩

/-! ## Conflicts and keys -/

/-- The tables are collected or there is a conflict, whose key the error names; not both. -/
theorem tables_ends :
    Ends p.tables
      (fun m => (∀ t, Inside (.table t) p → ∃ u, m.get? t.key = some u ∧ u.columns = t.columns) ∧
        ∀ k u, m.get? k = some u → Inside (.table u) p ∧ u.key = k)
      fun e => ∃ t u, Inside (.table t) p ∧ Inside (.table u) p ∧ Conflict t u ∧
        e = .conflictingTable t.key := by
  have ends : Ends (gather p.leaves .empty) _ _ := gather_ends
  cases made : p.tables with
  | error e =>
    obtain ⟨t, leaf, error, ⟨seen, found, -⟩ | ⟨u, leaf', conflict⟩⟩ := ends.of_eq_error made
    · rw [NameMap.get?_empty] at found
      cases found
    · exact ⟨t, u, mem_leaves_iff.1 leaf, mem_leaves_iff.1 leaf', conflict, error⟩
  | ok m =>
    refine ⟨fun t inside => (ends.of_eq_ok made).2 t (mem_leaves_iff.2 inside), fun k u found => ?_⟩
    obtain ⟨leaf, key⟩ := mem_tables made (NameMap.mem_entries.2 found)
    exact ⟨mem_leaves_iff.1 leaf, key⟩

theorem tables_eq_error :
    (∃ e, p.tables = .error e) ↔
      ∃ t u, Inside (.table t) p ∧ Inside (.table u) p ∧ Conflict t u := by
  constructor
  · rintro ⟨e, failed⟩
    obtain ⟨t, u, inside, inside', conflict, -⟩ := tables_ends.of_eq_error failed
    exact ⟨t, u, inside, inside', conflict⟩
  · rintro ⟨t, u, inside, inside', key, differ⟩
    cases made : p.tables with
    | error e => exact ⟨e, rfl⟩
    | ok m =>
      have each := (tables_ends.of_eq_ok made).1
      obtain ⟨v, found, first⟩ := each t inside
      obtain ⟨w, found', second⟩ := each u inside'
      rw [key, found', Option.some.injEq] at found
      exact absurd (first.symm.trans (found ▸ second)) differ

/-- The keys of the collected tables are those of the leaves. -/
theorem mem_names_tables (made : p.tables = .ok m) :
    k ∈ m.names ↔ ∃ t, Inside (.table t) p ∧ t.key = k := by
  obtain ⟨each, only⟩ := tables_ends.of_eq_ok made
  rw [NameMap.mem_names]
  constructor
  · rintro ⟨t, found⟩
    exact ⟨t, only k t found⟩
  · rintro ⟨t, inside, rfl⟩
    obtain ⟨u, found, -⟩ := each t inside
    exact ⟨u, found⟩

/-! ## Exchanged sides -/

/-- A pipeline in which the sides of one join, anywhere in it, have been exchanged. -/
inductive Exchanged : Pipeline → Pipeline → Prop where
  | sides {l r : Pipeline} {keys : List String} {type : JoinType} :
    Exchanged (join l r keys type) (join r l keys type)
  | left {l l' r : Pipeline} {keys : List String} {type : JoinType} :
    Exchanged l l' → Exchanged (join l r keys type) (join l' r keys type)
  | right {l r r' : Pipeline} {keys : List String} {type : JoinType} :
    Exchanged r r' → Exchanged (join l r keys type) (join l r' keys type)
  | extension {s s' : Pipeline} {assignments : List (String × Formula)} {window : Window} :
    Exchanged s s' → Exchanged (extension s assignments window) (extension s' assignments window)
  | filter {s s' : Pipeline} {condition : Formula} :
    Exchanged s s' → Exchanged (filter s condition) (filter s' condition)
  | selection {s s' : Pipeline} {columns : List String} :
    Exchanged s s' → Exchanged (selection s columns) (selection s' columns)
  | removal {s s' : Pipeline} {dropped : List String} :
    Exchanged s s' → Exchanged (removal s dropped) (removal s' dropped)
  | grouping {s s' : Pipeline} {assignments : List (String × Formula)} {groupBy : List String} :
    Exchanged s s' → Exchanged (grouping s assignments groupBy) (grouping s' assignments groupBy)
  | ordering {s s' : Pipeline} {order : RowOrder} :
    Exchanged s s' → Exchanged (ordering s order) (ordering s' order)
  | relabeling {s s' : Pipeline} {pairs : List (String × String)} :
    Exchanged s s' → Exchanged (relabeling s pairs) (relabeling s' pairs)

theorem Exchanged.leaves_perm (h : Exchanged p q) : p.leaves.Perm q.leaves := by
  induction h with
  | sides => exact List.perm_append_comm
  | left _ ih => exact ih.append_left _
  | right _ ih => exact ih.append_right _
  | _ => assumption

theorem Exchanged.inside_iff (h : Exchanged p q) :
    Inside (.table t) p ↔ Inside (.table t) q := by
  rw [← mem_leaves_iff, ← mem_leaves_iff, h.leaves_perm.mem_iff]

/-- Pipelines with the same leaves have the same columns under each key. -/
theorem tables_same {m' : NameMap TableRef}
    (same : ∀ t, Inside (.table t) p ↔ Inside (.table t) q) (made : p.tables = .ok m)
    (made' : q.tables = .ok m') : (m.get? k).map (·.columns) = (m'.get? k).map (·.columns) := by
  obtain ⟨each, -⟩ := tables_ends.of_eq_ok made'
  cases found : m.get? k with
  | some t =>
    obtain ⟨inside, rfl⟩ := (tables_ends.of_eq_ok made).2 k t found
    obtain ⟨u, found', columns⟩ := each t ((same t).1 inside)
    rw [found', Option.map_some, Option.map_some, columns]
  | none =>
    cases found' : m'.get? k with
    | none => rfl
    | some u =>
      obtain ⟨t, inside, key⟩ := (mem_names_tables made').1 (NameMap.mem_names.2 ⟨u, found'⟩)
      obtain ⟨v, there⟩ :=
        NameMap.mem_names.1 ((mem_names_tables made).2 ⟨t, (same t).2 inside, key⟩)
      rw [found] at there
      cases there

/-- The walk with a stack collects the tables of a pipeline. It fails just if two leaves have one
key and different columns, and the error names such a key; else its keys are those of the leaves,
and under each key stands a leaf of that key, with the columns of every leaf of that key. When
the sides of a join are exchanged, it fails or succeeds as before, with the same columns under
the same keys. -/
theorem tables_complete (p : Pipeline) :
    walk [p] .empty = p.tables ∧
      ((∃ e, p.tables = .error e) ↔
        ∃ t u, Inside (.table t) p ∧ Inside (.table u) p ∧ t.key = u.key ∧ t.columns ≠ u.columns) ∧
      (∀ e, p.tables = .error e → ∃ t u, Inside (.table t) p ∧ Inside (.table u) p ∧
        t.key = u.key ∧ t.columns ≠ u.columns ∧ e = .conflictingTable t.key) ∧
      (∀ m, p.tables = .ok m →
        (∀ k, k ∈ m.names ↔ ∃ t, Inside (.table t) p ∧ t.key = k) ∧
        (∀ k u, m.get? k = some u → Inside (.table u) p ∧ u.key = k) ∧
        ∀ t, Inside (.table t) p → ∃ u, m.get? t.key = some u ∧ u.columns = t.columns) ∧
      ∀ q, Exchanged p q →
        ((∃ m, p.tables = .ok m) ↔ ∃ m, q.tables = .ok m) ∧
        ∀ m m', p.tables = .ok m → q.tables = .ok m' →
          ∀ k, (m.get? k).map (·.columns) = (m'.get? k).map (·.columns) := by
  refine ⟨?_, tables_eq_error, fun e failed => ?_, fun m made => ?_, fun q exchanged => ⟨?_, ?_⟩⟩
  · rw [walk_eq_gather, List.flatMap_singleton, tables]
  · obtain ⟨t, u, inside, inside', ⟨key, differ⟩, error⟩ := tables_ends.of_eq_error failed
    exact ⟨t, u, inside, inside', key, differ, error⟩
  · obtain ⟨each, only⟩ := tables_ends.of_eq_ok made
    exact ⟨fun k => mem_names_tables made, only, each⟩
  · rw [exists_ok_iff, exists_ok_iff, tables_eq_error, tables_eq_error]
    simp only [exchanged.inside_iff]
  · exact fun m m' made made' k => tables_same (fun t => exchanged.inside_iff) made made'

/-- A table that is read twice, below a join whose sides are exchanged; a table of its key with
other columns is found behind it. -/
theorem tables_complete_exchange :
    let d := table ⟨"d", .empty, ["k", "x"]⟩
    let r := table ⟨"r", .empty, ["k", "y"]⟩
    let other := table ⟨"d", .empty, ["x", "k"]⟩
    let p := join (filter (join d r ["k"] .left) (.column "x")) d ["k"] .full
    let q := join (filter (join r d ["k"] .left) (.column "x")) d ["k"] .full
    (∃ m m', p.tables = .ok m ∧ q.tables = .ok m' ∧ m.names = ["d", "r"] ∧
      ∀ k, (m.get? k).map (·.columns) = (m'.get? k).map (·.columns)) ∧
    ∃ e, (join other p ["k"] .inner).tables = .error e := by
  intro d r other p q
  obtain ⟨m, made⟩ : ∃ m, p.tables = .ok m := ⟨_, rfl⟩
  obtain ⟨-, -, -, -, exchange⟩ := tables_complete p
  obtain ⟨ok_iff, columns⟩ := exchange q (.left (.filter .sides))
  obtain ⟨m', made'⟩ := ok_iff.1 ⟨m, made⟩
  refine ⟨⟨m, m', made, made', ?_, columns m m' made made'⟩, ?_⟩
  · obtain rfl := Except.ok.inj made
    decide
  · obtain ⟨-, fails_iff, -⟩ := tables_complete (join other p ["k"] .inner)
    exact fails_iff.2 ⟨⟨"d", .empty, ["x", "k"]⟩, ⟨"d", .empty, ["k", "x"]⟩,
      mem_leaves_iff.1 (by decide), mem_leaves_iff.1 (by decide), rfl, by decide⟩

end TableFlow.Pipeline
