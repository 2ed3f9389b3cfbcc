import TableFlow.Proofs.Demand
import TableFlow.Proofs.Eval.Steps

/-!
# What a request depends on

Two tables agree on some columns if they have as many rows and equal cells in these
columns. A step whose sources agree on what it demands of them gives out tables that agree
on what is wanted of it; so a run depends on nothing but the demanded columns of the bound
tables (`run_agree`).
-/

namespace TableFlow.Eval

/-- As many rows, and equal cells in some columns. -/
structure Agree (v : NameSet) (x y : Table) : Prop where
  rows : x.numRows = y.numRows
  cells : ∀ c ∈ v, x.cells? c = y.cells? c

variable {u v w : NameSet} {x y left left' right right' r r' : Table} {c : String}

/-! ## What the steps compute -/

theorem columnCells_agree (h : Agree v x y) (hc : c ∈ v) : columnCells x c = columnCells y c := by
  rw [columnCells, columnCells, h.cells c hc]

theorem keyColumns_agree (h : Agree v x y) {names : List String} (hc : ∀ c ∈ names, c ∈ v) :
    keyColumns x names = keyColumns y names :=
  mapM_congr fun c mem => columnCells_agree h (hc c mem)

/-- The values of a formula depend on its columns. -/
theorem rowwise_agree (h : Agree v x y) (e : Formula) :
    (∀ c ∈ e.columnList, c ∈ v) → rowwise x e = rowwise y e := by
  induction e using Formula.induction with
  | constant a =>
    intro _
    rw [rowwise, rowwise, h.rows]
  | column name =>
    intro hc
    rw [rowwise, rowwise, h.cells name (hc name (List.mem_singleton.2 rfl))]
  | apply name args form ih =>
    intro hc
    have all : rowwiseAll x args = rowwiseAll y args := by
      rw [rowwiseAll_eq_mapM, rowwiseAll_eq_mapM]
      exact mapM_congr fun a ha =>
        ih a ha fun c hca => hc c (Formula.mem_columnList_apply.2 ⟨a, ha, hca⟩)
    rw [rowwise, rowwise, all, h.rows]

theorem sortPositions_agree (h : Agree v x y) {columns reverse : List String}
    (hc : ∀ c ∈ columns, c ∈ v) :
    sortPositions x columns reverse = sortPositions y columns reverse := by
  rw [sortPositions, sortPositions, keyColumns_agree h hc, h.rows]

theorem groups_agree (h : Agree v x y) {positions : List Nat} {columns : List String}
    (hc : ∀ c ∈ columns, c ∈ v) : groups x positions columns = groups y positions columns := by
  rw [groups, groups, keyColumns_agree h hc]

theorem windowCall_agree (h : Agree v x y) {e : Formula} (hc : ∀ c ∈ e.columnList, c ∈ v) :
    windowCall x e = windowCall y e := by
  unfold windowCall
  split <;> try rfl
  rw [columnCells_agree h (hc _ (by simp [Formula.columnList, Formula.columnLists]))]

theorem windowValues_agree (h : Agree v x y) {e : Formula} {window : Window}
    (hc : ∀ c ∈ e.columnList, c ∈ v)
    (hw : ∀ c ∈ window.partitionBy ++ window.orderBy, c ∈ v) :
    windowValues x e window = windowValues y e window := by
  have partition : ∀ c ∈ window.partitionBy, c ∈ v := fun c mem =>
    hw c (List.mem_append_left _ mem)
  simp only [windowValues, windowCall_agree h hc, sortPositions_agree h hw,
    groups_agree h partition, h.rows]

/-- The values of an assignment depend on its columns and on those of the window. -/
theorem assigned_agree (h : Agree v x y) {e : Formula} {window : Window}
    (hc : ∀ c ∈ e.columns, c ∈ v)
    (hw : ∀ c ∈ window.partitionBy ++ window.orderBy, c ∈ v) :
    assigned x window e = assigned y window e := by
  have hc : ∀ c ∈ e.columnList, c ∈ v := fun c mem => hc c (Formula.mem_columns.2 mem)
  rw [assigned, assigned, windowValues_agree h hc hw, rowwise_agree h e hc]

theorem groupRows_agree (h : Agree v x y) {groupBy : List String} (hc : ∀ c ∈ groupBy, c ∈ v) :
    groupRows x groupBy = groupRows y groupBy := by
  have cut : ∀ order, groups x order groupBy = groups y order groupBy := fun _ =>
    groups_agree h hc
  simp only [groupRows, h.rows, sortPositions_agree h hc, cut]

theorem matchable_agree (h : Agree v x y) {keys : List String} (hc : ∀ c ∈ keys, c ∈ v) :
    matchable x keys = matchable y keys := by
  rw [matchable, matchable, keyColumns_agree h hc, h.rows]

/-- Which rows of a join are paired depends on the keys. -/
theorem pairings_agree (hl : Agree v left left') (hr : Agree w right right')
    {keys : List String} {type : JoinType} (keysLeft : ∀ c ∈ keys, c ∈ v)
    (keysRight : ∀ c ∈ keys, c ∈ w) :
    pairings left right keys type = pairings left' right' keys type := by
  simp only [pairings, matchable_agree hl keysLeft, matchable_agree hr keysRight, hl.rows,
    hr.rows]

theorem joinedColumn_agree {rows : List Pairing} (hl : left.cells? c = left'.cells? c)
    (hr : right.cells? c = right'.cells? c) :
    joinedColumn left right rows c = joinedColumn left' right' rows c := by
  simp only [joinedColumn, hl, hr]

/-! ## What the steps give out -/

open Pipeline

/-- Tables of the same columns, which agree on some of them. -/
structure AgreeAs (columns : List String) (v : NameSet) (x y : Table) : Prop extends
    Agree v x y where
  some : columns ≠ []
  left : x.WellFormed ∧ x.names = columns
  right : y.WellFormed ∧ y.names = columns

/-- The same positions taken of tables that agree. -/
theorem take_agree {columns : List String} (h : AgreeAs columns v x y) (sub : ∀ c ∈ u, c ∈ v)
    {positions : List Nat} (hx : x.take? positions = some r) (hy : y.take? positions = some r') :
    Agree u r r' := by
  refine ⟨?_, fun c hc => ?_⟩
  · rw [Table.take?_numRows (h.left.2 ▸ h.some) hx, Table.take?_numRows (h.right.2 ▸ h.some) hy]
  · rw [Table.take?_cells hx, Table.take?_cells hy, h.cells c (sub c hc)]

/-- Columns passed on under other names. -/
theorem passed_agree (h : Agree v x y) (wx : x.WellFormed) (wy : y.WellFormed)
    {names : List String} (ne : names ≠ []) {source : String → String}
    (hr : r.WellFormed ∧ r.names = names ∧ ∀ c ∈ names, r.cells? c = x.cells? (source c))
    (hr' : r'.WellFormed ∧ r'.names = names ∧ ∀ c ∈ names, r'.cells? c = y.cells? (source c))
    (known : ∀ c ∈ u, c ∈ names) (sub : ∀ c ∈ u, source c ∈ v) : Agree u r r' := by
  obtain ⟨wr, nr, cells⟩ := hr
  obtain ⟨wr', nr', cells'⟩ := hr'
  obtain ⟨c, hc⟩ := List.exists_mem_of_ne_nil names ne
  have rows : r.numRows = x.numRows := by
    obtain ⟨held, found⟩ := Table.exists_cells (nr ▸ hc)
    rw [← wr.length_cells found, wx.length_cells (cells c hc ▸ found)]
  have rows' : r'.numRows = y.numRows := by
    obtain ⟨held, found⟩ := Table.exists_cells (nr' ▸ hc)
    rw [← wr'.length_cells found, wy.length_cells (cells' c hc ▸ found)]
  refine ⟨by rw [rows, rows', h.rows], fun c hc => ?_⟩
  rw [cells c (known c hc), cells' c (known c hc), h.cells _ (sub c hc)]

theorem extendTable_agree {assignments : List (String × Formula)} {window : Window}
    {columns given : List String} (h : AgreeAs given v x y)
    (values : ∀ a ∈ assignments, a.1 ∈ u → assigned x window a.2 = assigned y window a.2)
    (passed : ∀ c ∈ u, c ∉ assignments.map (·.1) → c ∈ v)
    (known : ∀ c ∈ u, c ∈ columns) (nodup : (assignments.map (·.1)).Nodup) (ne : columns ≠ [])
    (hr : extendTable x assignments window columns = .ok r)
    (hr' : extendTable y assignments window columns = .ok r') : Agree u r r' := by
  obtain ⟨-, -, rowsr, assigned, others⟩ :=
    extendTable_eq_ok hr h.left.1 (h.left.2 ▸ h.some) ne nodup
  obtain ⟨-, -, rowsr', assigned', others'⟩ :=
    extendTable_eq_ok hr' h.right.1 (h.right.2 ▸ h.some) ne nodup
  refine ⟨by rw [rowsr, rowsr', h.rows], fun c hc => ?_⟩
  by_cases new : c ∈ assignments.map (·.1)
  · obtain ⟨a, ha, rfl⟩ := List.mem_map.1 new
    obtain ⟨cells, ok, found⟩ := assigned a ha (known _ hc)
    obtain ⟨cells', ok', found'⟩ := assigned' a ha (known _ hc)
    rw [values a ha hc, ok', Except.ok.injEq] at ok
    rw [found, found', ok]
  · rw [others c (known c hc) new, others' c (known c hc) new, h.cells c (passed c hc new)]

/-- An extension of tables that agree on what it demands. -/
theorem extension_agree {source : Pipeline} {assignments : List (String × Formula)}
    {window : Window} (fits : ExtensionFits source assignments window)
    (built : (extension source assignments window).Built)
    (known : ∀ c ∈ u, c ∈ (extension source assignments window).columns)
    (demand : (extension source assignments window).demand u = [v])
    (h : AgreeAs source.columns v x y)
    (hr : extendTable x assignments window (extension source assignments window).columns = .ok r)
    (hr' : extendTable y assignments window (extension source assignments window).columns =
      .ok r') : Agree u r r' := by
  have finish := fun values passed =>
    extendTable_agree h values passed known fits.nodup built.columns_ne_nil hr hr'
  by_cases pass : retained assignments u = []
  · obtain rfl : u = v := by simpa [demand_extension_nil pass] using demand
    refine finish (fun a ha wanted => ?_) fun c hc _ => hc
    exact absurd pass (List.ne_nil_of_mem (mem_retained.2 ⟨ha, wanted⟩))
  · obtain rfl : _ = v := by simpa [demand_extension pass] using demand
    refine finish (fun a ha wanted => ?_) fun c hc unassigned => ?_
    · exact assigned_agree h.toAgree (fun c => operand_demanded (mem_retained.2 ⟨ha, wanted⟩))
        fun c => fits.window_demanded
    · exact passed_demanded hc (known c hc) fun kept => unassigned (mem_names_retained.1 kept).1

theorem removal_agree {source : Pipeline} {dropped : List String}
    (h : AgreeAs source.columns u x y) (ne : (removal source dropped).columns ≠ [])
    (known : ∀ c ∈ u, c ∈ (removal source dropped).columns)
    (hr : dropped.foldl (fun t name => (t.removeColumn name).1) x = r)
    (hr' : dropped.foldl (fun t name => (t.removeColumn name).1) y = r') : Agree u r r' := by
  obtain ⟨wr, names, cells⟩ := h.left.1.removeAll hr
  obtain ⟨wr', names', cells'⟩ := h.right.1.removeAll hr'
  have names : r.names = (removal source dropped).columns := names.trans (h.left.2 ▸ rfl)
  have names' : r'.names = (removal source dropped).columns := names'.trans (h.right.2 ▸ rfl)
  exact passed_agree h.toAgree h.left.1 h.right.1 ne ⟨wr, names, names ▸ cells⟩
    ⟨wr', names', names' ▸ cells'⟩ known fun _ hc => hc

theorem filterTable_agree {columns : List String} {condition : Formula}
    (h : AgreeAs columns (u.union condition.columns) x y)
    (hr : filterTable x condition = .ok r) (hr' : filterTable y condition = .ok r') :
    Agree u r r' := by
  obtain ⟨answers, ok, taken⟩ := filterTable_eq_ok.1 hr
  obtain ⟨answers', ok', taken'⟩ := filterTable_eq_ok.1 hr'
  have reads : ∀ c ∈ condition.columnList, c ∈ u.union condition.columns := fun c hc =>
    NameSet.mem_union.2 (.inr (Formula.mem_columns.2 hc))
  rw [rowwise_agree h.toAgree condition reads, ok', Except.ok.injEq] at ok
  subst ok
  exact take_agree h (fun c hc => NameSet.mem_union.2 (.inl hc)) taken taken'

theorem orderTable_agree {columns : List String} {order : RowOrder}
    (h : AgreeAs columns (u.addAll order.orderBy) x y) (hr : orderTable x order = .ok r)
    (hr' : orderTable y order = .ok r') : Agree u r r' := by
  obtain ⟨positions, ok, taken⟩ := orderTable_eq_ok.1 hr
  obtain ⟨positions', ok', taken'⟩ := orderTable_eq_ok.1 hr'
  rw [sortPositions_agree h.toAgree fun c hc => NameSet.mem_addAll.2 (.inr hc), ok',
    Except.ok.injEq] at ok
  subst ok
  exact take_agree h (fun c hc => NameSet.mem_addAll.2 (.inl hc)) taken taken'

theorem groupTable_agree {assignments : List (String × Formula)} {groupBy : List String}
    (below : Agree (groupingDemand (retained assignments u) groupBy) x y)
    (known : ∀ c ∈ u, c ∈ groupBy ++ assignments.map (·.1))
    (gives : groupBy ++ assignments.map (·.1) ≠ [])
    (h : groupTable x assignments groupBy = .ok r)
    (h' : groupTable y assignments groupBy = .ok r') : Agree u r r' := by
  obtain ⟨-, -, rows, cut, count, groups, aggregates⟩ := groupTable_eq_ok h gives
  obtain ⟨-, -, rows', cut', count', groups', aggregates'⟩ := groupTable_eq_ok h' gives
  have keys : ∀ c ∈ groupBy, c ∈ groupingDemand (retained assignments u) groupBy :=
    fun c hc => mem_groupingDemand.2 (.inl hc)
  rw [groupRows_agree below keys, cut', Except.ok.injEq] at cut
  subst cut
  refine ⟨by rw [count, count'], fun c hc => ?_⟩
  rcases List.mem_append.1 (known c hc) with key | new
  · obtain ⟨col, made, found⟩ := groups c key
    obtain ⟨col', made', found'⟩ := groups' c key
    rw [groupColumn, columnCells_agree below (keys c key), ← groupColumn, made',
      Except.ok.injEq] at made
    rw [found, found', made]
  · obtain ⟨a, ha, rfl⟩ := List.mem_map.1 new
    obtain ⟨function, column, col, call, made, found⟩ := aggregates a ha
    obtain ⟨_, _, col', call', made', found'⟩ := aggregates' a ha
    rw [call, Except.ok.injEq, Prod.mk.injEq] at call'
    obtain ⟨rfl, rfl⟩ := call'
    have operand : column ∈ groupingDemand (retained assignments u) groupBy := by
      refine mem_groupingDemand.2 (.inr (Formula.mem_columnsOfAll.2
        ⟨a, mem_retained.2 ⟨ha, hc⟩, ?_⟩))
      rw [aggregateCall_eq_ok call, Formula.mem_columns]
      simp [Formula.columnList, Formula.columnLists]
    have same : aggregateColumn x rows' (a.1, function, column) =
        aggregateColumn y rows' (a.1, function, column) := by
      simp only [aggregateColumn, columnCells_agree below operand]
    rw [same, made', Except.ok.injEq] at made
    rw [found, found', made]

/-- Sides of a join agree on the wanted columns, also on those that they lack. -/
theorem side_agree {p : Pipeline} {keys : List String}
    (h : AgreeAs p.columns (sideDemand p keys u) x y) (hc : c ∈ u) : x.cells? c = y.cells? c := by
  by_cases column : c ∈ p.columns
  · exact h.cells c (mem_sideDemand.2 ⟨.inl hc, column⟩)
  · rw [Table.cells?_eq_none.2 (h.left.2 ▸ column), Table.cells?_eq_none.2 (h.right.2 ▸ column)]

theorem joinTables_agree {l r : Pipeline} {columns keys : List String} {type : JoinType}
    {out out' : Table} (fits : JoinFits l r keys)
    (hl : AgreeAs l.columns (sideDemand l keys u) left left')
    (hr : AgreeAs r.columns (sideDemand r keys u) right right')
    (known : ∀ c ∈ u, c ∈ columns) (ne : columns ≠ [])
    (h : joinTables left right columns keys type = .ok out)
    (h' : joinTables left' right' columns keys type = .ok out') : Agree u out out' := by
  obtain ⟨-, -, rows, paired, count, made⟩ := joinTables_eq_ok h ne
  obtain ⟨-, -, rows', paired', count', made'⟩ := joinTables_eq_ok h' ne
  rw [pairings_agree hl.toAgree hr.toAgree
    (fun c hc => mem_sideDemand.2 ⟨.inr hc, fits.left_known c hc⟩)
    (fun c hc => mem_sideDemand.2 ⟨.inr hc, fits.right_known c hc⟩), paired',
    Except.ok.injEq] at paired
  subst paired
  refine ⟨by rw [count, count'], fun c hc => ?_⟩
  obtain ⟨col, ok, found⟩ := made c (known c hc)
  obtain ⟨col', ok', found'⟩ := made' c (known c hc)
  rw [joinedColumn_agree (side_agree hl hc) (side_agree hr hc), ok', Except.ok.injEq] at ok
  rw [found, found', ok]

/-! ## Runs -/

/-- The tables bound to the leaves agree on what a request demands of each. -/
def BoundAlike (m m' : NameMap Table) (p : Pipeline) (u : NameSet) : Prop :=
  ∀ t v, Pushdown p u (.table t) v → ∀ b b', m.get? t.key = some b → m'.get? t.key = some b' →
    Agree v b b'

theorem BoundAlike.source {m m' : NameMap Table} {p source : Pipeline}
    (h : BoundAlike m m' p u) (step : (source, v) ∈ p.sources.zip (p.demand u)) :
    BoundAlike m m' source v :=
  fun t w down => h t w (.down step down)

/-- Runs of a pipeline agree on a request if the tables bound to its leaves do on what the
request demands of each. -/
def RunsAgree (m m' : NameMap Table) (p : Pipeline) : Prop :=
  ∀ ⦃u : NameSet⦄ ⦃r r' : Table⦄, (∀ c ∈ u, c ∈ p.columns) → BoundAlike m m' p u →
    run m p = .ok r → run m' p = .ok r' → Agree u r r'

section
variable {m m' : NameMap Table} {p s : Pipeline}

/-- Runs of a source agree on what a step demands of it. -/
theorem RunsAgree.at_source (below : RunsAgree m m' s) (built : p.Built) (source : s.Built)
    (known : ∀ c ∈ u, c ∈ p.columns) (alike : BoundAlike m m' p u)
    (step : (s, v) ∈ p.sources.zip (p.demand u)) (hx : run m s = .ok x) (hy : run m' s = .ok y) :
    AgreeAs s.columns v x y where
  toAgree := below (built.demand_known known step) (alike.source step) hx hy
  some := source.columns_ne_nil
  left := run_schema source hx
  right := run_schema source hy

/-- A step with one source makes tables that agree of runs of its source that do. -/
theorem RunsAgree.step (below : RunsAgree m m' s) (built : p.Built) (source : s.Built)
    {f : Table → Except EvalError Table} (runs : ∀ m, run m p = run m s >>= f)
    (one : p.sources = [s]) {demanded : NameSet → NameSet}
    (demand : ∀ u, p.demand u = [demanded u])
    (agree : ∀ {u : NameSet} {x y r r' : Table}, (∀ c ∈ u, c ∈ p.columns) →
      AgreeAs s.columns (demanded u) x y → f x = .ok r → f y = .ok r' → Agree u r r') :
    RunsAgree m m' p := by
  intro u r r' known alike h h'
  rw [runs] at h h'
  obtain ⟨x, hx, h⟩ := bind_eq_ok.1 h
  obtain ⟨y, hy, h'⟩ := bind_eq_ok.1 h'
  have step := only_source p one (demand u)
  exact agree known (below.at_source built source known alike step hx hy) h h'

/-- A run depends on the demanded columns of the bound tables. -/
theorem run_agree (built : p.Built) (wf : ∀ key t, m.get? key = some t → t.WellFormed)
    (wf' : ∀ key t, m'.get? key = some t → t.WellFormed) : RunsAgree m m' p := by
  induction built with
  | table hp =>
    intro u r r' known alike h h'
    obtain ⟨-, ne, -, rfl⟩ := TableRef.of_eq_ok.1 hp
    obtain ⟨b, hb, made⟩ := bind_table h
    obtain ⟨b', hb', made'⟩ := bind_table h'
    exact passed_agree (alike _ u .here b b' hb hb') (wf _ b hb) (wf' _ b' hb') ne made made'
      known fun _ hc => hc
  | @extend source _ assignments window built hp ih =>
    have builtp := Built.extend built hp
    obtain ⟨fits, rfl⟩ := extend_eq_ok.1 hp
    have demand : ∀ u, (extension source assignments window).demand u =
        [if retained assignments u = [] then u
          else extensionDemand source (retained assignments u) window u] := fun u => by
      split
      · exact demand_extension_nil ‹_›
      · exact demand_extension ‹_›
    exact ih.step builtp built (fun _ => rfl) rfl demand fun known below h h' =>
      extension_agree fits builtp known (demand _) below h h'
  | selectRows built hp ih =>
    have builtp := Built.selectRows built hp
    obtain ⟨-, rfl⟩ := selectRows_eq_ok.1 hp
    exact ih.step builtp built (fun _ => rfl) rfl (fun _ => rfl) fun _ => filterTable_agree
  | selectColumns built hp ih =>
    have builtp := Built.selectColumns built hp
    obtain ⟨ne, -, -, rfl⟩ := selectColumns_eq_ok.1 hp
    refine ih.step builtp built (fun _ => rfl) rfl (fun _ => rfl) fun known below h h' => ?_
    exact passed_agree below.toAgree below.left.1 below.right.1 ne
      (Table.select_eq_ok (lift_eq_ok.1 h)) (Table.select_eq_ok (lift_eq_ok.1 h')) known
      fun _ hc => hc
  | dropColumns built hp ih =>
    have builtp := Built.dropColumns built hp
    obtain ⟨-, -, -, -, rfl⟩ := dropColumns_eq_ok.1 hp
    exact ih.step builtp built (fun _ => rfl) rfl (fun _ => rfl) fun known below h h' =>
      removal_agree below builtp.columns_ne_nil known (Except.ok.inj h) (Except.ok.inj h')
  | project built hp ih =>
    have builtp := Built.project built hp
    obtain ⟨fits, rfl⟩ := project_eq_ok.1 hp
    exact ih.step builtp built (fun _ => rfl) rfl (fun _ => rfl) fun known below h h' =>
      groupTable_agree below.toAgree known fits.gives h h'
  | orderRows built hp ih =>
    have builtp := Built.orderRows built hp
    obtain ⟨-, rfl⟩ := orderRows_eq_ok.1 hp
    exact ih.step builtp built (fun _ => rfl) rfl (fun _ => rfl) fun _ => orderTable_agree
  | renameColumns built hp ih =>
    have builtp := Built.renameColumns built hp
    obtain ⟨-, rfl⟩ := renameColumns_eq_ok.1 hp
    refine ih.step builtp built (fun _ => rfl) rfl (fun _ => rfl) fun known below h h' => ?_
    exact passed_agree below.toAgree below.left.1 below.right.1 builtp.columns_ne_nil
      (relabelTable_eq_ok h) (relabelTable_eq_ok h') known
      fun c hc => NameSet.mem_ofList.2 (List.mem_map_of_mem hc)
  | naturalJoin builtl builtr hp ihl ihr =>
    intro u out out' known alike h h'
    have builtp := Built.naturalJoin builtl builtr hp
    obtain ⟨fits, rfl⟩ := naturalJoin_eq_ok.1 hp
    obtain ⟨l, hl, h⟩ := bind_eq_ok.1 h
    obtain ⟨r, hr, h⟩ := bind_eq_ok.1 h
    obtain ⟨l', hl', h'⟩ := bind_eq_ok.1 h'
    obtain ⟨r', hr', h'⟩ := bind_eq_ok.1 h'
    have belowl := ihl.at_source builtp builtl known alike
      (mem_join_steps.2 (.inl ⟨rfl, rfl⟩)) hl hl'
    have belowr := ihr.at_source builtp builtr known alike
      (mem_join_steps.2 (.inr ⟨rfl, rfl⟩)) hr hr'
    exact joinTables_agree fits belowl belowr known builtp.columns_ne_nil h h'

end

/-- Pushdown is enough: what runs give out in the wanted columns depends on the demanded
columns of the bound tables only. -/
theorem pushdown_sufficient {m m' : NameMap Table} {p : Pipeline} (built : p.Built)
    (known : ∀ c ∈ u, c ∈ p.columns)
    (wf : ∀ key t, m.get? key = some t → t.WellFormed)
    (wf' : ∀ key t, m'.get? key = some t → t.WellFormed)
    (alike : BoundAlike m m' p u)
    (h : run m p = .ok r) (h' : run m' p = .ok r') :
    r.numRows = r'.numRows ∧
      ∀ c ∈ u, ∃ cells, r.cells? c = some cells ∧ r'.cells? c = some cells := by
  have agree := run_agree built wf wf' known alike h h'
  refine ⟨agree.rows, fun c hc => ?_⟩
  obtain ⟨cells, found⟩ := Table.exists_cells ((run_schema built h).2 ▸ known c hc)
  exact ⟨cells, found, agree.cells c hc ▸ found⟩

/-- Rows chosen by `y` have the same `x`, whatever `z` holds. -/
theorem pushdown_sufficient_filter :
    let p := Pipeline.filter (.table ⟨"d", .empty, ["x", "y", "z"]⟩) (.column "y")
    let bound (z : Value) : NameMap Table := .ofList [("d",
      ⟨[⟨"x", [.int 1, .int 2]⟩, ⟨"y", [.bool false, .bool true]⟩, ⟨"z", [.null, z]⟩]⟩)]
    ∃ r r', run (bound (.int 7)) p = .ok r ∧ run (bound (.text "t")) p = .ok r' ∧
      r.cells? "z" ≠ r'.cells? "z" ∧ r.numRows = r'.numRows ∧
        ∀ c ∈ NameSet.ofList ["x"],
          ∃ cells, r.cells? c = some cells ∧ r'.cells? c = some cells := by
  intro p bound
  have table : TableRef.of "d" ["x", "y", "z"] .empty =
      .ok ⟨"d", .empty, ["x", "y", "z"]⟩ := by decide
  have chosen : (Pipeline.table ⟨"d", .empty, ["x", "y", "z"]⟩).selectRows (.column "y") =
      .ok p := rfl
  have bound_iff : ∀ z key b, (bound z).get? key = some b → key = "d" ∧
      b = ⟨[⟨"x", [.int 1, .int 2]⟩, ⟨"y", [.bool false, .bool true]⟩, ⟨"z", [.null, z]⟩]⟩ := by
    intro z key b h
    have entry : (bound z).get? key = if key = "d" then some _ else none :=
      NameMap.get?_insert
    rw [entry] at h
    split at h
    · rename_i same
      exact ⟨same, (Option.some.inj h).symm⟩
    · cases h
  have wf : ∀ z key t, (bound z).get? key = some t → t.WellFormed := by
    intro z key t h
    obtain ⟨-, rfl⟩ := bound_iff z key t h
    exact ⟨by simp [Table.names], by simp [Table.numRows]⟩
  have alike : BoundAlike (bound (.int 7)) (bound (.text "t")) p (.ofList ["x"]) := by
    intro t v down b b' hb hb'
    obtain ⟨-, rfl⟩ := bound_iff _ _ _ hb
    obtain ⟨-, rfl⟩ := bound_iff _ _ _ hb'
    simp only [p] at down
    cases down with
    | down step down =>
      obtain ⟨rfl, rfl⟩ := Prod.mk.inj (List.mem_singleton.1 step)
      cases down with
      | here => exact ⟨rfl, by decide⟩
      | down step => cases step
  exact ⟨_, _, rfl, rfl, by decide, pushdown_sufficient (.selectRows (.table table) chosen)
    (by decide) (wf _) (wf _) alike rfl rfl⟩

end TableFlow.Eval
