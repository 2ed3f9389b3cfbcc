import TableFlow.Pipeline.Demand
import TableFlow.Proofs.Construction
import TableFlow.Proofs.Formula.Columns

/-!
# Requests pushed down a pipeline

A request for columns of a pipeline asks its sources for `Pipeline.demand`, these ask
theirs, and so on: `Pushdown p u q v` says that a request for `u` of `p` asks the pipeline
`q` inside it for `v`. A demand never goes beyond the columns of the source it is made on
(`Built.demand_known`).
-/

namespace TableFlow

namespace Pipeline

variable {source left right p q : Pipeline} {u v w : NameSet} {c : String}

/-- A request for `u` of `p` asks `q` for `v`. -/
inductive Pushdown : Pipeline → NameSet → Pipeline → NameSet → Prop where
  | here {p : Pipeline} {u : NameSet} : Pushdown p u p u
  | down {p source q : Pipeline} {u v w : NameSet} :
      (source, v) ∈ p.sources.zip (p.demand u) → Pushdown source v q w → Pushdown p u q w

theorem only_source (p : Pipeline) (one : p.sources = [source]) (demand : p.demand u = [v]) :
    (source, v) ∈ p.sources.zip (p.demand u) := by
  rw [one, demand]
  exact List.mem_singleton.2 rfl

/-- No pipeline inside is asked for no column at all. -/
def Asked (p : Pipeline) (u : NameSet) : Prop :=
  ∀ q v, Pushdown p u q v → v.names ≠ []

theorem asked_iff :
    Asked p u ↔
      u.names ≠ [] ∧ ∀ source v, (source, v) ∈ p.sources.zip (p.demand u) → Asked source v := by
  constructor
  · exact fun h => ⟨h p u .here, fun _ _ step q w down => h q w (.down step down)⟩
  · rintro ⟨some, below⟩ q v (_ | ⟨step, down⟩)
    · exact some
    · exact below _ _ step q v down

/-! ## Requests -/

theorem resolveWanted_known {wanted : Option NameSet} {u : NameSet}
    (resolved : p.resolveWanted wanted = .ok u) : ∀ c ∈ u, c ∈ p.columns := by
  cases wanted with
  | none =>
    obtain rfl := Except.ok.inj resolved
    exact fun c mem => NameSet.mem_ofList.1 mem
  | some w =>
    obtain ⟨_, known, same⟩ := bind_eq_ok.1 resolved
    obtain rfl := Except.ok.inj same
    exact checkKnown_eq_ok.1 known

theorem demandOf_known {u : NameSet} (known : ∀ c ∈ u, c ∈ p.columns) :
    p.demandOf (some u) = .ok (p.demand u) := by
  have checked : checkKnown (.step p.kind) u.names p = .ok () := checkKnown_eq_ok.2 known
  rw [demandOf, resolveWanted, checked]
  rfl

/-! ## The demand of each step -/

section Extension
variable {assignments : List (String × Formula)} {window : Window}

theorem mem_retained {a : String × Formula} :
    a ∈ retained assignments u ↔ a ∈ assignments ∧ a.1 ∈ u := by
  simp [retained]

theorem mem_names_retained :
    c ∈ (retained assignments u).map (·.1) ↔ c ∈ assignments.map (·.1) ∧ c ∈ u := by
  simp only [List.mem_map, mem_retained]
  constructor
  · rintro ⟨a, ⟨mem, wanted⟩, rfl⟩
    exact ⟨⟨a, mem, rfl⟩, wanted⟩
  · rintro ⟨⟨a, mem, rfl⟩, wanted⟩
    exact ⟨a, ⟨mem, wanted⟩, rfl⟩

theorem demand_extension_nil (h : retained assignments u = []) :
    (extension source assignments window).demand u = [u] := by
  simp [demand, h]

/-- What an extension asks for to give out some of its assignments. -/
def extensionDemand (source : Pipeline) (kept : List (String × Formula)) (window : Window)
    (u : NameSet) : NameSet :=
  (NameSet.ofList ((u.names ++ window.partitionBy ++ window.orderBy).filter fun c =>
    source.hasColumn c && !(kept.map (·.1)).contains c)).union
    (Formula.columnsOfAll (kept.map (·.2)))

theorem demand_extension (h : retained assignments u ≠ []) :
    (extension source assignments window).demand u =
      [extensionDemand source (retained assignments u) window u] := by
  simp only [demand, extensionDemand]

theorem mem_extensionDemand {kept : List (String × Formula)} :
    c ∈ extensionDemand source kept window u ↔
      ((c ∈ u ∨ c ∈ window.partitionBy ∨ c ∈ window.orderBy) ∧ c ∈ source.columns ∧
        c ∉ kept.map (·.1)) ∨ c ∈ Formula.columnsOfAll (kept.map (·.2)) := by
  simp only [extensionDemand, NameSet.mem_union, NameSet.mem_ofList, List.mem_filter,
    List.mem_append, or_assoc, Bool.and_eq_true, hasColumn_iff, Bool.not_eq_true',
    List.contains_eq_mem, decide_eq_false_iff_not, ← NameSet.mem_def]

theorem mem_columns_extension :
    c ∈ (extension source assignments window).columns ↔
      c ∈ source.columns ∨ c ∈ assignments.map (·.1) :=
  mem_withMissing

/-- Columns of the window are asked for. -/
theorem ExtensionFits.window_demanded (fits : ExtensionFits source assignments window)
    (h : c ∈ window.partitionBy ++ window.orderBy) :
    c ∈ extensionDemand source (retained assignments u) window u := by
  rw [List.mem_append] at h
  refine mem_extensionDemand.2 (.inl ⟨.inr h, ?_, fun kept => ?_⟩)
  · exact h.elim (fits.placed.partition_known c) (fits.placed.order_known c)
  · have := fits.apart c (mem_names_retained.1 kept).1
    exact h.elim this.1 this.2

/-- Wanted columns that are not assigned are asked for. -/
theorem passed_demanded (h : c ∈ u) (known : c ∈ (extension source assignments window).columns)
    (unassigned : c ∉ (retained assignments u).map (·.1)) :
    c ∈ extensionDemand source (retained assignments u) window u := by
  refine mem_extensionDemand.2 (.inl ⟨.inl h, ?_, unassigned⟩)
  exact (mem_columns_extension.1 known).resolve_right fun assigned =>
    unassigned (mem_names_retained.2 ⟨assigned, h⟩)

/-- Columns that a kept assignment reads are asked for. -/
theorem operand_demanded {a : String × Formula} {kept : List (String × Formula)}
    (h : a ∈ kept) (hc : c ∈ a.2.columns) : c ∈ extensionDemand source kept window u :=
  mem_extensionDemand.2 (.inr (Formula.mem_columnsOfAll.2 ⟨a, h, hc⟩))

end Extension

/-- What a grouping asks for to give out some of its aggregates. -/
def groupingDemand (kept : List (String × Formula)) (groupBy : List String) : NameSet :=
  (NameSet.ofList groupBy).union (Formula.columnsOfAll (kept.map (·.2)))

theorem mem_groupingDemand {kept : List (String × Formula)} {groupBy : List String} :
    c ∈ groupingDemand kept groupBy ↔
      c ∈ groupBy ∨ c ∈ Formula.columnsOfAll (kept.map (·.2)) := by
  simp [groupingDemand]

theorem demand_grouping {assignments : List (String × Formula)} {groupBy : List String} :
    (grouping source assignments groupBy).demand u =
      [groupingDemand (retained assignments u) groupBy] := rfl

/-- The columns of one side that a join asks for. -/
def sideDemand (side : Pipeline) (keys : List String) (u : NameSet) : NameSet :=
  (u.addAll keys).filter side.hasColumn

theorem mem_sideDemand {keys : List String} :
    c ∈ sideDemand p keys u ↔ (c ∈ u ∨ c ∈ keys) ∧ c ∈ p.columns := by
  simp [sideDemand, hasColumn_iff]

theorem demand_join {keys : List String} {type : JoinType} :
    (join left right keys type).demand u = [sideDemand left keys u, sideDemand right keys u] :=
  rfl

theorem mem_join_steps {keys : List String} {type : JoinType} :
    (source, v) ∈ (join left right keys type).sources.zip ((join left right keys type).demand u) ↔
      source = left ∧ v = sideDemand left keys u ∨
        source = right ∧ v = sideDemand right keys u := by
  simp [demand_join, sources]

/-- A wanted column of a join is asked for on some side. -/
theorem join_side {keys : List String} {type : JoinType}
    (column : c ∈ (join left right keys type).columns) (wanted : c ∈ u) :
    c ∈ sideDemand left keys u ∨ c ∈ sideDemand right keys u :=
  (mem_withMissing.1 column).imp (fun h => mem_sideDemand.2 ⟨.inl wanted, h⟩)
    fun h => mem_sideDemand.2 ⟨.inl wanted, h⟩

/-- Columns behind wanted names are columns of the source. -/
theorem RelabelingFits.oldName_known {pairs : List (String × String)}
    (fits : RelabelingFits source pairs) (h : c ∈ (relabeling source pairs).columns) :
    oldName pairs c ∈ source.columns := by
  obtain ⟨b, hb, rfl⟩ := List.mem_map.1 h
  rwa [fits.oldName_newName hb]

theorem columnsOfAll_retained {assignments : List (String × Formula)}
    (h : c ∈ Formula.columnsOfAll ((retained assignments u).map (·.2))) :
    c ∈ Formula.columnsOfAll (assignments.map (·.2)) := by
  obtain ⟨a, ha, hc⟩ := Formula.mem_columnsOfAll.1 h
  exact Formula.mem_columnsOfAll.2 ⟨a, (mem_retained.1 ha).1, hc⟩

/-- Each source is asked for columns of its own. -/
theorem Built.demand_known (built : p.Built) (known : ∀ c ∈ u, c ∈ p.columns)
    (h : (source, v) ∈ p.sources.zip (p.demand u)) : ∀ c ∈ v, c ∈ source.columns := by
  cases built with
  | table hp =>
    obtain ⟨-, -, -, rfl⟩ := TableRef.of_eq_ok.1 hp
    simp [sources] at h
  | @extend _ _ assignments window _ hp =>
    obtain ⟨fits, rfl⟩ := extend_eq_ok.1 hp
    intro c hc
    by_cases kept : retained assignments u = []
    · rw [demand_extension_nil kept] at h
      obtain ⟨rfl, rfl⟩ : source = _ ∧ v = _ := by simpa [sources] using h
      refine (mem_columns_extension.1 (known c hc)).resolve_right fun assigned => ?_
      obtain ⟨a, ha, rfl⟩ := List.mem_map.1 assigned
      exact List.ne_nil_of_mem (mem_retained.2 ⟨ha, hc⟩) kept
    · rw [demand_extension kept] at h
      obtain ⟨rfl, rfl⟩ : source = _ ∧ v = _ := by simpa [sources] using h
      rcases mem_extensionDemand.1 hc with ⟨-, hs, -⟩ | he
      · exact hs
      · exact fits.known c (columnsOfAll_retained he)
  | selectRows _ hp =>
    obtain ⟨reads, rfl⟩ := selectRows_eq_ok.1 hp
    obtain ⟨rfl, rfl⟩ : source = _ ∧ v = _ := by simpa [sources, demand] using h
    intro c hc
    exact (NameSet.mem_union.1 hc).elim (known c) (reads c)
  | selectColumns _ hp =>
    obtain ⟨-, -, chosen, rfl⟩ := selectColumns_eq_ok.1 hp
    obtain ⟨rfl, rfl⟩ : source = _ ∧ v = _ := by simpa [sources, demand] using h
    exact fun c hc => chosen c (known c hc)
  | dropColumns _ hp =>
    obtain ⟨-, -, -, -, rfl⟩ := dropColumns_eq_ok.1 hp
    obtain ⟨rfl, rfl⟩ : source = _ ∧ v = _ := by simpa [sources, demand] using h
    exact fun c hc => (List.mem_filter.1 (known c hc)).1
  | project _ hp =>
    obtain ⟨fits, rfl⟩ := project_eq_ok.1 hp
    rw [demand_grouping] at h
    obtain ⟨rfl, rfl⟩ : source = _ ∧ v = _ := by simpa [sources] using h
    intro c hc
    exact (mem_groupingDemand.1 hc).elim (fits.groups_known c)
      fun he => fits.known c (columnsOfAll_retained he)
  | orderRows _ hp =>
    obtain ⟨fits, rfl⟩ := orderRows_eq_ok.1 hp
    obtain ⟨rfl, rfl⟩ : source = _ ∧ v = _ := by simpa [sources, demand] using h
    intro c hc
    exact (NameSet.mem_addAll.1 hc).elim (known c) (fits.known c)
  | renameColumns _ hp =>
    obtain ⟨fits, rfl⟩ := renameColumns_eq_ok.1 hp
    obtain ⟨rfl, rfl⟩ : source = _ ∧ v = _ := by simpa [sources, demand] using h
    intro c hc
    obtain ⟨b, hb, rfl⟩ := List.mem_map.1 (NameSet.mem_ofList.1 hc)
    exact fits.oldName_known (known b hb)
  | naturalJoin _ _ hp =>
    obtain ⟨-, rfl⟩ := naturalJoin_eq_ok.1 hp
    rw [demand_join] at h
    obtain ⟨rfl, rfl⟩ | ⟨rfl, rfl⟩ : source = _ ∧ v = _ ∨ source = _ ∧ v = _ := by
      simpa [sources] using h
    all_goals exact fun c hc => (mem_sideDemand.1 hc).2

end Pipeline

end TableFlow
