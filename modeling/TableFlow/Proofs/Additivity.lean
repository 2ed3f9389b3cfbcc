import TableFlow.Proofs.Nodes
import TableFlow.Proofs.Demand

/-!
# Demand column by column

What a step demands of a source is what it reads in any case and what each wanted column needs for
itself (`Fits.demand_eq`). The code of an extension does not say so: it passes the request on while
no assignment is wanted, and else adds the columns of the window and takes those away that are
assigned. It comes to the same because a wanted column that is not assigned is one of the source
and because no column of the window is assigned. So demands stay within the columns of the
sources, and what is demanded for two requests taken together is what is demanded for each
(`demand_additive`).
-/

namespace TableFlow.Pipeline

variable {source left right p : Pipeline} {assignments : List (String × Formula)}
  {window : Window} {u v w : NameSet} {c x : String}

/-- The columns that the assignments to a column read. -/
def readFor (assignments : List (String × Formula)) (c : String) : List String :=
  (assignments.filter (·.1 = c)).flatMap (·.2.columnList)

theorem mem_readFor :
    x ∈ readFor assignments c ↔ ∃ a ∈ assignments, a.1 = c ∧ x ∈ a.2.columns := by
  simp [readFor, Formula.mem_columns, and_assoc]

/-- What the wanted assignments read is what they read for each wanted column. -/
theorem mem_columnsOfAll_retained :
    x ∈ Formula.columnsOfAll ((retained assignments u).map (·.2)) ↔
      ∃ c ∈ u, x ∈ readFor assignments c := by
  simp only [Formula.mem_columnsOfAll, mem_retained, mem_readFor]
  constructor
  · rintro ⟨a, ⟨mem, wanted⟩, read⟩
    exact ⟨a.1, wanted, a, mem, rfl, read⟩
  · rintro ⟨_, wanted, a, mem, rfl, read⟩
    exact ⟨a, ⟨mem, wanted⟩, read⟩

/-- The columns of its sources that the last step reads, whatever is wanted. -/
def reads : Pipeline → List String
  | filter _ condition => condition.columnList
  | grouping _ _ groupBy => groupBy
  | ordering _ order => order.orderBy
  | join _ _ keys _ => keys
  | table _ | extension .. | selection .. | removal .. | relabeling .. => []

/-- The columns of a source that the last step needs to give out a column. -/
def needs (source : Pipeline) (c : String) : Pipeline → List String
  | table _ => []
  | extension _ assignments window =>
    if c ∈ assignments.map (·.1) then
      window.partitionBy ++ window.orderBy ++ readFor assignments c
    else [c]
  | filter .. | selection .. | removal .. | ordering .. => [c]
  | grouping _ assignments _ => readFor assignments c
  | relabeling _ pairs => [oldName pairs c]
  | join .. => if c ∈ source.columns then [c] else []

/-- The demand on a source, put together from what is read in any case and what each wanted
column needs. -/
def demandOn (p : Pipeline) (u : NameSet) (source : Pipeline) : NameSet :=
  .ofList (p.reads ++ u.names.flatMap (needs source · p))

theorem mem_demandOn : x ∈ p.demandOn u source ↔ x ∈ p.reads ∨ ∃ c ∈ u, x ∈ needs source c p := by
  rw [demandOn, NameSet.mem_ofList, List.mem_append, List.mem_flatMap]
  rfl

theorem demandOn_union : p.demandOn (u.union v) source =
    (p.demandOn u source).union (p.demandOn v source) := by
  refine NameSet.ext fun x => ?_
  simp only [mem_demandOn, NameSet.mem_union, or_and_right, exists_or]
  rw [or_or_distrib_left]

theorem demandOn_mono (sub : ∀ c ∈ u, c ∈ v) :
    ∀ x ∈ p.demandOn u source, x ∈ p.demandOn v source := by
  intro x mem
  rw [mem_demandOn] at mem ⊢
  exact mem.imp_right fun ⟨c, wanted, needed⟩ => ⟨c, sub c wanted, needed⟩

/-! ## The steps -/

/-- While no assignment is wanted, each wanted column needs itself. -/
theorem mem_needs_passed (none : retained assignments u = []) :
    x ∈ u ↔ ∃ c ∈ u, x ∈ needs source c (extension source assignments window) := by
  have own : ∀ c ∈ u, needs source c (extension source assignments window) = [c] := by
    intro c wanted
    refine if_neg fun assigned => ?_
    have kept := mem_names_retained.2 ⟨assigned, wanted⟩
    rw [none] at kept
    cases kept
  constructor
  · exact fun wanted => ⟨x, wanted, by rw [own x wanted, List.mem_singleton]⟩
  · rintro ⟨c, wanted, needed⟩
    rw [own c wanted, List.mem_singleton] at needed
    exact needed ▸ wanted

/-- What is asked for when some assignment is wanted goes back to single wanted columns. -/
theorem ExtensionFits.mem_needs
    (fits : ExtensionFits source assignments window)
    (known : ∀ c ∈ u, c ∈ (extension source assignments window).columns)
    (some : retained assignments u ≠ []) :
    x ∈ extensionDemand source (retained assignments u) window u ↔
      ∃ c ∈ u, x ∈ needs source c (extension source assignments window) := by
  constructor
  · intro demanded
    rcases mem_extensionDemand.1 demanded with ⟨wanted | windowed, -, unkept⟩ | read
    · -- it is not assigned, or the assignment would be kept
      have unassigned : x ∉ assignments.map (·.1) := fun assigned =>
        unkept (mem_names_retained.2 ⟨assigned, wanted⟩)
      refine ⟨x, wanted, ?_⟩
      rw [needs, if_neg unassigned, List.mem_singleton]
    · obtain ⟨a, mem⟩ := List.exists_mem_of_ne_nil _ some
      obtain ⟨assigned, wanted⟩ := mem_retained.1 mem
      refine ⟨a.1, wanted, ?_⟩
      rw [needs, if_pos (List.mem_map_of_mem assigned)]
      exact List.mem_append_left _ (List.mem_append.2 windowed)
    · obtain ⟨c, wanted, needed⟩ := mem_columnsOfAll_retained.1 read
      obtain ⟨a, assigned, rfl, -⟩ := mem_readFor.1 needed
      refine ⟨a.1, wanted, ?_⟩
      rw [needs, if_pos (List.mem_map_of_mem assigned)]
      exact List.mem_append_right _ needed
  · rintro ⟨c, wanted, needed⟩
    by_cases assigned : c ∈ assignments.map (·.1)
    · rw [needs, if_pos assigned, List.mem_append] at needed
      rcases needed with windowed | read
      · exact fits.window_demanded windowed
      · exact mem_extensionDemand.2 (.inr (mem_columnsOfAll_retained.2 ⟨c, wanted, read⟩))
    · rw [needs, if_neg assigned, List.mem_singleton] at needed
      subst needed
      exact passed_demanded wanted (known x wanted) fun kept =>
        assigned (mem_names_retained.1 kept).1

/-- Keys are columns of both sides, so the cut to the columns of a side leaves them. -/
theorem sideDemand_eq {keys : List String} {type : JoinType}
    (known : ∀ c ∈ keys, c ∈ source.columns) :
    sideDemand source keys u = (join left right keys type).demandOn u source := by
  have own : ∀ x, (∃ c ∈ u, x ∈ needs source c (join left right keys type)) ↔
      x ∈ u ∧ x ∈ source.columns := by
    intro x
    constructor
    · rintro ⟨c, wanted, needed⟩
      rw [needs] at needed
      split at needed
      · rename_i column
        rw [List.mem_singleton] at needed
        exact needed ▸ ⟨wanted, column⟩
      · cases needed
    · rintro ⟨wanted, column⟩
      exact ⟨x, wanted, by rw [needs, if_pos column, List.mem_singleton]⟩
  refine NameSet.ext fun x => ?_
  rw [mem_demandOn, own, mem_sideDemand, reads, or_and_right, or_comm]
  exact or_congr_left (and_iff_left_of_imp (known x))

theorem demand_eq_step (one : p.sources = [source]) (demand : p.demand u = [w])
    (each : ∀ x, x ∈ w ↔ x ∈ p.reads ∨ ∃ c ∈ u, x ∈ needs source c p) :
    p.demand u = p.sources.map (p.demandOn u) := by
  rw [one, demand, List.map_singleton, List.singleton_inj]
  exact NameSet.ext fun x => (each x).trans mem_demandOn.symm

/-- The demand on each source, column by column. -/
theorem Fits.demand_eq (fits : p.Fits) (known : ∀ c ∈ u, c ∈ p.columns) :
    p.demand u = p.sources.map (p.demandOn u) := by
  cases p with
  | table t => rfl
  | extension source assignments window =>
    by_cases unwanted : retained assignments u = []
    · refine demand_eq_step rfl (demand_extension_nil unwanted) fun x => ?_
      simpa only [reads, List.not_mem_nil, false_or] using mem_needs_passed unwanted
    · refine demand_eq_step rfl (demand_extension unwanted) fun x => ?_
      simpa only [reads, List.not_mem_nil, false_or] using
        ExtensionFits.mem_needs fits known unwanted
  | filter source condition =>
    refine demand_eq_step rfl rfl fun x => ?_
    simp [reads, needs, Formula.mem_columns, or_comm]
  | selection source columns => exact demand_eq_step rfl rfl fun x => by simp [reads, needs]
  | removal source dropped => exact demand_eq_step rfl rfl fun x => by simp [reads, needs]
  | grouping source assignments groupBy =>
    refine demand_eq_step rfl demand_grouping fun x => ?_
    rw [mem_groupingDemand, mem_columnsOfAll_retained]
    rfl
  | ordering source order =>
    refine demand_eq_step rfl rfl fun x => ?_
    simp [reads, needs, or_comm]
  | relabeling source pairs =>
    refine demand_eq_step rfl rfl fun x => ?_
    simp [reads, needs, NameSet.mem_ofList, ← NameSet.mem_def, eq_comm]
  | join left right keys type =>
    rw [demand_join, sources, List.map_cons, List.map_singleton, List.cons.injEq,
      List.singleton_inj]
    exact ⟨sideDemand_eq (JoinFits.left_known fits), sideDemand_eq (JoinFits.right_known fits)⟩

/-! ## Requests -/

/-- A request for some columns of a built pipeline, none included, is answered. It demands of each
source columns of that source only, what two requests taken together demand is what each of them
demands, and a request for more columns demands no less. -/
theorem demand_additive (built : p.Built) (hu : ∀ c ∈ u, c ∈ p.columns)
    (hv : ∀ c ∈ v, c ∈ p.columns) :
    p.demandOf (some u) = .ok (p.demand u) ∧
      List.Forall₂ (fun source w => ∀ c ∈ w, c ∈ source.columns) p.sources (p.demand u) ∧
      p.demandOf (some (u.union v)) =
        .ok (List.zipWith NameSet.union (p.demand u) (p.demand v)) ∧
      ((∀ c ∈ u, c ∈ v) →
        List.Forall₂ (fun w w' => ∀ c ∈ w, c ∈ w') (p.demand u) (p.demand v)) := by
  have eqU : p.demand u = p.sources.map (p.demandOn u) := built.fits.demand_eq hu
  have eqV : p.demand v = p.sources.map (p.demandOn v) := built.fits.demand_eq hv
  have both : ∀ c ∈ u.union v, c ∈ p.columns :=
    fun c mem => (NameSet.mem_union.1 mem).elim (hu c) (hv c)
  refine ⟨demandOf_known hu, ?_, ?_, fun sub => ?_⟩
  · refine List.forall₂_iff_zip.2 ⟨by rw [eqU, List.length_map], fun mem => ?_⟩
    exact built.demand_known hu mem
  · rw [demandOf_known both, built.fits.demand_eq both, eqU, eqV, List.zipWith_map,
      List.zipWith_self]
    exact congrArg _ (List.map_congr_left fun source _ => demandOn_union)
  · rw [eqU, eqV, List.forall₂_map_left_iff, List.forall₂_map_right_iff, List.forall₂_same]
    exact fun source _ => demandOn_mono sub

/-- The first request passes through; the second one makes the step ask for a window column and
for what the overwritten column is computed from, and no more for that column itself. -/
theorem demand_additive_window :
    let source := Pipeline.table ⟨"d", .empty, ["g", "w", "x", "y"]⟩
    let assignments := [("x", Formula.call "sum" [.column "w"]), ("z", .column "x")]
    let u := NameSet.ofList ["y"]
    let v := NameSet.ofList ["x"]
    ∃ p, source.extend assignments ⟨["g"], [], []⟩ = .ok p ∧
      p.demandOf (some u) = .ok [.ofList ["y"]] ∧ p.demandOf (some v) = .ok [.ofList ["g", "w"]] ∧
      p.demandOf (some (u.union v)) = .ok [.ofList ["g", "w", "y"]] := by
  intro source assignments u v
  have table : TableRef.of "d" ["g", "w", "x", "y"] .empty =
      .ok ⟨"d", .empty, ["g", "w", "x", "y"]⟩ := by
    decide
  obtain ⟨p, made⟩ : ∃ p, source.extend assignments ⟨["g"], [], []⟩ = .ok p := ⟨_, rfl⟩
  have built : p.Built := .extend (.table table) made
  obtain rfl := Except.ok.inj made
  have hu : ∀ c ∈ u, c ∈ (extension source assignments ⟨["g"], [], []⟩).columns := by decide
  have hv : ∀ c ∈ v, c ∈ (extension source assignments ⟨["g"], [], []⟩).columns := by decide
  obtain ⟨first, -, both, -⟩ := demand_additive built hu hv
  obtain ⟨second, -⟩ := demand_additive built hv hu
  exact ⟨_, rfl, first.trans (by decide), second.trans (by decide), both.trans (by decide)⟩

end TableFlow.Pipeline
