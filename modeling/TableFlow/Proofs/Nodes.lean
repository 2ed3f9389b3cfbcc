import TableFlow.Pipeline.Steps
import TableFlow.Proofs.Construction

/-!
# Every node of a pipeline

`p.Everywhere P` says that `P` holds of `p` and of all pipelines inside it. A pipeline is made
by the builders just if the step of every node fits its sources (`built_iff`), so what they
check on the way up holds at each node (`Sound`). Pipelines that are made of a list of steps
are no exception (`ofSteps_built`).
-/

namespace TableFlow

namespace Pipeline

variable {source left right p q r : Pipeline} {P : Pipeline → Prop}

/-! ## Pipelines inside a pipeline -/

/-- `Inside q p`: `q` is `p` or one of the pipelines that it is made of. -/
inductive Inside : Pipeline → Pipeline → Prop where
  | root {p : Pipeline} : Inside p p
  | source {q source p : Pipeline} : source ∈ p.sources → Inside q source → Inside q p

theorem Inside.trans (h : Inside r q) (h' : Inside q p) : Inside r p := by
  induction h' with
  | root => exact h
  | source mem _ ih => exact .source mem ih

/-- A property of a pipeline and of all pipelines inside it. -/
def Everywhere (P : Pipeline → Prop) (p : Pipeline) : Prop :=
  ∀ q, Inside q p → P q

theorem Everywhere.inside (h : p.Everywhere P) (inside : Inside q p) : q.Everywhere P :=
  fun r deeper => h r (deeper.trans inside)

theorem everywhere_iff :
    p.Everywhere P ↔ P p ∧ ∀ source ∈ p.sources, source.Everywhere P := by
  constructor
  · exact fun h => ⟨h p .root, fun source mem q inside => h q (.source mem inside)⟩
  · rintro ⟨root, below⟩ q (_ | ⟨mem, inside⟩)
    · exact root
    · exact below _ mem q inside

theorem everywhere_leaf (none : p.sources = []) : p.Everywhere P ↔ P p := by
  simp [everywhere_iff (p := p), none]

theorem everywhere_step (one : p.sources = [source]) :
    p.Everywhere P ↔ P p ∧ source.Everywhere P := by
  rw [everywhere_iff, one, List.forall_mem_singleton]

theorem everywhere_join {keys : List String} {type : JoinType} :
    (join left right keys type).Everywhere P ↔
      P (join left right keys type) ∧ left.Everywhere P ∧ right.Everywhere P := by
  simp [everywhere_iff (p := join left right keys type), sources]

/-! ## Steps that fit -/

def Fits : Pipeline → Prop
  | table t => t.name ≠ "" ∧ t.columns ≠ [] ∧ t.columns.Nodup
  | extension source assignments window => ExtensionFits source assignments window
  | filter source condition => ∀ c ∈ condition.columns, c ∈ source.columns
  | selection source columns => columns ≠ [] ∧ columns.Nodup ∧ ∀ c ∈ columns, c ∈ source.columns
  | removal source dropped =>
    dropped ≠ [] ∧ dropped.Nodup ∧ (∀ c ∈ dropped, c ∈ source.columns) ∧
      ∃ c ∈ source.columns, c ∉ dropped
  | grouping source assignments groupBy => GroupingFits source assignments groupBy
  | ordering source order => OrderFits source order
  | relabeling source pairs => RelabelingFits source pairs
  | join left right keys _ => JoinFits left right keys

theorem Built.everywhere_fits (built : p.Built) : p.Everywhere Fits := by
  induction built with
  | table h =>
    obtain ⟨name, some, nodup, rfl⟩ := TableRef.of_eq_ok.1 h
    exact (everywhere_leaf rfl).2 ⟨name, some, nodup⟩
  | extend _ h ih =>
    obtain ⟨fits, rfl⟩ := extend_eq_ok.1 h
    exact (everywhere_step rfl).2 ⟨fits, ih⟩
  | selectRows _ h ih =>
    obtain ⟨fits, rfl⟩ := selectRows_eq_ok.1 h
    exact (everywhere_step rfl).2 ⟨fits, ih⟩
  | selectColumns _ h ih =>
    obtain ⟨some, nodup, known, rfl⟩ := selectColumns_eq_ok.1 h
    exact (everywhere_step rfl).2 ⟨⟨some, nodup, known⟩, ih⟩
  | dropColumns _ h ih =>
    obtain ⟨some, nodup, known, stays, rfl⟩ := dropColumns_eq_ok.1 h
    exact (everywhere_step rfl).2 ⟨⟨some, nodup, known, stays⟩, ih⟩
  | project _ h ih =>
    obtain ⟨fits, rfl⟩ := project_eq_ok.1 h
    exact (everywhere_step rfl).2 ⟨fits, ih⟩
  | orderRows _ h ih =>
    obtain ⟨fits, rfl⟩ := orderRows_eq_ok.1 h
    exact (everywhere_step rfl).2 ⟨fits, ih⟩
  | renameColumns _ h ih =>
    obtain ⟨fits, rfl⟩ := renameColumns_eq_ok.1 h
    exact (everywhere_step rfl).2 ⟨fits, ih⟩
  | naturalJoin _ _ h ihl ihr =>
    obtain ⟨fits, rfl⟩ := naturalJoin_eq_ok.1 h
    exact everywhere_join.2 ⟨fits, ihl, ihr⟩

theorem built_of_everywhere_fits (h : p.Everywhere Fits) : p.Built := by
  induction p with
  | table t =>
    obtain ⟨name, some, nodup⟩ := (everywhere_leaf rfl).1 h
    exact .table (TableRef.of_eq_ok.2 ⟨name, some, nodup, rfl⟩)
  | extension source assignments window ih =>
    obtain ⟨fits, below⟩ := (everywhere_step rfl).1 h
    exact .extend (ih below) (extend_eq_ok.2 ⟨fits, rfl⟩)
  | filter source condition ih =>
    obtain ⟨fits, below⟩ := (everywhere_step rfl).1 h
    exact .selectRows (ih below) (selectRows_eq_ok.2 ⟨fits, rfl⟩)
  | selection source columns ih =>
    obtain ⟨⟨some, nodup, known⟩, below⟩ := (everywhere_step rfl).1 h
    exact .selectColumns (ih below) (selectColumns_eq_ok.2 ⟨some, nodup, known, rfl⟩)
  | removal source dropped ih =>
    obtain ⟨⟨some, nodup, known, stays⟩, below⟩ := (everywhere_step rfl).1 h
    exact .dropColumns (ih below) (dropColumns_eq_ok.2 ⟨some, nodup, known, stays, rfl⟩)
  | grouping source assignments groupBy ih =>
    obtain ⟨fits, below⟩ := (everywhere_step rfl).1 h
    exact .project (ih below) (project_eq_ok.2 ⟨fits, rfl⟩)
  | ordering source order ih =>
    obtain ⟨fits, below⟩ := (everywhere_step rfl).1 h
    exact .orderRows (ih below) (orderRows_eq_ok.2 ⟨fits, rfl⟩)
  | relabeling source pairs ih =>
    obtain ⟨fits, below⟩ := (everywhere_step rfl).1 h
    exact .renameColumns (ih below) (renameColumns_eq_ok.2 ⟨fits, rfl⟩)
  | join left right keys type ihl ihr =>
    obtain ⟨fits, below, beside⟩ := everywhere_join.1 h
    exact .naturalJoin (ihl below) (ihr beside) (naturalJoin_eq_ok.2 ⟨fits, rfl⟩)

/-- The builders make the pipelines in which every step fits its sources. -/
theorem built_iff : p.Built ↔ p.Everywhere Fits :=
  ⟨Built.everywhere_fits, built_of_everywhere_fits⟩

theorem Built.fits (built : p.Built) : p.Fits := built.everywhere_fits p .root

theorem Built.inside (built : p.Built) (inside : Inside q p) : q.Built :=
  built_iff.2 (built.everywhere_fits.inside inside)

/-! ## What a step names -/

def attached : Pipeline → List Formula
  | extension _ assignments _ | grouping _ assignments _ => assignments.map (·.2)
  | filter _ condition => [condition]
  | table _ | selection .. | removal .. | ordering .. | relabeling .. | join .. => []

/-- The columns that the last step names: in its formulas, to partition, to order and to group
by, to choose and to drop, to give other names to and to join on. -/
def named : Pipeline → List String
  | table _ => []
  | extension _ assignments window =>
    Formula.columnLists (assignments.map (·.2)) ++ window.partitionBy ++ window.orderBy
  | filter _ condition => condition.columnList
  | selection _ columns => columns
  | removal _ dropped => dropped
  | grouping _ assignments groupBy => groupBy ++ Formula.columnLists (assignments.map (·.2))
  | ordering _ order => order.orderBy
  | relabeling _ pairs => pairs.map (·.2)
  | join _ _ keys _ => keys

def assigned : Pipeline → List String
  | extension _ assignments _ => assignments.map (·.1)
  | _ => []

def partitionedBy : Pipeline → List String
  | extension _ _ window => window.partitionBy
  | _ => []

def orderedBy : Pipeline → List String
  | extension _ _ window => window.orderBy
  | ordering _ order => order.orderBy
  | _ => []

def reversed : Pipeline → List String
  | extension _ _ window => window.reverse
  | ordering _ order => order.reverse
  | _ => []

theorem mem_columnsOfAll_iff {es : List Formula} {c : String} :
    c ∈ Formula.columnsOfAll es ↔ c ∈ Formula.columnLists es :=
  NameSet.mem_ofList

/-- A step that fits names columns that each of its sources has. -/
theorem Fits.named_known (fits : p.Fits) :
    ∀ source ∈ p.sources, ∀ c ∈ p.named, c ∈ source.columns := by
  cases p with
  | table t => simp [sources]
  | extension source assignments window =>
    simp only [sources, named, List.forall_mem_singleton, List.mem_append]
    rintro c ((read | partition) | order)
    · exact fits.known c (mem_columnsOfAll_iff.2 read)
    · exact fits.placed.partition_known c partition
    · exact fits.placed.order_known c order
  | filter source condition =>
    simp only [sources, named, List.forall_mem_singleton]
    exact fun c read => fits c (NameSet.mem_ofList.2 read)
  | selection source columns => simpa [sources, named] using fits.2.2
  | removal source dropped => simpa [sources, named] using fits.2.2.1
  | grouping source assignments groupBy =>
    simp only [sources, named, List.forall_mem_singleton, List.mem_append]
    rintro c (group | read)
    · exact fits.groups_known c group
    · exact fits.known c (mem_columnsOfAll_iff.2 read)
  | ordering source order => simpa [sources, named] using OrderFits.known fits
  | relabeling source pairs => simpa [sources, named] using RelabelingFits.known fits
  | join left right keys type =>
    simpa [sources, named] using And.intro (JoinFits.left_known fits) (JoinFits.right_known fits)

theorem Fits.reversed_ordered (fits : p.Fits) : ∀ c ∈ p.reversed, c ∈ p.orderedBy := by
  cases p with
  | extension source assignments window => exact fits.placed.reverse_ordered
  | ordering source order => exact OrderFits.reverse_ordered fits
  | _ => simp [reversed]

theorem Fits.assigned_apart (fits : p.Fits) :
    ∀ c ∈ p.assigned, c ∉ p.partitionedBy ∧ c ∉ p.orderedBy := by
  cases p with
  | extension source assignments window => exact fits.apart
  | _ => simp [assigned]

/-- What the builders make sure of at a node: it has columns and they differ, its step names
columns that each source has, only columns to order by fall, and no column of a window is
assigned. -/
structure Sound (p : Pipeline) : Prop where
  some : p.columns ≠ []
  nodup : p.columns.Nodup
  known : ∀ source ∈ p.sources, ∀ c ∈ p.named, c ∈ source.columns
  reversed_ordered : ∀ c ∈ p.reversed, c ∈ p.orderedBy
  assigned_apart : ∀ c ∈ p.assigned, c ∉ p.partitionedBy ∧ c ∉ p.orderedBy

theorem Built.sound (built : p.Built) : p.Sound where
  some := built.columns_ne_nil
  nodup := built.columns_nodup
  known := built.fits.named_known
  reversed_ordered := built.fits.reversed_ordered
  assigned_apart := built.fits.assigned_apart

/-! ## Lists of steps -/

theorem ofFirst_built {first : Step} (h : ofFirst first = .ok p) : p.Built := by
  cases first with
  | table name qualifiers columns key =>
    obtain ⟨t, made, h⟩ := bind_eq_ok.1 h
    obtain ⟨-, h⟩ := guard_eq_ok.1 h
    cases h
    exact .table made
  | _ => cases h

mutual

theorem addStep_built : ∀ {step : Step} {source p : Pipeline}, source.Built →
    source.addStep step = .ok p → p.Built
  | .table .., _, _, _, h => by cases h
  | .extend .., _, _, built, h => by
    obtain ⟨_, -, h⟩ := bind_eq_ok.1 h
    exact .extend built h
  | .selectRows _, _, _, built, h => by
    obtain ⟨_, -, h⟩ := bind_eq_ok.1 h
    exact .selectRows built h
  | .selectColumns _, _, _, built, h => .selectColumns built h
  | .dropColumns _, _, _, built, h => .dropColumns built h
  | .project .., _, _, built, h => by
    obtain ⟨_, -, h⟩ := bind_eq_ok.1 h
    exact .project built h
  | .orderRows _, _, _, built, h => .orderRows built h
  | .renameColumns _, _, _, built, h => .renameColumns built h
  | .naturalJoin .., _, _, built, h => by
    obtain ⟨right, made, h⟩ := bind_eq_ok.1 h
    exact .naturalJoin built (ofSteps_built made) h

theorem addSteps_built : ∀ {steps : List Step} {source p : Pipeline}, source.Built →
    source.addSteps steps = .ok p → p.Built
  | [], _, _, built, h => by
    cases h
    exact built
  | _ :: _, _, _, built, h => by
    obtain ⟨next, added, h⟩ := bind_eq_ok.1 h
    exact addSteps_built (addStep_built built added) h

/-- What a list of steps makes, the builders make. -/
theorem ofSteps_built : ∀ {steps : List Step} {p : Pipeline}, ofSteps steps = .ok p → p.Built
  | [], _, h => by cases h
  | _ :: _, _, h => by
    obtain ⟨next, first, h⟩ := bind_eq_ok.1 h
    exact addSteps_built (ofFirst_built first) h

end

/-- A list of steps makes nothing that the builders do not make, and every node of what they
make is sound. -/
theorem sound_everywhere :
    (∀ (steps : List Step) (p : Pipeline), ofSteps steps = .ok p → p.Built) ∧
      ∀ p : Pipeline, p.Built → p.Everywhere Sound :=
  ⟨fun _ _ made => ofSteps_built made, fun _ built _ inside => (built.inside inside).sound⟩

/-- Two columns from different sides of a join change names. -/
theorem sound_everywhere_swap :
    let steps : List Step :=
      [.table "d" .empty ["k", "x"] "d", .orderRows ⟨["k", "x"], ["x"], some 3⟩,
        .naturalJoin ["k"] .left [.table "e" .empty ["k", "x", "y"] "", .dropColumns ["x"]],
        .renameColumns [("x", "y"), ("y", "x")]]
    ∃ p : Pipeline, ofSteps steps = .ok p ∧ p.columns = ["k", "y", "x"] ∧ p.Everywhere Sound := by
  intro steps
  obtain ⟨p, made, columns⟩ : ∃ p, ofSteps steps = .ok p ∧ p.columns = ["k", "y", "x"] :=
    ⟨_, rfl, rfl⟩
  exact ⟨p, made, columns, sound_everywhere.2 p (sound_everywhere.1 steps p made)⟩

end Pipeline

end TableFlow
