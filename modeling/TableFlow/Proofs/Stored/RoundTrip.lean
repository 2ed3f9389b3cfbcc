import TableFlow.Stored.Text
import TableFlow.Proofs.Formula.RoundTrip
import TableFlow.Proofs.Nodes
import TableFlow.Proofs.Stored.Records

/-!
# Pipelines read back from their steps

The steps of a pipeline are taken off from the last to the first and put back from the first to
the last; each is accepted again, since it was accepted by a builder before. What may be lost
is a formula, of which only the text is kept: a pipeline comes back just if the text of every
formula in it is parsed to that formula (`steps_read_back`).
-/

namespace TableFlow

namespace Pipeline

variable {source p : Pipeline}

/-! ## One step after others -/

theorem addSteps_append {steps more : List Step} :
    source.addSteps (steps ++ more) = source.addSteps steps >>= (·.addSteps more) := by
  induction steps generalizing source with
  | nil => rfl
  | cons step steps ih =>
    rw [List.cons_append, addSteps, addSteps]
    cases source.addStep step with
    | error e => rfl
    | ok next => exact ih

theorem steps_ne_nil : p.steps ≠ [] := by
  cases p <;> simp [steps]

theorem ofSteps_append {steps more : List Step} (some : steps ≠ []) :
    ofSteps (steps ++ more) = ofSteps steps >>= (·.addSteps more) := by
  cases steps with
  | nil => contradiction
  | cons first steps =>
    rw [List.cons_append, ofSteps, ofSteps]
    cases ofFirst first with
    | error e => rfl
    | ok next => exact addSteps_append

/-- A step becomes the last one of the pipeline that it is added to. -/
theorem addStep_source {step : Step} (h : source.addStep step = .ok p) :
    p.sources.head? = some source := by
  cases step with
  | table => cases h
  | extend =>
    obtain ⟨_, -, h⟩ := bind_eq_ok.1 h
    obtain ⟨-, rfl⟩ := extend_eq_ok.1 h
    rfl
  | selectRows =>
    obtain ⟨_, -, h⟩ := bind_eq_ok.1 h
    obtain ⟨-, rfl⟩ := selectRows_eq_ok.1 h
    rfl
  | selectColumns =>
    obtain ⟨-, -, -, rfl⟩ := selectColumns_eq_ok.1 h
    rfl
  | dropColumns =>
    obtain ⟨-, -, -, -, rfl⟩ := dropColumns_eq_ok.1 h
    rfl
  | project =>
    obtain ⟨_, -, h⟩ := bind_eq_ok.1 h
    obtain ⟨-, rfl⟩ := project_eq_ok.1 h
    rfl
  | orderRows =>
    obtain ⟨-, rfl⟩ := orderRows_eq_ok.1 h
    rfl
  | renameColumns =>
    obtain ⟨-, rfl⟩ := renameColumns_eq_ok.1 h
    rfl
  | naturalJoin =>
    obtain ⟨_, -, h⟩ := bind_eq_ok.1 h
    obtain ⟨-, rfl⟩ := naturalJoin_eq_ok.1 h
    rfl

/-- A pipeline comes back if its source does and takes the last step. -/
theorem ofSteps_concat {step : Step} (first : p.sources.head? = some source) :
    ofSteps (source.steps ++ [step]) = .ok p ↔
      ofSteps source.steps = .ok source ∧ source.addStep step = .ok p := by
  rw [ofSteps_append steps_ne_nil, bind_eq_ok]
  constructor
  · rintro ⟨q, made, added⟩
    obtain ⟨r, added, done⟩ := bind_eq_ok.1 added
    cases done
    cases first.symm.trans (addStep_source added)
    exact ⟨made, added⟩
  · rintro ⟨made, added⟩
    exact ⟨source, made, bind_eq_ok.2 ⟨p, added, rfl⟩⟩

/-! ## Formulas read back -/

/-- The text of each formula of the last step is parsed to that formula, over the columns of
the source. -/
def Reparses (p : Pipeline) : Prop :=
  ∀ source ∈ p.sources, ∀ e ∈ p.attached, source.formula e.source = .ok e

theorem reparses_of_attached_nil (none : p.attached = []) : p.Reparses := by
  simp [Reparses, none]

theorem reparses_iff (one : p.sources = [source]) :
    p.Reparses ↔ ∀ e ∈ p.attached, source.formula e.source = .ok e := by
  rw [Reparses, one, List.forall_mem_singleton]

theorem formulas_sourcesOf {assignments : List (String × Formula)} :
    source.formulas (sourcesOf assignments) = .ok assignments ↔
      ∀ e ∈ assignments.map (·.2), source.formula e.source = .ok e := by
  rw [formulas, sourcesOf, mapM_eq_ok, List.forall₂_map_left_iff, List.forall₂_same,
    List.forall_mem_map]
  refine forall₂_congr fun ⟨name, e⟩ _ => ?_
  rw [bind_eq_ok]
  constructor
  · rintro ⟨parsed, ok, same⟩
    cases same
    exact ok
  · exact fun ok => ⟨e, ok, rfl⟩

variable {assignments : List (String × Formula)}

theorem addStep_extend {window : Window} (fits : ExtensionFits source assignments window) :
    source.addStep (.extend (sourcesOf assignments) window) =
        .ok (extension source assignments window) ↔
      (extension source assignments window).Reparses := by
  rw [reparses_iff rfl, attached, ← formulas_sourcesOf, addStep, bind_eq_ok]
  constructor
  · rintro ⟨es, parsed, made⟩
    obtain ⟨-, same⟩ := extend_eq_ok.1 made
    cases same
    exact parsed
  · exact fun parsed => ⟨assignments, parsed, extend_eq_ok.2 ⟨fits, rfl⟩⟩

theorem addStep_project {groupBy : List String} (fits : GroupingFits source assignments groupBy) :
    source.addStep (.project (sourcesOf assignments) groupBy) =
        .ok (grouping source assignments groupBy) ↔
      (grouping source assignments groupBy).Reparses := by
  rw [reparses_iff rfl, attached, ← formulas_sourcesOf, addStep, bind_eq_ok]
  constructor
  · rintro ⟨es, parsed, made⟩
    obtain ⟨-, same⟩ := project_eq_ok.1 made
    cases same
    exact parsed
  · exact fun parsed => ⟨assignments, parsed, project_eq_ok.2 ⟨fits, rfl⟩⟩

theorem addStep_selectRows {condition : Formula} (fits : (filter source condition).Fits) :
    source.addStep (.selectRows condition.source) = .ok (filter source condition) ↔
      (filter source condition).Reparses := by
  rw [reparses_iff rfl, attached, List.forall_mem_singleton, addStep, bind_eq_ok]
  constructor
  · rintro ⟨e, parsed, made⟩
    obtain ⟨-, same⟩ := selectRows_eq_ok.1 made
    cases same
    exact parsed
  · exact fun parsed => ⟨condition, parsed, selectRows_eq_ok.2 ⟨fits, rfl⟩⟩

/-- A pipeline over one source comes back if its source and its last step do. -/
theorem ofSteps_over {step : Step} (one : p.sources = [source])
    (last : p.steps = source.steps ++ [step])
    (below : ofSteps source.steps = .ok source ↔ source.Everywhere Reparses)
    (added : source.addStep step = .ok p ↔ p.Reparses) :
    ofSteps p.steps = .ok p ↔ p.Everywhere Reparses := by
  have first : p.sources.head? = some source := by rw [one, List.head?_cons]
  rw [last, ofSteps_concat first, below, added, everywhere_step one, and_comm]

/-- A pipeline whose steps fit comes back if its formulas do, and only then. -/
theorem ofSteps_steps (fits : p.Everywhere Fits) :
    ofSteps p.steps = .ok p ↔ p.Everywhere Reparses := by
  induction p with
  | table t =>
    obtain ⟨name, some, nodup⟩ := (everywhere_leaf rfl).1 fits
    have made : ofFirst (.table t.name t.qualifiers t.columns t.key) = .ok (table t) :=
      bind_eq_ok.2 ⟨t, TableRef.of_eq_ok.2 ⟨name, some, nodup, rfl⟩, by simp⟩
    exact iff_of_true (bind_eq_ok.2 ⟨_, made, rfl⟩)
      ((everywhere_leaf rfl).2 (reparses_of_attached_nil rfl))
  | extension source assignments window ih =>
    obtain ⟨here, below⟩ := (everywhere_step rfl).1 fits
    exact ofSteps_over rfl rfl (ih below) (addStep_extend here)
  | filter source condition ih =>
    obtain ⟨here, below⟩ := (everywhere_step rfl).1 fits
    exact ofSteps_over rfl rfl (ih below) (addStep_selectRows here)
  | grouping source assignments groupBy ih =>
    obtain ⟨here, below⟩ := (everywhere_step rfl).1 fits
    exact ofSteps_over rfl rfl (ih below) (addStep_project here)
  | selection source columns ih =>
    obtain ⟨⟨some, nodup, known⟩, below⟩ := (everywhere_step rfl).1 fits
    have added := selectColumns_eq_ok.2 ⟨some, nodup, known, rfl⟩
    exact ofSteps_over rfl rfl (ih below) (iff_of_true added (reparses_of_attached_nil rfl))
  | removal source dropped ih =>
    obtain ⟨⟨some, nodup, known, stays⟩, below⟩ := (everywhere_step rfl).1 fits
    have added := dropColumns_eq_ok.2 ⟨some, nodup, known, stays, rfl⟩
    exact ofSteps_over rfl rfl (ih below) (iff_of_true added (reparses_of_attached_nil rfl))
  | ordering source order ih =>
    obtain ⟨here, below⟩ := (everywhere_step rfl).1 fits
    have added := orderRows_eq_ok.2 ⟨here, rfl⟩
    exact ofSteps_over rfl rfl (ih below) (iff_of_true added (reparses_of_attached_nil rfl))
  | relabeling source pairs ih =>
    obtain ⟨here, below⟩ := (everywhere_step rfl).1 fits
    have added := renameColumns_eq_ok.2 ⟨here, rfl⟩
    exact ofSteps_over rfl rfl (ih below) (iff_of_true added (reparses_of_attached_nil rfl))
  | join left right keys type ihl ihr =>
    obtain ⟨here, below, beside⟩ := everywhere_join.1 fits
    have added : left.addStep (.naturalJoin keys type right.steps) =
        .ok (join left right keys type) ↔ ofSteps right.steps = .ok right := by
      rw [addStep, bind_eq_ok]
      constructor
      · rintro ⟨q, made, joined⟩
        obtain ⟨-, same⟩ := naturalJoin_eq_ok.1 joined
        cases same
        exact made
      · exact fun made => ⟨right, made, naturalJoin_eq_ok.2 ⟨here, rfl⟩⟩
    have plain : (join left right keys type).Reparses := reparses_of_attached_nil rfl
    rw [steps, ofSteps_concat rfl, added, ihl below, ihr beside, everywhere_join,
      and_iff_right plain]

/-! ## Records read back -/

/-- A limit of the last step is a count of 64 bits. -/
def LimitFits : Pipeline → Prop
  | ordering _ order => ∀ n ∈ order.limit, n < UInt64.size
  | _ => True

theorem map_sourcesOf : (sourcesOf assignments).map (·.1) = assignments.map (·.1) := by
  simp [sourcesOf, Function.comp_def]

theorem storable_concat {steps : List Step} {step : Step} (h : ∀ s ∈ steps, s.Storable)
    (last : step.Storable) : ∀ s ∈ steps ++ [step], s.Storable := by
  intro s mem
  rcases List.mem_append.1 mem with mem | mem
  · exact h s mem
  · exact List.mem_singleton.1 mem ▸ last

/-- The steps of a pipeline whose steps fit can be stored. -/
theorem storable_steps (fits : p.Everywhere Fits) (limits : p.Everywhere LimitFits) :
    ∀ s ∈ p.steps, s.Storable := by
  induction p with
  | table t =>
    intro s mem
    exact List.mem_singleton.1 mem ▸ .table
  | extension source assignments window ih =>
    obtain ⟨here, below⟩ := (everywhere_step rfl).1 fits
    refine storable_concat (ih below ((everywhere_step rfl).1 limits).2) (.extend ?_)
    exact map_sourcesOf ▸ here.nodup
  | filter source condition ih =>
    obtain ⟨-, below⟩ := (everywhere_step rfl).1 fits
    exact storable_concat (ih below ((everywhere_step rfl).1 limits).2) .selectRows
  | selection source columns ih =>
    obtain ⟨-, below⟩ := (everywhere_step rfl).1 fits
    exact storable_concat (ih below ((everywhere_step rfl).1 limits).2) .selectColumns
  | removal source dropped ih =>
    obtain ⟨-, below⟩ := (everywhere_step rfl).1 fits
    exact storable_concat (ih below ((everywhere_step rfl).1 limits).2) .dropColumns
  | grouping source assignments groupBy ih =>
    obtain ⟨here, below⟩ := (everywhere_step rfl).1 fits
    refine storable_concat (ih below ((everywhere_step rfl).1 limits).2) (.project ?_)
    exact map_sourcesOf ▸ (List.nodup_append.1 here.nodup).2.1
  | ordering source order ih =>
    obtain ⟨-, below⟩ := (everywhere_step rfl).1 fits
    obtain ⟨limit, limits⟩ := (everywhere_step rfl).1 limits
    exact storable_concat (ih below limits) (.orderRows limit)
  | relabeling source pairs ih =>
    obtain ⟨here, below⟩ := (everywhere_step rfl).1 fits
    refine storable_concat (ih below ((everywhere_step rfl).1 limits).2) (.renameColumns ?_)
    exact here.new_nodup
  | join left right keys type ihl ihr =>
    obtain ⟨-, below, beside⟩ := everywhere_join.1 fits
    obtain ⟨-, limits, limits'⟩ := everywhere_join.1 limits
    exact storable_concat (ihl below limits) (.naturalJoin (ihr beside limits'))

/-- The document of a pipeline is read back as its steps. -/
theorem ofDocument?_document (h : ∀ s ∈ p.steps, s.Storable) :
    Step.ofDocument? p.document = some p.steps := by
  rw [document, Step.ofDocument?, Step.records_eq_map, mapM_eq_some, List.forall₂_map_left_iff,
    List.forall₂_same]
  exact fun s mem => Step.ofRecord?_record (h s mem) false

/-- The steps of a built pipeline make it again just if each formula in it is what its text
says; and they are read back from the document that stores them. -/
theorem steps_read_back (built : p.Built) :
    (ofSteps p.steps = .ok p ↔ p.Everywhere Reparses) ∧
      (p.Everywhere LimitFits → Step.ofDocument? p.document = some p.steps) :=
  ⟨ofSteps_steps built.everywhere_fits,
    fun limits => ofDocument?_document (storable_steps built.everywhere_fits limits)⟩

/-- A join inside the right side of a join comes back, with its order and its formulas. -/
theorem steps_read_back_nested :
    let d := table ⟨"d", .ofList [("schema", "s")], ["k", "x"]⟩
    let e := table ⟨"e", .empty, ["k", "y"]⟩
    let total := extension d [("t", .call "sum" [.column "x"])] ⟨["k"], ["x"], ["x"]⟩
    let positive := filter e (.binary ">" (.column "y") (.constant (.int 0)))
    let latest := ordering positive ⟨["y"], ["y"], some 3⟩
    let side := relabeling (join total latest ["k"] .left) [("y", "t"), ("t", "y")]
    let p := join d side ["k"] .full
    p.Built ∧ ofSteps p.steps = .ok p ∧ Step.ofDocument? p.document = some p.steps := by
  intro d e total positive latest side p
  have built : p.Built := by
    have d_built : d.Built := .table (TableRef.of_eq_ok.2 ⟨by decide, by decide, by decide, rfl⟩)
    have e_built : e.Built := .table (TableRef.of_eq_ok.2 ⟨by decide, by decide, by decide, rfl⟩)
    have extended : d.extend [("t", .call "sum" [.column "x"])] ⟨["k"], ["x"], ["x"]⟩ =
      .ok total := rfl
    have filtered : e.selectRows (.binary ">" (.column "y") (.constant (.int 0))) =
      .ok positive := rfl
    have ordered : positive.orderRows ⟨["y"], ["y"], some 3⟩ = .ok latest := rfl
    have joined : total.naturalJoin latest ["k"] .left = .ok (join total latest ["k"] .left) := rfl
    have renamed : (join total latest ["k"] .left).renameColumns [("y", "t"), ("t", "y")] =
      .ok side := rfl
    have joined_all : d.naturalJoin side ["k"] .full = .ok p := rfl
    have right := Built.naturalJoin (.extend d_built extended)
      (.orderRows (.selectRows e_built filtered) ordered) joined
    exact .naturalJoin d_built (.renameColumns right renamed) joined_all
  have nodes : ∀ P : Pipeline → Prop, P p → P d → P side → P (join total latest ["k"] .left) →
      P total → P latest → P positive → P e → p.Everywhere P :=
    fun P root left renamed joined extended ordered filtered right =>
      everywhere_join.2 ⟨root, (everywhere_leaf rfl).2 left, (everywhere_step rfl).2 ⟨renamed,
        everywhere_join.2 ⟨joined,
          (everywhere_step rfl).2 ⟨extended, (everywhere_leaf rfl).2 left⟩,
          (everywhere_step rfl).2 ⟨ordered,
            (everywhere_step rfl).2 ⟨filtered, (everywhere_leaf rfl).2 right⟩⟩⟩⟩⟩
  have sum_parsed : Formula.parse (Formula.call "sum" [.column "x"]).source ⟨["k", "x"], .empty⟩ =
      .ok (.call "sum" [.column "x"]) := by decide +kernel
  have positive_parsed :
      Formula.parse (Formula.binary ">" (.column "y") (.constant (.int 0))).source
        ⟨["k", "y"], .empty⟩ = .ok (.binary ">" (.column "y") (.constant (.int 0))) := by
    decide +kernel
  have plain : ∀ {q : Pipeline}, q.attached = [] → q.Reparses := reparses_of_attached_nil
  have reparses : p.Everywhere Reparses :=
    nodes Reparses (plain rfl) (plain rfl) (plain rfl) (plain rfl)
      ((reparses_iff rfl).2 fun e mem => List.mem_singleton.1 mem ▸ sum_parsed) (plain rfl)
      ((reparses_iff rfl).2 fun e mem => List.mem_singleton.1 mem ▸ positive_parsed) (plain rfl)
  have limits : p.Everywhere LimitFits :=
    nodes LimitFits trivial trivial trivial trivial trivial
      (by simp [latest, LimitFits, UInt64.size]) trivial trivial
  have back := steps_read_back built
  exact ⟨built, back.1.2 reparses, back.2 limits⟩

end Pipeline

end TableFlow
