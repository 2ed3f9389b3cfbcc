import TableFlow.Proofs.Demand
import TableFlow.Proofs.Sql.Items

/-!
# Queries that serve a request

`Serves p u q` says what the query `q` of a pipeline is like that was made for the columns
`u`: each select list is the demand on it, and whatever a query reads the queries below it
give out. Compilation ends with such a query, or with an error that says why there is none
(`Built.compile_ends`).
-/

namespace TableFlow

open Pipeline

namespace Sql

def Query.items : Query → List Item
  | table items _ => items
  | nested items _ _ _ => items
  | join items _ _ _ _ _ _ => items

/-- The columns that a query gives out, in order. -/
def Query.labels (q : Query) : List String := q.items.map Item.label

/-- The query of a pipeline for the wanted columns. -/
inductive Serves : Pipeline → NameSet → Query → Prop where
  | table {t : TableRef} {u : NameSet} {items : List Item} {path : List String} :
      items.map Item.label = t.columns.filter (· ∈ u) →
      (∀ item ∈ items, ∀ c ∈ item.reads, c ∈ t.columns) →
      Serves (.table t) u (.table items path)
  /-- An extension that gives out none of its assignments has no query of its own. -/
  | passed {source : Pipeline} {assignments : List (String × Formula)} {window : Window}
      {u : NameSet} {q : Query} :
      retained assignments u = [] → Serves source u q →
      Serves (.extension source assignments window) u q
  | nested {p source : Pipeline} {u v : NameSet} {items : List Item} {q : Query} {a : Alias}
      {tail : Tail} :
      p.sources = [source] → p.demand u = [v] →
      items.map Item.label = p.columns.filter (· ∈ u) →
      Serves source v q → (∀ c, c ∈ q.labels ↔ c ∈ v) →
      (∀ item ∈ items, ∀ c ∈ item.reads, c ∈ q.labels) → (∀ c ∈ tail.reads, c ∈ q.labels) →
      Serves p u (.nested items q a tail)
  | join {left right : Pipeline} {keys : List String} {type : JoinType} {u v w : NameSet}
      {items : List Item} {l r : Query} {la ra : Alias} :
      (Pipeline.join left right keys type).demand u = [v, w] →
      items.map Item.label = (Pipeline.join left right keys type).columns.filter (· ∈ u) →
      Serves left v l → (∀ c, c ∈ l.labels ↔ c ∈ v) →
      Serves right w r → (∀ c, c ∈ r.labels ↔ c ∈ w) →
      (∀ item ∈ items, ∃ c,
        item = .coalesced la ra c ∧ c ∈ l.labels ∧ c ∈ r.labels ∨
        item = .column c ∧ (c ∈ l.labels ∧ c ∉ r.labels ∨ c ∉ l.labels ∧ c ∈ r.labels)) →
      (∀ c ∈ keys, c ∈ l.labels ∧ c ∈ r.labels) →
      Serves (.join left right keys type) u (.join items l la type r ra keys)

/-- The outermost select list is the request, in the order of the pipeline's columns. -/
theorem Serves.labels {p : Pipeline} {u : NameSet} {q : Query} (h : Serves p u q) :
    q.labels = p.columns.filter (· ∈ u) := by
  induction h with
  | table labels => exact labels
  | @passed source assignments window u q pass _ ih =>
    rw [ih, columns, withMissing, List.filter_append]
    have none : ∀ c ∈ assignments.map (·.1), c ∉ u := by
      intro c hc wanted
      obtain ⟨a, ha, rfl⟩ := List.mem_map.1 hc
      exact List.ne_nil_of_mem (mem_retained.2 ⟨ha, wanted⟩) pass
    have dropped : ((assignments.map (·.1)).filter (!source.columns.contains ·)).filter
        (· ∈ u) = [] :=
      List.filter_eq_nil_iff.2 fun c hc => by simpa using none c (List.mem_filter.1 hc).1
    rw [dropped, List.append_nil]
  | nested _ _ labels => exact labels
  | join _ labels => exact labels

theorem Serves.mem_labels {p : Pipeline} {u : NameSet} {q : Query} (h : Serves p u q)
    (known : ∀ c ∈ u, c ∈ p.columns) {c : String} : c ∈ q.labels ↔ c ∈ u := by
  rw [h.labels, List.mem_filter, decide_eq_true_eq]
  exact ⟨And.right, fun wanted => ⟨known c wanted, wanted⟩⟩

/-! ## Steps of a compilation -/

namespace Compiling

variable {α β : Type} {post : α → Prop} {bad : SqlError → Prop}

/-- How a compilation ends, whatever the alias counter. -/
def Ends (m : Compiling α) (post : α → Prop) (bad : SqlError → Prop) : Prop :=
  ∀ counter, TableFlow.Ends (m.run counter).1 post bad

theorem Ends.pure {a : α} (h : post a) : Ends (Pure.pure a) post bad := fun _ => h

theorem Ends.lift {x : Except SqlError α} (h : TableFlow.Ends x post bad) :
    Ends (liftM x) post bad := fun _ => h

theorem Ends.bind {m : Compiling α} {f : α → Compiling β} {post : β → Prop} {mid : α → Prop}
    (h : Ends m mid bad) (hf : ∀ a, mid a → Ends (f a) post bad) :
    Ends (m >>= f) post bad := by
  intro counter
  have first := h counter
  rcases run : m.run counter with ⟨_ | a, next⟩ <;> rw [run] at first
  · rw [ExceptT.run_bind]
    simp only [Bind.bind, StateT.bind, run]
    exact first
  · rw [ExceptT.run_bind]
    simp only [Bind.bind, StateT.bind, run]
    exact hf a first next

theorem Ends.mono {m : Compiling α} {post' : α → Prop} {bad' : SqlError → Prop}
    (h : Ends m post bad) (hpost : ∀ a, post a → post' a) (hbad : ∀ e, bad e → bad' e) :
    Ends m post' bad' :=
  fun counter => (h counter).mono hpost hbad

theorem Ends.mapM {f : α → Except SqlError β} {l : List α} {fits : α → β → Prop}
    (h : ∀ a ∈ l, TableFlow.Ends (f a) (fits a) bad) :
    Ends (l.mapM fun a => (liftM (f a) : Compiling β)) (List.Forall₂ fits l) bad := by
  induction l with
  | nil => exact .pure .nil
  | cons a l ih =>
    rw [List.mapM_cons]
    refine Ends.bind (.lift (h a (List.mem_cons_self ..))) fun b hb => ?_
    refine (ih fun c hc => h c (List.mem_cons_of_mem _ hc)).bind fun bs hbs => ?_
    exact .pure (.cons hb hbs)

theorem Ends.mapM_map {f : α → Except SqlError β} {g : β → α} {l : List α}
    (h : ∀ a ∈ l, TableFlow.Ends (f a) (fun b => g b = a) bad) :
    Ends (l.mapM fun a => (liftM (f a) : Compiling β)) (fun r => r.map g = l) bad :=
  (Ends.mapM h).mono (fun _ => map_eq_of_forall₂) fun _ => id

end Compiling

/-! ## Compilation -/

variable {d : Dialect} {p source left right : Pipeline} {u v w : NameSet}

/-- Some join inside asks its left side, whose query is made first, for columns all the way
down. -/
def LeftAsked (p : Pipeline) (u : NameSet) : Prop :=
  ∃ left right keys type v,
    Pushdown p u (.join left right keys type) v ∧ Asked left (sideDemand left keys v)

/-- Why there is no query: the dialect refuses a part of it, before any pipeline was asked for
no column, or some pipeline was. -/
def Unserved (d : Dialect) (p : Pipeline) (u : NameSet) (e : SqlError) : Prop :=
  Refused d e ∧ (Asked p u ∨ LeftAsked p u) ∨ (∃ kind, e = .emptySelection kind) ∧ ¬Asked p u

theorem LeftAsked.of_source (h : LeftAsked source v)
    (step : (source, v) ∈ p.sources.zip (p.demand u)) : LeftAsked p u := by
  obtain ⟨left, right, keys, type, w, down, asked⟩ := h
  exact ⟨left, right, keys, type, w, .down step down, asked⟩

/-- A refusal below is one of the whole, if the rest of it asks for columns. -/
theorem Unserved.of_source {e : SqlError} (h : Unserved d source v e)
    (step : (source, v) ∈ p.sources.zip (p.demand u))
    (rest : Asked source v → Asked p u ∨ LeftAsked p u) : Unserved d p u e := by
  rcases h with ⟨refused, asked | left⟩ | ⟨kind, starved⟩
  · exact .inl ⟨refused, rest asked⟩
  · exact .inl ⟨refused, .inr (left.of_source step)⟩
  · exact .inr ⟨kind, fun asked => starved ((asked_iff.1 asked).2 _ _ step)⟩

theorem wantedColumns_ends {wanted : Option NameSet} (hu : wanted.getD p.columnSet = u)
    (known : ∀ c ∈ u, c ∈ p.columns) :
    Ends (wantedColumns p wanted) (fun result => u = result ∧ u.names ≠ []) (Unserved d p u) := by
  have empty : u.isEmpty → Unserved d p u (.emptySelection p.kind) := fun empty =>
    .inr ⟨⟨_, rfl⟩, fun asked => (asked_iff.1 asked).1 (List.isEmpty_iff.1 empty)⟩
  have some : u.isEmpty = false → u.names ≠ [] := by
    simp [NameSet.isEmpty]
  unfold wantedColumns
  cases wanted with
  | none =>
    obtain rfl : p.columnSet = u := hu
    dsimp only
    split
    · rename_i h
      exact empty h
    · rename_i h
      exact ⟨rfl, some (Bool.eq_false_iff.2 h)⟩
  | some u =>
    obtain rfl : u = _ := hu
    have all := filter_not_eq_nil.2 fun c hc => hasColumn_iff.2 (known c hc)
    simp only [all]
    split
    · rename_i h
      exact empty h
    · rename_i h
      exact ⟨rfl, some (Bool.eq_false_iff.2 h)⟩

theorem checkedNames_ends {names : List String} :
    Compiling.Ends (names.mapM fun n => (liftM (d.checkName n) : Compiling String))
      (fun result => names = result) (Refused d) := by
  have same : Compiling.Ends (names.mapM fun n => (liftM (d.checkName n) : Compiling String))
      (fun result => result.map id = names) (Refused d) := .mapM_map fun _ _ => checkName_ends
  simpa [eq_comm] using same

theorem nextAlias_ends {role : AliasRole} :
    Compiling.Ends (nextAlias d role) (fun _ => True) (Refused d) := by
  have number : Compiling.Ends (getModify (· + 1)) (fun _ => True) (Refused d) := fun _ => trivial
  refine number.bind fun _ _ => ?_
  exact (Compiling.Ends.lift checkName_ends).bind fun _ _ => .pure trivial

theorem underAlias_ends {source : Compiling Query} {post : Query → Prop} {bad : SqlError → Prop}
    (h : Compiling.Ends source post bad) (refused : ∀ q, post q → ∀ e, Refused d e → bad e) :
    Compiling.Ends (underAlias d source) (fun r => post r.1) bad := by
  refine h.bind fun q hq => ?_
  exact (nextAlias_ends.mono (fun _ => id) (refused q hq)).bind fun _ _ => .pure hq

/-- Compilation ends with a query that serves the request, and then no pipeline inside was
asked for no column; or it ends with an error that says why there is no query. -/
def Answers (d : Dialect) (p : Pipeline) : Prop :=
  ∀ ⦃u : NameSet⦄ ⦃wanted : Option NameSet⦄, wanted.getD p.columnSet = u →
    (∀ c ∈ u, c ∈ p.columns) →
    Compiling.Ends (compile d p wanted) (fun q => Serves p u q ∧ Asked p u) (Unserved d p u)

/-- Every pipeline starts with the wanted columns. -/
theorem Answers.of_wanted {rest : NameSet → Compiling Query}
    (compiles : ∀ wanted, compile d p wanted = do rest (← wantedColumns p wanted))
    (ends : ∀ u : NameSet, u.names ≠ [] → (∀ c ∈ u, c ∈ p.columns) →
      Compiling.Ends (rest u) (fun q => Serves p u q ∧ Asked p u) (Unserved d p u)) :
    Answers d p := by
  intro u wanted hu known
  rw [compiles]
  refine (Compiling.Ends.lift (wantedColumns_ends hu known)).bind ?_
  rintro _ ⟨rfl, some⟩
  exact ends u some known

/-- A step with one source serves a request if its items and its tail read what it
demands. -/
theorem nested_ends (below : Answers d source) (one : p.sources = [source])
    (demand : p.demand u = [v]) (some : u.names ≠ []) (known : ∀ c ∈ v, c ∈ source.columns)
    {rest : Query × Alias → Compiling Query} {item : String → Except SqlError Item}
    {finish : List Item → Query → Alias → Compiling Query}
    (split : ∀ q a, rest (q, a) = do
      finish (← (p.columns.filter (· ∈ u)).mapM (item ·)) q a)
    (items : ∀ name ∈ p.columns, name ∈ u →
      Ends (item name) (fun i => i.label = name ∧ ∀ c ∈ i.reads, c ∈ v) (Refused d))
    (tail : ∀ items q a, Compiling.Ends (finish items q a)
      (fun r => ∃ tail : Tail, r = .nested items q a tail ∧ ∀ c ∈ tail.reads, c ∈ v)
      (Refused d)) :
    Compiling.Ends (underAlias d (compile d source (p.demand u).head?) >>= rest)
      (fun q => Serves p u q ∧ Asked p u) (Unserved d p u) := by
  have whole : Asked source v → Asked p u := by
    refine fun asked => asked_iff.2 ⟨some, fun s x h => ?_⟩
    rw [one, demand] at h
    obtain ⟨rfl, rfl⟩ := Prod.mk.inj (List.mem_singleton.1 h)
    exact asked
  have first : Compiling.Ends (compile d source (.some v)) _ (Unserved d p u) :=
    (@below v (.some v) rfl known).mono (fun _ => id) fun e h =>
      h.of_source (only_source p one demand) fun asked => .inl (whole asked)
  rw [demand]
  refine (underAlias_ends first fun q h e refused => .inl ⟨refused, .inl (whole h.2)⟩).bind ?_
  rintro ⟨q, a⟩ ⟨serves, asked⟩
  rw [split]
  have refused : ∀ e, Refused d e → Unserved d p u e := fun _ h => .inl ⟨h, .inl (whole asked)⟩
  have labels : ∀ c, c ∈ q.labels ↔ c ∈ v := fun c => serves.mem_labels known
  have each : ∀ name ∈ p.columns.filter (· ∈ u),
      Ends (item name) (fun i => i.label = name ∧ ∀ c ∈ i.reads, c ∈ v) (Refused d) := by
    intro name h
    obtain ⟨column, wanted⟩ := List.mem_filter.1 h
    exact items name column (by simpa using wanted)
  refine ((Compiling.Ends.mapM each).mono (fun _ => id) refused).bind fun is fits => ?_
  refine (tail is q a).mono ?_ refused
  rintro r ⟨t, rfl, reads⟩
  refine ⟨.nested one demand ?_ serves labels ?_ fun c hc => (labels c).2 (reads c hc),
    whole asked⟩
  · exact map_eq_of_forall₂ (fits.imp fun _ _ h => h.1)
  · intro i hi c hc
    obtain ⟨name, -, -, reads⟩ := exists_of_forall₂ fits hi
    exact (labels c).2 (reads c hc)

/-- A step with one source answers if its source does. -/
theorem Answers.step (below : Answers d source) (built : p.Built) (one : p.sources = [source])
    {demanded : NameSet → NameSet} (demand : ∀ u, p.demand u = [demanded u])
    {rest : NameSet → Query × Alias → Compiling Query}
    {item : NameSet → String → Except SqlError Item}
    {finish : NameSet → List Item → Query → Alias → Compiling Query}
    (compiles : ∀ wanted, compile d p wanted = do
      let u ← wantedColumns p wanted
      underAlias d (compile d source (p.demand u).head?) >>= rest u)
    (split : ∀ u q a, rest u (q, a) = do
      finish u (← (p.columns.filter (· ∈ u)).mapM (item u ·)) q a)
    (items : ∀ u, ∀ name ∈ p.columns, name ∈ u →
      Ends (item u name) (fun i => i.label = name ∧ ∀ c ∈ i.reads, c ∈ demanded u) (Refused d))
    (tail : ∀ u items q a, Compiling.Ends (finish u items q a)
      (fun r => ∃ tail : Tail, r = .nested items q a tail ∧ ∀ c ∈ tail.reads, c ∈ demanded u)
      (Refused d)) : Answers d p :=
  .of_wanted compiles fun u some known =>
    nested_ends below one (demand u) some
      (built.demand_known known (only_source p one (demand u))) (split u) (items u) (tail u)

/-- A column that a step passes on reads itself. -/
theorem passedItem_ends {name : String} (h : name ∈ v) :
    Ends (columnItem d name) (fun i => i.label = name ∧ ∀ c ∈ i.reads, c ∈ v) (Refused d) := by
  refine columnItem_ends.mono ?_ fun _ => id
  rintro _ rfl
  exact ⟨rfl, fun c hc => List.mem_singleton.1 hc ▸ h⟩

/-- Nothing is read behind the nested query. -/
theorem bare_ends {items : List Item} {q : Query} {a : Alias} :
    Compiling.Ends (pure (Query.nested items q a .nothing))
      (fun r => ∃ tail : Tail, r = .nested items q a tail ∧ ∀ c ∈ tail.reads, c ∈ v)
      (Refused d) :=
  .pure ⟨.nothing, rfl, fun _ h => absurd h List.not_mem_nil⟩

theorem table_answers {t : TableRef} : Answers d (.table t) := by
  refine .of_wanted (fun _ => by rw [compile]) fun u some _ => ?_
  have asked : Asked (.table t) u := asked_iff.2 ⟨some, fun _ _ h => absurd h List.not_mem_nil⟩
  have refused : ∀ e, Refused d e → Unserved d (.table t) u e := fun _ h => .inl ⟨h, .inl asked⟩
  have each : ∀ name ∈ t.columns.filter (· ∈ u),
      Ends (columnItem d name) (fun i => i.label = name ∧ ∀ c ∈ i.reads, c = name)
        (Unserved d (.table t) u) := by
    intro name _
    refine columnItem_ends.mono ?_ refused
    rintro _ rfl
    exact ⟨rfl, fun c hc => List.mem_singleton.1 hc⟩
  refine (Compiling.Ends.mapM each).bind fun items fits => ?_
  refine (Compiling.Ends.lift (tablePath_ends.mono (fun _ => id) refused)).bind
    fun path _ => .pure ⟨.table ?_ fun i hi c hc => ?_, asked⟩
  · exact map_eq_of_forall₂ (fits.imp fun _ _ h => h.1)
  · obtain ⟨name, column, -, reads⟩ := exists_of_forall₂ fits hi
    exact reads c hc ▸ (List.mem_filter.1 column).1

/-- A pipeline that passes a request on is asked for columns inside if its source is. -/
theorem passed_ends {assignments : List (String × Formula)} {window : Window}
    (below : Answers d source) (pass : retained assignments u = []) (some : u.names ≠ [])
    (known : ∀ c ∈ u, c ∈ source.columns) :
    Compiling.Ends (compile d source (.some u))
      (fun q => Serves (.extension source assignments window) u q ∧
        Asked (.extension source assignments window) u)
      (Unserved d (.extension source assignments window) u) := by
  have step : ∀ s x, (s, x) ∈ (extension source assignments window).sources.zip
      ((extension source assignments window).demand u) ↔ s = source ∧ x = u := by
    simp [demand_extension_nil pass, sources]
  have whole : Asked source u → Asked (extension source assignments window) u := by
    refine fun asked => asked_iff.2 ⟨some, fun s x h => ?_⟩
    obtain ⟨rfl, rfl⟩ := (step s x).1 h
    exact asked
  refine (@below u (.some u) rfl known).mono ?_ fun e h =>
    h.of_source ((step _ _).2 ⟨rfl, rfl⟩) fun asked => .inl (whole asked)
  rintro q ⟨serves, asked⟩
  exact ⟨.passed pass serves, whole asked⟩

section
variable {assignments : List (String × Formula)}

theorem extension_answers {window : Window} (plain : d.forms = builtinForms)
    (below : Answers d source) (built : (extension source assignments window).Built)
    (fits : ExtensionFits source assignments window) :
    Answers d (extension source assignments window) := by
  refine .of_wanted (fun _ => by rw [compile]) fun u some known => ?_
  by_cases pass : retained assignments u = []
  · have asks := built.demand_known known (only_source _ rfl (demand_extension_nil pass))
    simp only [pass, List.isEmpty_nil, if_true]
    exact passed_ends below pass some asks
  · have asks := built.demand_known known (only_source _ rfl (demand_extension pass))
    simp only [List.isEmpty_iff, pass, if_false]
    refine nested_ends below rfl (demand_extension pass) some asks (fun _ _ => rfl) ?_
      fun _ _ _ => bare_ends
    intro name column wanted
    refine (extensionItem_ends plain).mono ?_ fun _ => id
    rintro item ⟨label, reads⟩
    refine ⟨label, fun c hc => ?_⟩
    rcases reads c hc with ⟨rfl, unassigned⟩ | placed | ⟨a, ha, operand⟩
    · exact passed_demanded wanted column unassigned
    · exact fits.window_demanded placed
    · exact operand_demanded ha operand

theorem filter_answers {condition : Formula} (plain : d.forms = builtinForms)
    (below : Answers d source) (built : (filter source condition).Built) :
    Answers d (filter source condition) := by
  refine below.step built rfl (fun _ => rfl) (fun _ => by rw [compile]) (fun _ _ _ => rfl)
    (fun u name _ wanted => passedItem_ends (NameSet.mem_union.2 (.inl wanted)))
    fun u items q a => ?_
  refine (Compiling.Ends.lift (term_ends plain condition false)).bind fun term ht => ?_
  refine .pure ⟨_, rfl, fun c hc => NameSet.mem_union.2 (.inr ?_)⟩
  rw [Tail.reads, Tail.pieces, namesIn_plain, ht] at hc
  exact Formula.mem_columns.2 hc

theorem grouping_answers {groupBy : List String} (plain : d.forms = builtinForms)
    (below : Answers d source) (built : (grouping source assignments groupBy).Built) :
    Answers d (grouping source assignments groupBy) := by
  refine below.step built rfl (fun _ => demand_grouping) (fun _ => by rw [compile])
    (fun _ _ _ => rfl) (fun u name column wanted => ?_) fun u items q a => ?_
  · refine (groupingItem_ends plain).mono ?_ fun _ => id
    rintro item ⟨label, reads⟩
    refine ⟨label, fun c hc => mem_groupingDemand.2 ?_⟩
    rcases reads c hc with ⟨rfl, unassigned⟩ | ⟨a, ha, rfl, operand⟩
    · exact .inl ((List.mem_append.1 column).resolve_right unassigned)
    · exact .inr (Formula.mem_columnsOfAll.2 ⟨a, mem_retained.2 ⟨ha, wanted⟩, operand⟩)
  · refine checkedNames_ends.bind ?_
    rintro _ rfl
    refine .pure ⟨_, rfl, fun c hc => mem_groupingDemand.2 (.inl ?_)⟩
    rw [Tail.reads, Tail.pieces] at hc
    split at hc
    · cases hc
    · rwa [namesIn_plain, namesIn_namePieces] at hc

theorem ordering_answers {order : RowOrder} (below : Answers d source)
    (built : (ordering source order).Built) : Answers d (ordering source order) := by
  refine below.step built rfl (fun _ => rfl) (fun _ => by rw [compile]) (fun _ _ _ => rfl)
    (fun u name _ wanted => passedItem_ends (NameSet.mem_addAll.2 (.inl wanted)))
    fun u items q a => ?_
  refine (Compiling.Ends.mapM_map fun _ _ => orderTerm_ends).bind fun terms columns => ?_
  refine .pure ⟨_, rfl, fun c hc => NameSet.mem_addAll.2 (.inr ?_)⟩
  rwa [Tail.reads_order, columns] at hc

theorem relabeling_answers {pairs : List (String × String)} (below : Answers d source)
    (built : (relabeling source pairs).Built) : Answers d (relabeling source pairs) := by
  refine below.step built rfl (fun _ => rfl) (fun _ => by rw [compile]) (fun _ _ _ => rfl)
    (fun u name _ wanted => ?_) fun _ _ _ _ => bare_ends
  refine relabeledItem_ends.mono ?_ fun _ => id
  rintro item ⟨label, reads⟩
  refine ⟨label, fun c hc => NameSet.mem_ofList.2 ?_⟩
  rw [reads, List.mem_singleton] at hc
  exact hc ▸ List.mem_map_of_mem wanted

end

theorem join_answers {keys : List String} {type : JoinType} (fits : JoinFits left right keys)
    (belowLeft : Answers d left) (belowRight : Answers d right) :
    Answers d (join left right keys type) := by
  refine .of_wanted (fun _ => by rw [compile]) fun u some _ => ?_
  have leftAsked : Asked left (sideDemand left keys u) →
      LeftAsked (join left right keys type) u :=
    fun asked => ⟨left, right, keys, type, u, .here, asked⟩
  have firstLeft := @belowLeft _ (.some (sideDemand left keys u)) rfl fun c hc =>
    (mem_sideDemand.1 hc).2
  have firstRight := @belowRight _ (.some (sideDemand right keys u)) rfl fun c hc =>
    (mem_sideDemand.1 hc).2
  refine (firstLeft.mono (fun _ => id) fun e h =>
    h.of_source (mem_join_steps.2 (.inl ⟨rfl, rfl⟩)) fun asked => .inr (leftAsked asked)).bind ?_
  rintro l ⟨servesLeft, askedLeft⟩
  have refused : ∀ e, Refused d e → Unserved d (join left right keys type) u e :=
    fun _ h => .inl ⟨h, .inr (leftAsked askedLeft)⟩
  refine (firstRight.mono (fun _ => id) fun e h =>
    h.of_source (mem_join_steps.2 (.inr ⟨rfl, rfl⟩)) fun _ => .inr (leftAsked askedLeft)).bind ?_
  rintro r ⟨servesRight, askedRight⟩
  refine (nextAlias_ends.mono (fun _ => id) refused).bind fun la _ => ?_
  refine (nextAlias_ends.mono (fun _ => id) refused).bind fun ra _ => ?_
  have labelsLeft : ∀ c, c ∈ l.labels ↔ c ∈ sideDemand left keys u := fun c =>
    servesLeft.mem_labels fun c hc => (mem_sideDemand.1 hc).2
  have labelsRight : ∀ c, c ∈ r.labels ↔ c ∈ sideDemand right keys u := fun c =>
    servesRight.mem_labels fun c hc => (mem_sideDemand.1 hc).2
  refine ((Compiling.Ends.mapM fun _ _ => joinItem_ends).mono (fun _ => id) refused).bind
    fun items each => ?_
  refine (checkedNames_ends.mono (fun _ => id) refused).bind ?_
  rintro _ rfl
  refine .pure ⟨.join rfl ?_ servesLeft labelsLeft servesRight labelsRight ?_ ?_, ?_⟩
  · refine map_eq_of_forall₂ (each.imp ?_)
    rintro name item rfl
    split <;> rfl
  · intro item hi
    obtain ⟨name, mem, rfl⟩ := exists_of_forall₂ each hi
    refine ⟨name, ?_⟩
    simp only [labelsLeft, labelsRight]
    by_cases both : name ∈ sideDemand left keys u ∧ name ∈ sideDemand right keys u
    · exact .inl ⟨if_pos both, both⟩
    · have side := join_side (List.mem_filter.1 mem).1 (by simpa using (List.mem_filter.1 mem).2)
      refine .inr ⟨if_neg both, ?_⟩
      exact side.imp (fun l => ⟨l, fun r => both ⟨l, r⟩⟩) fun r => ⟨fun l => both ⟨l, r⟩, r⟩
  · exact fun c hc => ⟨(labelsLeft c).2 (mem_sideDemand.2 ⟨.inr hc, fits.left_known c hc⟩),
      (labelsRight c).2 (mem_sideDemand.2 ⟨.inr hc, fits.right_known c hc⟩)⟩
  · refine asked_iff.2 ⟨some, fun s x h => ?_⟩
    obtain ⟨rfl, rfl⟩ | ⟨rfl, rfl⟩ := mem_join_steps.1 h
    · exact askedLeft
    · exact askedRight

/-- Every built pipeline answers. -/
theorem compile_ends (plain : d.forms = builtinForms) (built : p.Built) : Answers d p := by
  induction built with
  | table h =>
    obtain ⟨-, -, -, rfl⟩ := TableRef.of_eq_ok.1 h
    exact table_answers
  | extend built h ih =>
    have builtp := Built.extend built h
    obtain ⟨fits, rfl⟩ := extend_eq_ok.1 h
    exact extension_answers plain ih builtp fits
  | selectRows built h ih =>
    have builtp := Built.selectRows built h
    obtain ⟨-, rfl⟩ := selectRows_eq_ok.1 h
    exact filter_answers plain ih builtp
  | selectColumns built h ih =>
    have builtp := Built.selectColumns built h
    obtain ⟨-, -, -, rfl⟩ := selectColumns_eq_ok.1 h
    exact ih.step builtp rfl (fun _ => rfl) (fun _ => by rw [compile]) (fun _ _ _ => rfl)
      (fun _ _ _ wanted => passedItem_ends wanted) fun _ _ _ _ => bare_ends
  | dropColumns built h ih =>
    have builtp := Built.dropColumns built h
    obtain ⟨-, -, -, -, rfl⟩ := dropColumns_eq_ok.1 h
    exact ih.step builtp rfl (fun _ => rfl) (fun _ => by rw [compile]) (fun _ _ _ => rfl)
      (fun _ _ _ wanted => passedItem_ends wanted) fun _ _ _ _ => bare_ends
  | project built h ih =>
    have builtp := Built.project built h
    obtain ⟨-, rfl⟩ := project_eq_ok.1 h
    exact grouping_answers plain ih builtp
  | orderRows built h ih =>
    have builtp := Built.orderRows built h
    obtain ⟨-, rfl⟩ := orderRows_eq_ok.1 h
    exact ordering_answers ih builtp
  | renameColumns built h ih =>
    have builtp := Built.renameColumns built h
    obtain ⟨-, rfl⟩ := renameColumns_eq_ok.1 h
    exact relabeling_answers ih builtp
  | naturalJoin _ _ h ihl ihr =>
    obtain ⟨fits, rfl⟩ := naturalJoin_eq_ok.1 h
    exact join_answers fits ihl ihr

end Sql

end TableFlow
