import TableFlow.Database.Tables
import TableFlow.Proofs.Database.Sessions

/-!
# Loading the tables of a pipeline

The tables of a pipeline are checked and created one after the other; a load that ends well
has created each of them (`loadTables_log`). An error that can be found without the database
may come after other tables have been replaced: it leaves the database alone just if it comes
before the first statement (`loads_wholly_iff`).
-/

namespace TableFlow.Database

open Session

variable (d : Sql.Dialect) (bindings : NameMap Table)

/-- The table bound to a key, cut to the columns that are read. -/
def Selected (key : String) (t : TableRef) (table : Table) : Prop :=
  ∃ bound, bindings.get? key = some bound ∧ bound.select t.columns = .ok table

/-- A table has a name in the dialect and a type for each column. -/
def Writable (t : TableRef) (table : Table) : Prop :=
  (∃ name, d.tableName t = .ok name) ∧
    ∃ definitions, table.columns.mapM definition = .ok definitions

def SchemaNamed (t : TableRef) : Prop :=
  ∀ schema ∈ t.qualifiers.get? "schema", ∃ name, d.quotedName schema = .ok name

/-- No check that needs no database fails for a table. -/
def Loadable (key : String) (t : TableRef) : Prop :=
  ∃ table, Selected bindings key t table ∧ SchemaNamed d t ∧ Writable d t table

/-- The checks before the first statement for a table do not fail: that statement creates
its schema, or the table itself if there is none. -/
def Begins (key : String) (t : TableRef) : Prop :=
  ∃ table, Selected bindings key t table ∧ SchemaNamed d t ∧
    (t.qualifiers.get? "schema" = none → Writable d t table)

/-- The requests that load a table: its schema, if there is one, and the table with what is
bound to its key. -/
inductive Loads (key : String) (t : TableRef) : List Request → Prop where
  | bare {table name definitions} : t.qualifiers.get? "schema" = none →
      Selected bindings key t table → d.tableName t = .ok name →
      table.columns.mapM definition = .ok definitions →
      Loads key t (creation name table definitions true)
  | within {schema text table name definitions} : t.qualifiers.get? "schema" = some schema →
      d.quotedName schema = .ok text → Selected bindings key t table →
      d.tableName t = .ok name → table.columns.mapM definition = .ok definitions →
      Loads key t
        (.execute ("CREATE SCHEMA IF NOT EXISTS " ++ text) :: creation name table definitions true)

/-- Without errors of the engine a session makes a request just if it begins, ends well just
if it is complete, and else ends with an error that is found without the database. -/
def Settles (s : Session Unit) (begins complete : Prop) : Prop :=
  ∃ made x, Gives s made x ∧ (made ≠ [] ↔ begins) ∧ (x = .ok () ↔ complete) ∧
    ∀ err, x = .error err → err.Foreseen

variable {d bindings} {key : String} {t : TableRef} {table : Table} {s : Session Unit}
  {begins complete : Prop} {err : DatabaseError} {made : List Request}

namespace Settles

theorem congr {begins' complete' : Prop} (h : Settles s begins complete) (b : begins ↔ begins')
    (c : complete ↔ complete') : Settles s begins' complete' := by
  rwa [← b, ← c]

theorem refused (refused : Gives s [] (.error err)) (foreseen : err.Foreseen)
    (unbegun : ¬begins) (incomplete : ¬complete) : Settles s begins complete :=
  ⟨[], _, refused, by simp [unbegun], by simp [incomplete], by rintro _ ⟨⟩; exact foreseen⟩

theorem checked {α : Type} {a : α} {f : α → Session Unit} (h : Settles (f a) begins complete) :
    Settles ((ofExcept (.ok a) : Session α) >>= f) begins complete := by
  obtain ⟨made, x, gives, rest⟩ := h
  exact ⟨made, x, .checked gives, rest⟩

/-- A session that begins by creating a schema. -/
theorem schema {name : String} (h : Settles s begins complete) :
    Settles (createSchema name >>= fun _ => s) True complete := by
  obtain ⟨made, x, gives, -, ended, foreseen⟩ := h
  have creates : Gives (createSchema name) [_] (.ok ()) := .execute .pure
  exact ⟨_, x, creates.bind gives, by simp, ended, foreseen⟩

theorem complete_of_ok {e : Engine} (h : Settles s begins complete)
    (ended : (run s e).1 = .ok ()) : complete := by
  obtain ⟨made, x, gives, -, finished, -⟩ := h
  exact finished.1 (gives.of_ok ended).1

/-- Errors that are found without the database leave it alone just if nothing is begun that
is not completed. -/
theorem wholly_iff (h : Settles s begins complete) :
    (∀ e err, (run s e).1 = .error err → err.Foreseen → (run s e).2.log = e.log) ↔
      (begins → complete) := by
  obtain ⟨made, x, gives, begun, ended, foreseen⟩ := h
  constructor
  · intro whole start
    by_contra incomplete
    obtain ⟨err, rfl⟩ : ∃ err, x = .error err := by
      cases x with
      | ok => exact absurd (ended.1 rfl) incomplete
      | error err => exact ⟨err, rfl⟩
    obtain ⟨e', result, made_here, -⟩ := gives.accepted ⟨[], []⟩ fun _ => List.not_mem_nil
    have log := whole ⟨[], []⟩ err (by rw [result]) (foreseen err rfl)
    rw [result] at log
    exact begun.2 start (made_here.symm.trans log)
  · intro finishes e err failed known
    obtain ⟨same, log⟩ | ⟨other, failed', brought⟩ := gives.otherwise e
    · have incomplete : ¬complete := by
        rw [← ended, ← same, failed]
        simp
      have none : made = [] := by
        by_contra some
        exact incomplete (finishes (begun.1 some))
      rw [log, none, List.append_nil]
    · rw [failed, Except.error.injEq] at failed'
      exact absurd (failed' ▸ known) brought

/-- A list of sessions begins with its first one and is complete if all of them are. -/
theorem forM {γ : Type} {l : List γ} {f : γ → Session Unit} {begins complete : γ → Prop}
    (each : ∀ c ∈ l, Settles (f c) (begins c) (complete c))
    (completed : ∀ c ∈ l, complete c → begins c) :
    Settles (l.forM f) (∃ c ∈ l.head?, begins c) (∀ c ∈ l, complete c) := by
  induction l with
  | nil => exact ⟨[], .ok (), .pure, by simp, by simp, by simp⟩
  | cons c l ih =>
    obtain ⟨made, x, first, begun, ended, foreseen⟩ := each c (List.mem_cons_self ..)
    cases x with
    | error err =>
      have incomplete : ¬complete c := fun all => by simpa using ended.2 all
      exact ⟨made, .error err, first.stop, by simpa using begun, by simp [incomplete],
        fun e same => foreseen e same⟩
    | ok =>
      obtain ⟨more, y, rest, -, ended', foreseen'⟩ := ih
        (fun b mem => each b (List.mem_cons_of_mem _ mem))
        fun b mem => completed b (List.mem_cons_of_mem _ mem)
      have whole : complete c := ended.1 rfl
      have start : begins c := completed c (List.mem_cons_self ..) whole
      have some : made ≠ [] := begun.2 start
      exact ⟨made ++ more, y, first.bind rest, by simp [some, start], by simp [ended', whole],
        foreseen'⟩

end Settles

/-! ## One table -/

theorem definition_ends {c : Column} :
    Ends (definition c) (fun _ => True) DatabaseError.Foreseen := by
  unfold definition columnType
  cases ColumnType.ofValues none c.cells <;> trivial

/-- Creating a table under its name. -/
theorem settles_write :
    Settles (do createTable (← ofExcept ((d.tableName t).mapError .sql)) table true)
      (Writable d t table) (Writable d t table) := by
  cases named : d.tableName t with
  | error err =>
    have unnamed : ¬Writable d t table := by simp [Writable, named]
    exact .refused (.stop .check) trivial unnamed unnamed
  | ok name =>
    refine .checked ?_
    cases declared : table.columns.mapM definition with
    | error err =>
      have undeclared : ¬Writable d t table := by simp [Writable, declared]
      have ends := Ends.mapM fun c (_ : c ∈ table.columns) => definition_ends (c := c)
      exact .refused (gives_createTable_error declared) (ends.of_eq_error declared) undeclared
        undeclared
    | ok definitions =>
      have writable : Writable d t table := ⟨⟨name, named⟩, definitions, declared⟩
      exact ⟨_, _, gives_createTable declared, by simp [creation, writable], by simp [writable],
        by simp⟩

theorem settles_loadTable :
    Settles (loadTable d bindings key t) (Begins d bindings key t) (Loadable d bindings key t) := by
  have unselected : (¬∃ table, Selected bindings key t table) →
      ¬Begins d bindings key t ∧ ¬Loadable d bindings key t := fun none =>
    ⟨fun ⟨table, selected, _⟩ => none ⟨table, selected⟩,
      fun ⟨table, selected, _⟩ => none ⟨table, selected⟩⟩
  unfold loadTable
  cases found : bindings.get? key with
  | none =>
    obtain ⟨unbegun, incomplete⟩ := unselected (by simp [Selected, found])
    exact .refused .throw trivial unbegun incomplete
  | some bound =>
    dsimp only
    cases cut : bound.select t.columns with
    | error err =>
      obtain ⟨unbegun, incomplete⟩ := unselected (by simp [Selected, found, cut])
      exact .refused (.stop .check) trivial unbegun incomplete
    | ok table =>
      have only : ∀ other, Selected bindings key t other ↔ table = other := by
        simp [Selected, found, cut]
      refine .checked ?_
      cases schema : t.qualifiers.get? "schema" with
      | none =>
        have named : SchemaNamed d t := by simp [SchemaNamed, schema]
        exact settles_write.congr (by simp [Begins, only, named, schema])
          (by simp [Loadable, only, named])
      | some name =>
        dsimp only
        cases quoted : d.quotedName name with
        | error err =>
          have unnamed : ¬SchemaNamed d t := by simp [SchemaNamed, schema, quoted]
          exact .refused (.stop .check) trivial (by simp [Begins, unnamed])
            (by simp [Loadable, unnamed])
        | ok text =>
          have named : SchemaNamed d t := by simp [SchemaNamed, schema, quoted]
          refine .checked (settles_write.schema.congr ?_ ?_)
          · simp [Begins, only, named, schema]
          · simp [Loadable, only, named]

theorem exists_loads (h : Loadable d bindings key t) : ∃ made, Loads d bindings key t made := by
  obtain ⟨table, selected, named, ⟨name, written⟩, definitions, declared⟩ := h
  cases schema : t.qualifiers.get? "schema" with
  | none => exact ⟨_, .bare schema selected written declared⟩
  | some s =>
    obtain ⟨text, quoted⟩ := named s schema
    exact ⟨_, .within schema quoted selected written declared⟩

theorem Loads.gives (h : Loads d bindings key t made) :
    Gives (loadTable d bindings key t) made (.ok ()) := by
  unfold loadTable
  cases h with
  | bare schema selected named declared =>
    obtain ⟨bound, found, cut⟩ := selected
    rw [found]
    dsimp only
    rw [cut, schema, named]
    exact .checked (.checked (gives_createTable declared))
  | @within _ text _ _ _ schema quoted selected named declared =>
    obtain ⟨bound, found, cut⟩ := selected
    rw [found]
    dsimp only
    rw [cut, schema, named]
    dsimp only
    rw [quoted]
    have creates : Gives (createSchema text) [_] (.ok ()) := .execute .pure
    exact .checked (.checked (creates.bind (.checked (gives_createTable declared))))

/-! ## All tables -/

theorem begins_of_loadable (h : Loadable d bindings key t) : Begins d bindings key t := by
  obtain ⟨table, selected, named, writable⟩ := h
  exact ⟨table, selected, named, fun _ => writable⟩

theorem settles_loadTables {p : Pipeline} : Settles (loadTables d bindings p)
    (∃ m, p.tables = .ok m ∧ ∃ x ∈ m.entries.head?, Begins d bindings x.1 x.2)
    (∃ m, p.tables = .ok m ∧ ∀ x ∈ m.entries, Loadable d bindings x.1 x.2) := by
  unfold loadTables
  cases read : p.tables with
  | error err => exact .refused (.stop .check) trivial (by simp) (by simp)
  | ok m =>
    have all : Settles (m.entries.forM fun x => loadTable d bindings x.1 x.2) _ _ :=
      .forM (fun _ _ => settles_loadTable) fun _ _ => begins_of_loadable
    exact .checked (all.congr (by simp) (by simp))

/-- Tables that pass their checks are loaded one after the other. -/
theorem gives_loads {l : List (String × TableRef)}
    (all : ∀ x ∈ l, Loadable d bindings x.1 x.2) :
    ∃ loads, List.Forall₂ (fun x made => Loads d bindings x.1 x.2 made) l loads ∧
      Gives (l.forM fun x => loadTable d bindings x.1 x.2) loads.flatten (.ok ()) := by
  induction l with
  | nil => exact ⟨[], .nil, .pure⟩
  | cons x l ih =>
    obtain ⟨made, first⟩ := exists_loads (all x (List.mem_cons_self ..))
    obtain ⟨loads, each, rest⟩ := ih fun y mem => all y (List.mem_cons_of_mem _ mem)
    exact ⟨made :: loads, .cons first each, first.gives.bind rest⟩

/-- A load that ends well has loaded each table of the pipeline, and nothing else. -/
theorem loadTables_log {p : Pipeline} {m : NameMap TableRef} {e : Engine}
    (read : p.tables = .ok m) (ended : (run (loadTables d bindings p) e).1 = .ok ()) :
    ∃ loads, List.Forall₂ (fun x made => Loads d bindings x.1 x.2 made) m.entries loads ∧
      (run (loadTables d bindings p) e).2.log = e.log ++ loads.flatten := by
  obtain ⟨_, read', all⟩ := settles_loadTables.complete_of_ok ended
  obtain rfl := Except.ok.inj (read.symm.trans read')
  obtain ⟨loads, each, gives⟩ := gives_loads all
  have whole : Gives (loadTables d bindings p) loads.flatten (.ok ()) := by
    unfold loadTables
    rw [read]
    exact .checked gives
  exact ⟨loads, each, (whole.of_ok ended).2⟩

/-- An error that is found without the database never comes after a statement, just if as
soon as there is a statement for the first table no check fails for any of the tables. -/
theorem loads_wholly_iff (d : Sql.Dialect) (bindings : NameMap Table) (p : Pipeline) :
    (∀ e err, (run (loadTables d bindings p) e).1 = .error err → err.Foreseen →
      (run (loadTables d bindings p) e).2.log = e.log) ↔
    ∀ m, p.tables = .ok m → (∃ first ∈ m.entries.head?, Begins d bindings first.1 first.2) →
      ∀ x ∈ m.entries, Loadable d bindings x.1 x.2 := by
  rw [settles_loadTables.wholly_iff]
  cases p.tables <;> simp

/-- The first of two tables has been replaced when the second one turns out to be unbound. -/
theorem second_table_unbound :
    let p := Pipeline.join (.table ⟨"a", .empty, ["x"]⟩) (.table ⟨"b", .empty, ["x"]⟩) ["x"] .inner
    let loaded := run (loadTables (.ofBase .duckdb) (.ofList [("a", ⟨[⟨"x", []⟩]⟩)]) p) ⟨[], []⟩
    loaded.1 = .error (.missingBinding "b") ∧ (DatabaseError.missingBinding "b").Foreseen ∧
      loaded.2.log.length = 1 := by
  refine ⟨by decide +kernel, trivial, by decide +kernel⟩

end TableFlow.Database
