import TableFlow.Proofs.Database.Loading
import TableFlow.Proofs.Lookup
import TableFlow.Proofs.Sql.Items
import TableFlow.Proofs.Sql.Quotes

/-!
# Keys and names of tables

A pipeline knows its tables by their keys, SQL by their names. In DuckDB's dialect a name is
read back to the schema and the table (`duckdbName_eq_iff`), but a key is not: two tables
have one key without having one name just if one of them is `Mistakable` for the other. A
pipeline keeps one table under each key (`Pipeline.get?_tables`), so it keeps all the tables
that its SQL reads just if no two of them can be mistaken (`keys_tell_apart_iff`).
-/

namespace TableFlow

namespace TableRef

/-- The schema that a table is in, if it says so. -/
def schema? (t : TableRef) : Option String := t.qualifiers.get? "schema"

/-- The key of a table by its schema and its name. -/
def keyText : Option String → String → String
  | none, name => name
  | some schema, name => "\x7b(schema, " ++ schema ++ ")\x7d." ++ name

/-- The key of a table is that of another one, which it is not: its name looks like the
other's whole key, or its schema could end later, with the rest of it in the name. -/
def Mistakable (t u : TableRef) : Prop :=
  match t.schema?, u.schema? with
  | none, some schema => t.name = "\x7b(schema, " ++ schema ++ ")\x7d." ++ u.name
  | some schema, some longer =>
    ∃ more, longer = schema ++ ")\x7d." ++ more ∧ t.name = more ++ ")\x7d." ++ u.name
  | _, none => False

end TableRef

open Sql Database Database.Session

abbrev duckdbName (t : TableRef) : Except SqlError String := (Dialect.ofBase .duckdb).tableName t

/-! ## Names -/

def nameText : Option String → String → String
  | none, name => "\"" ++ name ++ "\""
  | some schema, name => "\"" ++ schema ++ "\"" ++ "." ++ ("\"" ++ name ++ "\"")

def nameLexemes : Option String → String → List Lexeme
  | none, name => [.name name]
  | some schema, name => [.name schema, .plain '.', .name name]

section
variable {schema? : Option String} {name : String}

theorem lexemes_nameText (named : '"' ∉ name.toList) (free : ∀ s ∈ schema?, '"' ∉ s.toList) :
    lexemes? true (nameText schema? name) = some (nameLexemes schema? name) := by
  have last : cutQuotes true .outside ('"' :: (name.toList ++ ['"'])) = some [.name name] := by
    rw [cut_quoted_name named (by simp)]
    rfl
  cases schema? with
  | none => simpa [lexemes?, nameText, nameLexemes] using last
  | some schema =>
    have text : (nameText (some schema) name).toList =
        '"' :: (schema.toList ++ '"' :: '.' :: '"' :: (name.toList ++ ['"'])) := by
      simp [nameText]
    rw [lexemes?, text, cut_quoted_name (free schema rfl) (by simp), cutQuotes,
      if_neg (by decide), last]
    rfl

end

theorem checkNames_free {d : Dialect} (quote : d.settings.nameQuote = '"')
    {names path : List String} (checked : names.mapM d.checkName = .ok path) :
    ∀ n ∈ names, '"' ∉ n.toList := by
  intro n mem quoted
  obtain ⟨_, -, here⟩ := exists_of_forall₂ (mapM_eq_ok.1 checked).flip mem
  rw [checkName_eq quote, if_pos quoted] at here
  cases here

/-- A map with no name but one. -/
theorem NameMap.entries_of_names {α : Type} {m : NameMap α} {name : String}
    (only : ∀ n ∈ m.names, n = name) : m.entries = (m.get? name).toList.map (name, ·) := by
  obtain ⟨entries, rising⟩ := m
  match entries with
  | [] => rfl
  | [(n, v)] =>
    obtain rfl : n = name := only n (by simp [names])
    simp [get?]
  | (n, v) :: (k, w) :: rest =>
    have first : n = name := only n (by simp [names])
    have second : k = name := only k (by simp [names])
    have lt : n < k := by
      simp only [List.map_cons, List.pairwise_cons] at rising
      exact rising.1 k (List.mem_cons_self ..)
    exact absurd (first.trans second.symm ▸ lt) (String.lt_irrefl _)

variable {t u : TableRef} {a b : String}

/-- DuckDB writes the schema and the name of a table, which have no quotes; the table has no
other qualifiers. -/
theorem duckdbName_eq_ok (h : duckdbName t = .ok a) :
    t.qualifiers.entries = t.schema?.toList.map ("schema", ·) ∧
      lexemes? true a = some (nameLexemes t.schema? t.name) ∧ a = nameText t.schema? t.name := by
  obtain ⟨path, known, written⟩ := bind_eq_ok.1 h
  rw [Dialect.tablePath] at known
  split at known
  · rename_i none
    have free := checkNames_free rfl known
    obtain rfl := checkNames_ends.of_eq_ok known
    have only : ∀ n ∈ t.qualifiers.names, n = "schema" := by
      simpa [Dialect.ofBase, Base.qualifiers] using List.filter_eq_nil_iff.1 none
    have parts : (Dialect.ofBase .duckdb).settings.qualifiers.filterMap t.qualifiers.get? ++
        [t.name] = t.schema?.toList ++ [t.name] := by
      rw [TableRef.schema?]
      cases found : t.qualifiers.get? "schema" <;>
        simp [Dialect.ofBase, Base.qualifiers, found]
    rw [parts] at written free
    have text : a = nameText t.schema? t.name := by
      rw [← Except.ok.inj written]
      cases t.schema? <;> simp [nameText, Dialect.quoteName, Dialect.ofBase, Settings.default]
    refine ⟨NameMap.entries_of_names only, ?_, text⟩
    rw [text]
    exact lexemes_nameText (free t.name (by simp)) fun s mem =>
      free s (by simp [Option.mem_def.1 mem])
  · cases known

/-- Tables of one name in SQL have one schema and one name. -/
theorem duckdbName_eq_iff (first : duckdbName t = .ok a) (second : duckdbName u = .ok b) :
    a = b ↔ t.schema? = u.schema? ∧ t.name = u.name := by
  obtain ⟨-, read, text⟩ := duckdbName_eq_ok first
  obtain ⟨-, read', text'⟩ := duckdbName_eq_ok second
  constructor
  · rintro rfl
    rw [read, Option.some.injEq] at read'
    cases ht : t.schema? <;> cases hu : u.schema? <;> simp_all [nameLexemes]
  · rintro ⟨schema, name⟩
    rw [text, text', schema, name]

/-! ## Keys -/

theorem key_eq_keyText (h : duckdbName t = .ok a) : t.key = TableRef.keyText t.schema? t.name := by
  obtain ⟨entries, -, -⟩ := duckdbName_eq_ok h
  rw [TableRef.key, NameMap.isEmpty, entries, ← String.toList_inj]
  cases t.schema? <;> simp [TableRef.keyText]

section
variable {s n s' n' : List Char}

/-- Where two texts around a mark agree, they are the same or the mark stands in one of them
a second time. -/
theorem around_mark_iff : s ++ ')' :: '\x7d' :: '.' :: n = s' ++ ')' :: '\x7d' :: '.' :: n' ↔
    (s = s' ∧ n = n') ∨
      (∃ y, s' = s ++ ')' :: '\x7d' :: '.' :: y ∧ n = y ++ ')' :: '\x7d' :: '.' :: n') ∨
      ∃ y, s = s' ++ ')' :: '\x7d' :: '.' :: y ∧ n' = y ++ ')' :: '\x7d' :: '.' :: n := by
  -- what one text is longer by cannot end inside the mark
  have longer : ∀ {x n n' : List Char},
      ')' :: '\x7d' :: '.' :: n = x ++ ')' :: '\x7d' :: '.' :: n' →
      x = [] ∧ n = n' ∨
        ∃ y, x = ')' :: '\x7d' :: '.' :: y ∧ n = y ++ ')' :: '\x7d' :: '.' :: n' := by
    intro x n n' same
    match x with
    | [] => exact .inl ⟨rfl, by simpa using same⟩
    | [_] => simp at same
    | [_, _] => simp at same
    | _ :: _ :: _ :: y =>
      simp only [List.cons_append, List.cons.injEq] at same
      obtain ⟨rfl, rfl, rfl, same⟩ := same
      exact .inr ⟨y, rfl, same⟩
  constructor
  · intro same
    obtain ⟨x, rfl, rest⟩ | ⟨x, rfl, rest⟩ := List.append_eq_append_iff.1 same
    · obtain ⟨rfl, rfl⟩ | ⟨y, rfl, rfl⟩ := longer rest
      · exact .inl ⟨by simp, rfl⟩
      · exact .inr (.inl ⟨y, rfl, rfl⟩)
    · obtain ⟨rfl, rfl⟩ | ⟨y, rfl, rfl⟩ := longer rest
      · exact .inl ⟨by simp, rfl⟩
      · exact .inr (.inr ⟨y, rfl, rfl⟩)
  · rintro (⟨rfl, rfl⟩ | ⟨y, rfl, rfl⟩ | ⟨y, rfl, rfl⟩) <;> simp

end

/-- Two tables of one key are the same or one of them can be mistaken for the other. -/
theorem key_eq_iff (first : duckdbName t = .ok a) (second : duckdbName u = .ok b) :
    t.key = u.key ↔
      (t.schema? = u.schema? ∧ t.name = u.name) ∨ t.Mistakable u ∨ u.Mistakable t := by
  have marked : ∀ s n : String, (s ++ ")\x7d." ++ n).toList =
      s.toList ++ ')' :: '\x7d' :: '.' :: n.toList := by simp
  have longer : ∀ {s s' n n' : String},
      (∃ y, s'.toList = s.toList ++ ')' :: '\x7d' :: '.' :: y ∧
        n.toList = y ++ ')' :: '\x7d' :: '.' :: n'.toList) ↔
      ∃ more, s' = s ++ ")\x7d." ++ more ∧ n = more ++ ")\x7d." ++ n' := by
    intro s s' n n'
    simp only [← String.toList_inj, marked]
    exact ⟨fun ⟨y, h⟩ => ⟨String.ofList y, by simpa using h⟩, fun ⟨more, h⟩ => ⟨more.toList, h⟩⟩
  rw [key_eq_keyText first, key_eq_keyText second, TableRef.Mistakable, TableRef.Mistakable]
  cases t.schema? with
  | none => cases u.schema? <;> simp [TableRef.keyText]
  | some schema =>
    cases u.schema? with
    | none => simp [TableRef.keyText, eq_comm]
    | some other =>
      have texts : TableRef.keyText (some schema) t.name = TableRef.keyText (some other) u.name ↔
          schema.toList ++ ')' :: '\x7d' :: '.' :: t.name.toList =
            other.toList ++ ')' :: '\x7d' :: '.' :: u.name.toList := by
        rw [← marked, ← marked, String.toList_inj]
        simp [TableRef.keyText, String.append_assoc, String.append_right_inj]
      rw [texts, around_mark_iff, longer, longer, String.toList_inj, String.toList_inj,
        Option.some.injEq]

/-- A table that can be mistaken for another one is not in its schema under its name. -/
theorem mistakable_apart (h : t.Mistakable u) : ¬(t.schema? = u.schema? ∧ t.name = u.name) := by
  rintro ⟨schema, -⟩
  rw [TableRef.Mistakable, schema] at h
  cases found : u.schema? with
  | none => simp [found] at h
  | some s =>
    rw [found] at h
    obtain ⟨more, long, -⟩ := h
    have count := congrArg String.length long
    have mark : ")\x7d.".length = 3 := rfl
    rw [String.length_append, String.length_append] at count
    omega

/-! ## The tables of a pipeline -/

namespace Pipeline

variable {p : Pipeline} {m found : NameMap TableRef} {l : List TableRef} {k : String}

/-- Under each key stands the first table of that key. -/
theorem get?_gather (h : gather l found = .ok m) :
    m.get? k = (found.get? k).or (l.find? (·.key = k)) := by
  induction l generalizing found with
  | nil =>
    cases h
    simp
  | cons t rest ih =>
    rw [gather] at h
    split at h
    · rename_i seen here
      split at h
      · rw [ih h, List.find?_cons]
        by_cases same : t.key = k
        · simp [← same, here]
        · simp [same]
      · cases h
    · rename_i absent
      rw [ih h, NameMap.get?_insert, List.find?_cons]
      by_cases same : t.key = k
      · simp [← same, absent]
      · simp [same, Ne.symm same]

theorem get?_tables (h : p.tables = .ok m) : m.get? k = p.leaves.find? (·.key = k) := by
  rw [get?_gather h, NameMap.get?_empty, Option.none_or]

theorem mem_tables (h : p.tables = .ok m) {x : String × TableRef} (mem : x ∈ m.entries) :
    x.2 ∈ p.leaves ∧ x.2.key = x.1 := by
  have found := NameMap.mem_entries.1 mem
  rw [get?_tables h] at found
  exact find?_key_some found

/-- Every table that is read has one of its key among those that are kept. -/
theorem exists_tables (h : p.tables = .ok m) (leaf : t ∈ p.leaves) :
    ∃ x ∈ m.entries, x.1 = t.key := by
  obtain ⟨v, found⟩ : ∃ v, p.leaves.find? (·.key = t.key) = some v :=
    Option.ne_none_iff_exists'.1 fun none =>
      find?_key_none.1 none (List.mem_map_of_mem leaf)
  exact ⟨(t.key, v), NameMap.mem_entries.2 ((get?_tables h).trans found), rfl⟩

/-- No two tables that are kept have one name in SQL. -/
theorem tables_names_differ (h : p.tables = .ok m)
    (named : ∀ t ∈ p.leaves, ∃ a, duckdbName t = .ok a) :
    m.entries.Pairwise fun x y => duckdbName x.2 ≠ duckdbName y.2 := by
  refine (List.pairwise_map.1 m.rising).imp_of_mem fun {x y} hx hy lt same => ?_
  obtain ⟨leaf, key⟩ := mem_tables h hx
  obtain ⟨leaf', key'⟩ := mem_tables h hy
  obtain ⟨a, first⟩ := named _ leaf
  obtain ⟨b, second⟩ := named _ leaf'
  have texts : a = b := Except.ok.inj (first.symm.trans (same.trans second))
  have keys := (key_eq_iff first second).2 (.inl ((duckdbName_eq_iff first second).1 texts))
  rw [key, key'] at keys
  exact String.lt_irrefl _ (keys ▸ lt)

/-- Every table that is read is kept under its name in SQL just if no two of them can be
mistaken for one another. -/
theorem tables_names_kept_iff (h : p.tables = .ok m)
    (named : ∀ t ∈ p.leaves, ∃ a, duckdbName t = .ok a) :
    (∀ t ∈ p.leaves, ∃ x ∈ m.entries, duckdbName x.2 = duckdbName t) ↔
      ∀ t ∈ p.leaves, ∀ u ∈ p.leaves, ¬t.Mistakable u := by
  constructor
  · intro kept t leaf u leaf' mistaken
    obtain ⟨a, first⟩ := named t leaf
    obtain ⟨b, second⟩ := named u leaf'
    have keys := (key_eq_iff first second).2 (.inr (.inl mistaken))
    -- what is kept under the name of a table has its key, and there is one of that key only
    have keyed : ∀ {v c}, v ∈ p.leaves → duckdbName v = .ok c →
        ∃ x, m.get? v.key = some x ∧ duckdbName x = .ok c := by
      intro v c leaf name
      obtain ⟨⟨k, x⟩, mem, same⟩ := kept v leaf
      obtain ⟨-, key⟩ := mem_tables h mem
      have name' : duckdbName x = .ok c := same.trans name
      have alike := (key_eq_iff name' name).2 (.inl ((duckdbName_eq_iff name' name).1 rfl))
      exact ⟨x, by rw [← alike, key]; exact NameMap.mem_entries.1 mem, name'⟩
    obtain ⟨x, here, name⟩ := keyed leaf first
    obtain ⟨y, there, name'⟩ := keyed leaf' second
    rw [keys, there] at here
    obtain rfl := Option.some.inj here
    have texts : a = b := Except.ok.inj (name.symm.trans name')
    exact mistakable_apart mistaken ((duckdbName_eq_iff first second).1 texts)
  · intro apart t leaf
    obtain ⟨x, mem, key⟩ := exists_tables h leaf
    obtain ⟨leaf', key'⟩ := mem_tables h mem
    obtain ⟨a, first⟩ := named _ leaf'
    obtain ⟨b, second⟩ := named t leaf
    obtain same | mistaken | mistaken := (key_eq_iff first second).1 (key'.trans key)
    · exact ⟨x, mem, by rw [first, second, (duckdbName_eq_iff first second).2 same]⟩
    · exact absurd mistaken (apart _ leaf' t leaf)
    · exact absurd mistaken (apart t leaf _ leaf')

end Pipeline

/-- Two tables that DuckDB can name have one key just when they have one name, unless one of
them can be mistaken for the other. So a pipeline keeps no table twice, and it keeps every
table that its SQL reads just if none of them can be mistaken for another; a load creates
each table that is kept, once and under its name. -/
theorem keys_tell_apart_iff (t u : TableRef) (p : Pipeline) :
    (∀ a b, duckdbName t = .ok a → duckdbName u = .ok b →
      ((t.key = u.key ↔ a = b) ↔ ¬(t.Mistakable u ∨ u.Mistakable t))) ∧
    ∀ m, p.tables = .ok m → (∀ v ∈ p.leaves, ∃ a, duckdbName v = .ok a) →
      m.entries.Pairwise (fun x y => duckdbName x.2 ≠ duckdbName y.2) ∧
      ((∀ v ∈ p.leaves, ∃ x ∈ m.entries, duckdbName x.2 = duckdbName v) ↔
        ∀ v ∈ p.leaves, ∀ w ∈ p.leaves, ¬v.Mistakable w) ∧
      ∀ bindings e, (run (loadTables (.ofBase .duckdb) bindings p) e).1 = .ok () →
        ∃ loads, List.Forall₂ (fun x made => Loads (.ofBase .duckdb) bindings x.1 x.2 made)
            m.entries loads ∧
          (run (loadTables (.ofBase .duckdb) bindings p) e).2.log = e.log ++ loads.flatten := by
  refine ⟨fun a b first second => ?_, fun m h named =>
    ⟨Pipeline.tables_names_differ h named, Pipeline.tables_names_kept_iff h named,
      fun bindings e => loadTables_log h⟩⟩
  have apart : t.Mistakable u ∨ u.Mistakable t → ¬(t.schema? = u.schema? ∧ t.name = u.name) := by
    rintro (mistaken | mistaken) ⟨schema, name⟩
    · exact mistakable_apart mistaken ⟨schema, name⟩
    · exact mistakable_apart mistaken ⟨schema.symm, name.symm⟩
  rw [key_eq_iff first second, duckdbName_eq_iff first second]
  tauto

/-- A join of two tables of one name, one of them in a schema, keeps both. -/
theorem keys_tell_apart_iff_join :
    let bare : TableRef := ⟨"d", .empty, ["x"]⟩
    let staged : TableRef := ⟨"d", .ofList [("schema", "s")], ["x"]⟩
    let p := Pipeline.join (.table bare) (.table staged) ["x"] .inner
    ∃ m, p.tables = .ok m ∧ (∀ t ∈ p.leaves, ∃ a, duckdbName t = .ok a) ∧
      (∀ t ∈ p.leaves, ∃ x ∈ m.entries, duckdbName x.2 = duckdbName t) := by
  intro bare staged p
  obtain ⟨m, kept⟩ : ∃ m, p.tables = .ok m := ⟨_, rfl⟩
  have leaves : ∀ t ∈ p.leaves, t = bare ∨ t = staged := fun t mem => by
    simpa [p, Pipeline.leaves, or_comm] using mem
  have first : duckdbName bare = .ok "\"d\"" := by decide +kernel
  have second : duckdbName staged = .ok "\"s\".\"d\"" := by decide +kernel
  have named : ∀ t ∈ p.leaves, ∃ a, duckdbName t = .ok a := fun t mem => by
    rcases leaves t mem with rfl | rfl
    · exact ⟨_, first⟩
    · exact ⟨_, second⟩
  have keys : bare.key ≠ staged.key := by decide +kernel
  have apart : ∀ t ∈ p.leaves, ∀ u ∈ p.leaves, ¬t.Mistakable u := by
    intro t mem u mem' mistaken
    obtain ⟨a, name⟩ := named t mem
    obtain ⟨b, name'⟩ := named u mem'
    have same : t.key = u.key := (key_eq_iff name name').2 (.inr (.inl mistaken))
    have differ := mistakable_apart mistaken
    rcases leaves t mem with rfl | rfl <;> rcases leaves u mem' with rfl | rfl
    · exact differ ⟨rfl, rfl⟩
    · exact keys same
    · exact keys same.symm
    · exact differ ⟨rfl, rfl⟩
  exact ⟨m, kept, named, ((keys_tell_apart_iff bare staged p).2 m kept named).2.1.2 apart⟩

/-- A table without a schema whose name is the key of a table in a schema. -/
theorem schema_read_as_name :
    let bare : TableRef := ⟨"\x7b(schema, s)\x7d.t", .empty, ["x"]⟩
    let staged : TableRef := ⟨"t", .ofList [("schema", "s")], ["x"]⟩
    TableRef.of bare.name bare.columns bare.qualifiers = .ok bare ∧
      TableRef.of staged.name staged.columns staged.qualifiers = .ok staged ∧
      duckdbName bare = .ok "\"\x7b(schema, s)\x7d.t\"" ∧
      duckdbName staged = .ok "\"s\".\"t\"" ∧ bare.key = staged.key := by
  decide +kernel

end TableFlow
