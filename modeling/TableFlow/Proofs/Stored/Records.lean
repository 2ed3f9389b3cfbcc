import TableFlow.Stored.Record
import TableFlow.Proofs.Lookup
import TableFlow.Proofs.Outcome
import Mathlib.Data.List.Nodup

/-!
# Steps read back from their records

A step is read back from the mapping that stores it (`ofRecord?_record`). Fields that are left
out come back as what stands for them (`Carries`), so only what no reader takes has to be kept
out of a step: assignments under one name and counts beyond 64 bits (`Storable`).
-/

namespace TableFlow

namespace Step

open Document (text)

/-! ## Entries of a record -/

def fieldsOf (l : List (String × Document)) : List (String × Field) :=
  l.map fun (k, v) => (k, field v)

def textKeys (l : List (String × Field)) : List (Document × Field) :=
  l.map fun (k, f) => (text k, f)

theorem entryFields_fields {l : List (String × Document)} :
    entryFields (l.map fun (k, v) => (text k, v)) = textKeys (fieldsOf l) := by
  induction l with
  | nil => rfl
  | cons entry l ih =>
    rw [List.map_cons, entryFields, ih]
    rfl

theorem exists_of_mem_textKeys {l : List (String × Field)} {entry : Document × Field}
    (h : entry ∈ textKeys l) : ∃ k f, (k, f) ∈ l ∧ entry = (text k, f) := by
  obtain ⟨⟨k, f⟩, mem, rfl⟩ := List.mem_map.1 h
  exact ⟨k, f, mem, rfl⟩

theorem choose?_kind {numbered : Bool} {kind : Kind} :
    choose? Kind.name Kind.all numbered (text kind.name) = some kind := by
  cases kind <;> rfl

theorem choose?_join {type : JoinType} :
    choose? JoinType.name JoinType.all true (text type.name) = some type := by
  cases type <;> rfl

theorem choose?_known {names : List String} {name : String} (known : name ∈ names) :
    choose? id names true (text name) = some name := by
  show names.find? (id · = name) = some name
  induction names with
  | nil => cases known
  | cons first names ih =>
    by_cases same : first = name
    · simp [same]
    · have rest := (List.mem_cons.1 known).resolve_left (Ne.symm same)
      rw [List.find?_cons_of_neg (by simpa using same)]
      exact ih rest

theorem known_fields {names : List String} {l : List (String × Field)}
    (known : ∀ entry ∈ l, entry.1 ∈ names) :
    (textKeys l).filterMap (fun (k, f) => (choose? id names true k).map (·, f)) = l := by
  induction l with
  | nil => rfl
  | cons entry l ih =>
    obtain ⟨k, f⟩ := entry
    have first := choose?_known (known (k, f) (List.mem_cons_self ..))
    have rest := ih fun e he => known e (List.mem_cons_of_mem _ he)
    rw [textKeys] at rest ⊢
    simp only [List.map_cons, List.filterMap_cons, first, Option.map_some, rest]

theorem byName?_fields {names : List String} {l : List (String × Field)}
    (within : (l.map (·.1)).Sublist names) (nodup : names.Nodup) :
    byName? names (textKeys l) = some l := by
  have known := known_fields fun entry mem => within.subset (List.mem_map_of_mem mem)
  have distinct : firstRepeat? [] (l.map (·.1)) = none :=
    firstRepeat?_eq_none.2 ⟨nodup.sublist within, by simp⟩
  have keys : (textKeys l).all (isFieldKey ·.1) = true := by
    rw [List.all_eq_true]
    intro entry mem
    obtain ⟨k, f, -, rfl⟩ := exists_of_mem_textKeys mem
    rfl
  unfold byName?
  simp only [known, distinct, keys, Option.isNone_none, Bool.and_self, if_true]

theorem fieldNames_nodup (kind : Kind) : kind.fieldNames.Nodup := by
  cases kind <;> decide

theorem op_not_fieldName (kind : Kind) : "op" ∉ kind.fieldNames := by
  cases kind <;> decide

/-- A record is read by its kind from its fields. -/
theorem ofEntries?_fields {numbered : Bool} {kind : Kind} {l : List (String × Field)}
    (within : (l.map (·.1)).Sublist kind.fieldNames) :
    ofEntries? numbered ((text "op", field (text kind.name)) :: textKeys l) =
      ofFields? kind l := by
  have others : ∀ entry ∈ textKeys l, (entry.1.toText? == some "op") = false := by
    intro entry mem
    obtain ⟨k, f, within_l, rfl⟩ := exists_of_mem_textKeys mem
    have known : k ∈ kind.fieldNames := within.subset (List.mem_map_of_mem within_l)
    have ne : k ≠ "op" := fun same => op_not_fieldName kind (same ▸ known)
    simpa [Document.toText?] using ne
  have tags : (textKeys l).filter (·.1.toText? == some "op") = [] :=
    List.filter_eq_nil_iff.2 fun entry mem => by simp [others entry mem]
  have fields : (textKeys l).filter (!·.1.toText? == some "op") = textKeys l :=
    List.filter_eq_self.2 fun entry mem => by simp [others entry mem]
  have tag : (text "op").toText? = some "op" := rfl
  unfold ofEntries?
  simp only [List.filter_cons, tag, beq_self_eq_true, if_true, tags, Bool.not_true,
    Bool.false_eq_true, if_false, fields, field, choose?_kind, Option.bind_eq_bind,
    Option.bind_some, byName?_fields within (fieldNames_nodup kind)]

/-! ## The fields of a step -/

/-- The entries of each field of a step, in the order of the fields: one or none. -/
def parts : Step → List (List (String × Document))
  | table name qualifiers columns key =>
    [[("table_name", text name)], optionalPairs "qualifiers" qualifiers.entries,
      [("column_names", .texts columns)], optionalText "key" key]
  | extend assignments window =>
    [[("ops", .pairs assignments)], optionalTexts "partition_by" window.partitionBy,
      optionalTexts "order_by" window.orderBy, optionalTexts "reverse" window.reverse]
  | selectRows condition => [[("expr", text condition)]]
  | selectColumns columns => [[("columns", .texts columns)]]
  | dropColumns dropped => [[("column_deletions", .texts dropped)]]
  | project assignments groupBy =>
    [[("ops", .pairs assignments)], optionalTexts "group_by" groupBy]
  | orderRows order =>
    [[("order_columns", .texts order.orderBy)], optionalTexts "reverse" order.reverse,
      (order.limit.map fun n => ("limit", .whole n)).toList]
  | renameColumns pairs => [[("column_remapping", .pairs pairs)]]
  | naturalJoin keys type right =>
    [[("by", .texts keys)], [("jointype", text type.name)], [("b", .list (records right))]]

theorem fields_eq_flatten {s : Step} : s.fields = s.parts.flatten := by
  cases s <;> simp [fields, parts]

/-- At most one entry, under the name of the field. -/
def IsPart (name : String) (written : List (String × Document)) : Prop :=
  written = [] ∨ ∃ d, written = [(name, d)]

theorem isPart_texts {name : String} {l : List String} : IsPart name (optionalTexts name l) := by
  cases l with
  | nil => exact .inl rfl
  | cons s l => exact .inr ⟨_, rfl⟩

theorem isPart_pairs {name : String} {l : List (String × String)} :
    IsPart name (optionalPairs name l) := by
  cases l with
  | nil => exact .inl rfl
  | cons entry l => exact .inr ⟨_, rfl⟩

theorem isPart_text {name s : String} : IsPart name (optionalText name s) := by
  unfold optionalText
  split
  · exact .inl rfl
  · exact .inr ⟨_, rfl⟩

theorem isPart_limit {limit : Option Nat} :
    IsPart "limit" (limit.map fun n : Nat => ("limit", Document.whole n)).toList := by
  cases limit with
  | none => exact .inl rfl
  | some n => exact .inr ⟨_, rfl⟩

theorem isPart_one {name : String} {d : Document} : IsPart name [(name, d)] := .inr ⟨d, rfl⟩

/-- The parts of a step are those of its kind's fields. -/
theorem parts_fieldNames {s : Step} : List.Forall₂ IsPart s.kind.fieldNames s.parts := by
  cases s with
  | table => exact .cons isPart_one (.cons isPart_pairs (.cons isPart_one (.cons isPart_text .nil)))
  | extend =>
    exact .cons isPart_one (.cons isPart_texts (.cons isPart_texts (.cons isPart_texts .nil)))
  | project => exact .cons isPart_one (.cons isPart_texts .nil)
  | orderRows => exact .cons isPart_one (.cons isPart_texts (.cons isPart_limit .nil))
  | naturalJoin => exact .cons isPart_one (.cons isPart_one (.cons isPart_one .nil))
  | _ => exact .cons isPart_one .nil

section
variable {names : List String} {ps : List (List (String × Document))}

theorem parts_names (h : List.Forall₂ IsPart names ps) :
    (ps.flatten.map (·.1)).Sublist names := by
  induction h with
  | nil => exact .slnil
  | cons part _ ih =>
    obtain rfl | ⟨d, rfl⟩ := part
    · exact ih.cons _
    · exact ih.cons_cons _

theorem lookup_absent {name : String} {l : List (String × Document)}
    (h : name ∉ l.map (·.1)) : (fieldsOf l).lookup name = none := by
  rw [List.lookup_eq_none_iff]
  intro entry mem
  obtain ⟨⟨k, d⟩, written, rfl⟩ := List.mem_map.1 mem
  simpa using fun same => h (List.mem_map.2 ⟨(k, d), written, same.symm⟩)

/-- Looking up a field finds the entry of its part. -/
theorem lookup_part (h : List.Forall₂ IsPart names ps) (nodup : names.Nodup) {name : String}
    {written : List (String × Document)} (mem : (name, written) ∈ names.zip ps) :
    (fieldsOf ps.flatten).lookup name = written.head?.map fun entry => field entry.2 := by
  induction h with
  | nil => cases mem
  | @cons first part names ps isPart rest ih =>
    obtain ⟨fresh, nodup⟩ := List.nodup_cons.1 nodup
    rcases List.mem_cons.1 mem with same | later
    · cases same
      have absent : (fieldsOf ps.flatten).lookup name = none :=
        lookup_absent fun again => fresh ((parts_names rest).subset again)
      obtain rfl | ⟨d, rfl⟩ := isPart
      · exact absent
      · simp [fieldsOf]
    · have ne : name ≠ first := fun same => fresh (same ▸ (List.of_mem_zip later).1)
      obtain rfl | ⟨d, rfl⟩ := isPart
      · exact ih nodup later
      · rw [← ih nodup later]
        simp [fieldsOf, List.lookup_cons, beq_false_of_ne ne]

end

theorem records_eq_map {steps : List Step} : records steps = steps.map record := by
  induction steps with
  | nil => rw [records, List.map_nil]
  | cons s steps ih => rw [records, ih, List.map_cons]

theorem ofNested?_eq_mapM {items : List Document} :
    ofNested? items = items.mapM (ofRecord? true) := by
  induction items with
  | nil => rfl
  | cons d items ih =>
    rw [ofNested?, ih, List.mapM_cons]
    rfl

/-- A record is read by the kind of its step from the fields that were written. -/
theorem ofRecord?_fields {numbered : Bool} {s : Step} :
    ofRecord? numbered s.record = ofFields? s.kind (fieldsOf s.fields) := by
  have names : (fieldsOf s.fields).map (·.1) = s.parts.flatten.map (·.1) := by
    simp [fieldsOf, fields_eq_flatten, Function.comp_def]
  rw [record, Document.fields, ofRecord?, List.map_cons, entryFields, entryFields_fields]
  exact ofEntries?_fields (names ▸ parts_names parts_fieldNames)

/-! ## Reading the fields -/

section
variable {α : Type} {name : String} {missing a : α} {read : Field → Option α} {s : Step}
  {written : List (String × Document)}

/-- A field that is always written is read. -/
theorem need?_part (i : Nat) {d : Document}
    (here : (s.kind.fieldNames.zip s.parts)[i]? = some (name, [(name, d)]))
    (ok : read (field d) = some a) : need? (fieldsOf s.fields) name read = some a := by
  have found := lookup_part parts_fieldNames (fieldNames_nodup _) (List.mem_of_getElem? here)
  rw [need?, fields_eq_flatten, found]
  exact ok

/-- The entries that are written for a value: none for the value that stands for a missing
field, else one that is read back. -/
def Carries (missing : α) (read : Field → Option α) (written : List (String × Document))
    (a : α) : Prop :=
  written = [] ∧ a = missing ∨ ∃ k d, written = [(k, d)] ∧ read (field d) = some a

/-- A field that may be left out is read. -/
theorem Carries.needOr?_part (h : Carries missing read written a) (i : Nat)
    (here : (s.kind.fieldNames.zip s.parts)[i]? = some (name, written)) :
    needOr? (fieldsOf s.fields) name missing read = some a := by
  have found := lookup_part parts_fieldNames (fieldNames_nodup _) (List.mem_of_getElem? here)
  rw [needOr?, fields_eq_flatten, found]
  obtain ⟨rfl, rfl⟩ | ⟨k, d, rfl, ok⟩ := h
  · rfl
  · exact ok

theorem carries_texts (name : String) {l : List String} :
    Carries [] readTexts (optionalTexts name l) l := by
  cases l with
  | nil => exact .inl ⟨rfl, rfl⟩
  | cons s l => exact .inr ⟨_, _, rfl, Document.toTexts?_texts _⟩

theorem carries_map (name : String) {m : NameMap String} :
    Carries .empty readMap (optionalPairs name m.entries) m := by
  cases entries : m.entries with
  | nil => exact .inl ⟨rfl, by rw [← m.ofList_entries, entries]; rfl⟩
  | cons entry l =>
    refine .inr ⟨_, _, rfl, ?_⟩
    show (Document.pairs (entry :: l)).toPairs?.map NameMap.ofList = some m
    rw [Document.toPairs?_pairs, ← entries, Option.map_some, NameMap.ofList_entries]

theorem carries_text (name : String) {t : String} :
    Carries "" readText (optionalText name t) t := by
  unfold optionalText
  split
  · exact .inl ⟨rfl, ‹_›⟩
  · exact .inr ⟨_, _, rfl, rfl⟩

theorem carries_limit (name : String) {limit : Option Nat}
    (fits : ∀ n ∈ limit, n < UInt64.size) :
    Carries none readLimit (limit.map fun n : Nat => (name, .whole n)).toList limit := by
  cases limit with
  | none => exact .inl ⟨rfl, rfl⟩
  | some n =>
    have small : (n : Int) < (UInt64.size : Int) := Int.ofNat_lt.2 (fits n rfl)
    refine .inr ⟨_, _, rfl, ?_⟩
    show (if 0 ≤ (n : Int) ∧ (n : Int) < (UInt64.size : Int) then some (some (n : Int).toNat)
      else none) = some (some n)
    rw [if_pos ⟨Int.natCast_nonneg n, small⟩, Int.toNat_natCast]

theorem carries_join (name : String) {type : JoinType} :
    Carries .inner readJoin [(name, text type.name)] type :=
  .inr ⟨_, _, rfl, choose?_join⟩

end

theorem readTexts_field {l : List String} : readTexts (field (.texts l)) = some l :=
  Document.toTexts?_texts l

theorem readPairs_field {pairs : List (String × String)} (nodup : (pairs.map (·.1)).Nodup) :
    readPairs (field (.pairs pairs)) = some pairs := by
  have distinct : firstRepeat? [] (pairs.map (·.1)) = none :=
    firstRepeat?_eq_none.2 ⟨nodup, by simp⟩
  show (do
    let l ← (Document.pairs pairs).toPairs?
    if (firstRepeat? [] (l.map (·.1))).isSome then none
    some l) = some pairs
  simp [distinct]

/-! ## Reading each kind of step -/

section
variable {columns : List String} {assignments : List (String × String)}

theorem table_read {name key : String} {qualifiers : NameMap String} :
    let s := table name qualifiers columns key
    ofFields? .table (fieldsOf s.fields) = some s := by
  intro s
  have named : need? (fieldsOf s.fields) "table_name" readText = some name := need?_part 0 rfl rfl
  have qualified : needOr? (fieldsOf s.fields) "qualifiers" .empty readMap = some qualifiers :=
    (carries_map "qualifiers").needOr?_part 1 rfl
  have listed : need? (fieldsOf s.fields) "column_names" readTexts = some columns :=
    need?_part 2 rfl readTexts_field
  have keyed : needOr? (fieldsOf s.fields) "key" "" readText = some key :=
    (carries_text "key").needOr?_part 3 rfl
  rw [ofFields?, named, qualified, listed, keyed]
  rfl

theorem extend_read {window : Window} (nodup : (assignments.map (·.1)).Nodup) :
    let s := extend assignments window
    ofFields? .extend (fieldsOf s.fields) = some s := by
  intro s
  have assigned : need? (fieldsOf s.fields) "ops" readPairs = some assignments :=
    need?_part 0 rfl (readPairs_field nodup)
  have partition : needOr? (fieldsOf s.fields) "partition_by" [] readTexts =
      some window.partitionBy := (carries_texts "partition_by").needOr?_part 1 rfl
  have order : needOr? (fieldsOf s.fields) "order_by" [] readTexts = some window.orderBy :=
    (carries_texts "order_by").needOr?_part 2 rfl
  have reverse : needOr? (fieldsOf s.fields) "reverse" [] readTexts = some window.reverse :=
    (carries_texts "reverse").needOr?_part 3 rfl
  rw [ofFields?, assigned, partition, order, reverse]
  rfl

theorem selectRows_read {condition : String} :
    let s := selectRows condition
    ofFields? .selectRows (fieldsOf s.fields) = some s := by
  intro s
  have stated : need? (fieldsOf s.fields) "expr" readText = some condition := need?_part 0 rfl rfl
  rw [ofFields?, stated]
  rfl

theorem selectColumns_read :
    let s := selectColumns columns
    ofFields? .selectColumns (fieldsOf s.fields) = some s := by
  intro s
  have chosen : need? (fieldsOf s.fields) "columns" readTexts = some columns :=
    need?_part 0 rfl readTexts_field
  rw [ofFields?, chosen]
  rfl

theorem dropColumns_read :
    let s := dropColumns columns
    ofFields? .dropColumns (fieldsOf s.fields) = some s := by
  intro s
  have listed : need? (fieldsOf s.fields) "column_deletions" readTexts = some columns :=
    need?_part 0 rfl readTexts_field
  rw [ofFields?, listed]
  rfl

theorem project_read {groupBy : List String} (nodup : (assignments.map (·.1)).Nodup) :
    let s := project assignments groupBy
    ofFields? .project (fieldsOf s.fields) = some s := by
  intro s
  have assigned : need? (fieldsOf s.fields) "ops" readPairs = some assignments :=
    need?_part 0 rfl (readPairs_field nodup)
  have groups : needOr? (fieldsOf s.fields) "group_by" [] readTexts = some groupBy :=
    (carries_texts "group_by").needOr?_part 1 rfl
  rw [ofFields?, assigned, groups]
  rfl

theorem orderRows_read {order : RowOrder} (fits : ∀ n ∈ order.limit, n < UInt64.size) :
    let s := orderRows order
    ofFields? .orderRows (fieldsOf s.fields) = some s := by
  intro s
  have columns : need? (fieldsOf s.fields) "order_columns" readTexts = some order.orderBy :=
    need?_part 0 rfl readTexts_field
  have reverse : needOr? (fieldsOf s.fields) "reverse" [] readTexts = some order.reverse :=
    (carries_texts "reverse").needOr?_part 1 rfl
  have limit : needOr? (fieldsOf s.fields) "limit" none readLimit = some order.limit :=
    (carries_limit "limit" fits).needOr?_part 2 rfl
  rw [ofFields?, columns, reverse, limit]
  rfl

theorem renameColumns_read {pairs : List (String × String)} (nodup : (pairs.map (·.1)).Nodup) :
    let s := renameColumns pairs
    ofFields? .renameColumns (fieldsOf s.fields) = some s := by
  intro s
  have renamed : need? (fieldsOf s.fields) "column_remapping" readPairs = some pairs :=
    need?_part 0 rfl (readPairs_field nodup)
  rw [ofFields?, renamed]
  rfl

theorem naturalJoin_read {keys : List String} {type : JoinType} {right : List Step}
    (below : ∀ step ∈ right, ofRecord? true step.record = some step) :
    let s := naturalJoin keys type right
    ofFields? .naturalJoin (fieldsOf s.fields) = some s := by
  intro s
  have nested : (field (.list (records right))).steps? = some right := by
    rw [field, ofNested?_eq_mapM, records_eq_map, mapM_eq_some, List.forall₂_map_left_iff,
      List.forall₂_same]
    exact below
  have on : need? (fieldsOf s.fields) "by" readTexts = some keys :=
    need?_part 0 rfl readTexts_field
  have typed : needOr? (fieldsOf s.fields) "jointype" .inner readJoin = some type :=
    (carries_join "jointype").needOr?_part 1 rfl
  have beside : need? (fieldsOf s.fields) "b" Field.steps? = some right := need?_part 2 rfl nested
  rw [ofFields?, on, typed, beside]
  rfl

end

/-- A step whose record is read back: assignments are to different names, and a limit is a
count of 64 bits. -/
inductive Storable : Step → Prop where
  | table {name : String} {qualifiers : NameMap String} {columns : List String} {key : String} :
      Storable (.table name qualifiers columns key)
  | extend {assignments : List (String × String)} {window : Window} :
      (assignments.map (·.1)).Nodup → Storable (.extend assignments window)
  | selectRows {condition : String} : Storable (.selectRows condition)
  | selectColumns {columns : List String} : Storable (.selectColumns columns)
  | dropColumns {dropped : List String} : Storable (.dropColumns dropped)
  | project {assignments : List (String × String)} {groupBy : List String} :
      (assignments.map (·.1)).Nodup → Storable (.project assignments groupBy)
  | orderRows {order : RowOrder} :
      (∀ n ∈ order.limit, n < UInt64.size) → Storable (.orderRows order)
  | renameColumns {pairs : List (String × String)} :
      (pairs.map (·.1)).Nodup → Storable (.renameColumns pairs)
  | naturalJoin {keys : List String} {type : JoinType} {right : List Step} :
      (∀ s ∈ right, Storable s) → Storable (.naturalJoin keys type right)

/-- The record of a step is read back as that step. -/
theorem ofRecord?_record {s : Step} (h : s.Storable) :
    ∀ numbered, ofRecord? numbered s.record = some s := by
  intro numbered
  induction h generalizing numbered with
  | table => exact ofRecord?_fields.trans table_read
  | extend nodup => exact ofRecord?_fields.trans (extend_read nodup)
  | selectRows => exact ofRecord?_fields.trans selectRows_read
  | selectColumns => exact ofRecord?_fields.trans selectColumns_read
  | dropColumns => exact ofRecord?_fields.trans dropColumns_read
  | project nodup => exact ofRecord?_fields.trans (project_read nodup)
  | orderRows fits => exact ofRecord?_fields.trans (orderRows_read fits)
  | renameColumns nodup => exact ofRecord?_fields.trans (renameColumns_read nodup)
  | naturalJoin _ ih =>
    exact ofRecord?_fields.trans (naturalJoin_read fun step mem => ih step mem true)

end Step

end TableFlow
