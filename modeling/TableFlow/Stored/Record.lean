import TableFlow.Document
import TableFlow.Pipeline.Steps

/-!
# Steps as documents

A stored step is a mapping: its kind under `op`, then its fields in a fixed order, where
optional ones are left out when empty (`Step.record`). Reading also accepts a list of the
kind and the field values, and numbers instead of field names (`Step.ofRecord?`).
-/

namespace TableFlow

/-- The names of a step's fields, in the order in which they are written. -/
def Kind.fieldNames : Kind → List String
  | .table => ["table_name", "qualifiers", "column_names", "key"]
  | .extend => ["ops", "partition_by", "order_by", "reverse"]
  | .selectRows => ["expr"]
  | .selectColumns => ["columns"]
  | .dropColumns => ["column_deletions"]
  | .project => ["ops", "group_by"]
  | .orderRows => ["order_columns", "reverse", "limit"]
  | .renameColumns => ["column_remapping"]
  | .naturalJoin => ["by", "jointype", "b"]

def Kind.all : List Kind :=
  [.table, .extend, .selectRows, .selectColumns, .dropColumns, .project, .orderRows,
    .renameColumns, .naturalJoin]

namespace Step

/-! ## Writing -/

/-- A list of texts that is left out when empty. -/
def optionalTexts (name : String) : List String → List (String × Document)
  | [] => []
  | l => [(name, .texts l)]

def optionalPairs (name : String) : List (String × String) → List (String × Document)
  | [] => []
  | l => [(name, .pairs l)]

def optionalText (name : String) (s : String) : List (String × Document) :=
  if s = "" then [] else [(name, .text s)]

mutual

def fields : Step → List (String × Document)
  | table name qualifiers columns key =>
    ("table_name", .text name) :: optionalPairs "qualifiers" qualifiers.entries
      ++ ("column_names", .texts columns) :: optionalText "key" key
  | extend assignments window =>
    ("ops", .pairs assignments) :: optionalTexts "partition_by" window.partitionBy
      ++ optionalTexts "order_by" window.orderBy ++ optionalTexts "reverse" window.reverse
  | selectRows condition => [("expr", .text condition)]
  | selectColumns columns => [("columns", .texts columns)]
  | dropColumns dropped => [("column_deletions", .texts dropped)]
  | project assignments groupBy =>
    ("ops", .pairs assignments) :: optionalTexts "group_by" groupBy
  | orderRows order =>
    ("order_columns", .texts order.orderBy) :: optionalTexts "reverse" order.reverse
      ++ (order.limit.map fun n => ("limit", .whole n)).toList
  | renameColumns pairs => [("column_remapping", .pairs pairs)]
  | naturalJoin keys type right =>
    [("by", .texts keys), ("jointype", .text type.name), ("b", .list (records right))]

def record : Step → Document
  | s => .fields (("op", .text s.kind.name) :: s.fields)

def records : List Step → List Document
  | [] => []
  | s :: rest => s.record :: records rest

end

/-! ## Reading -/

/-- The value of a field, with the steps that it spells if it is a list of steps. -/
structure Field where
  value : Document
  steps? : Option (List Step)

/-- A choice among names, by the name or, if `numbered`, by its position. -/
def choose? {α : Type} (name : α → String) (all : List α) (numbered : Bool) :
    Document → Option α
  | .text s => all.find? (name · = s)
  | .whole i => if numbered ∧ 0 ≤ i then all[i.toNat]? else none
  | _ => none

/-- Whether a key can stand for a field: a name or a position. -/
def isFieldKey : Document → Bool
  | .text _ => true
  | .whole i => 0 ≤ i
  | _ => false

/-- The known fields of a mapping; none if one of them repeats. Other fields are ignored. -/
def byName? (names : List String) (entries : List (Document × Field)) :
    Option (List (String × Field)) :=
  let known := entries.filterMap fun (k, f) => (choose? id names true k).map (·, f)
  if entries.all (isFieldKey ·.1) && (firstRepeat? [] (known.map (·.1))).isNone then some known
  else none

/-- Fields given in order; none if there are too many. -/
def byPosition? (names : List String) (values : List Field) : Option (List (String × Field)) :=
  if names.length < values.length then none else some (names.zip values)

def need? {α : Type} (l : List (String × Field)) (name : String) (read : Field → Option α) :
    Option α :=
  (l.lookup name).bind read

/-- A field with a value of its own when it is not there. -/
def needOr? {α : Type} (l : List (String × Field)) (name : String) (missing : α)
    (read : Field → Option α) : Option α :=
  match l.lookup name with
  | some f => read f
  | none => some missing

def readText (f : Field) : Option String := f.value.toText?

def readTexts (f : Field) : Option (List String) := f.value.toTexts?

/-- Pairs of texts whose first parts all differ. -/
def readPairs (f : Field) : Option (List (String × String)) := do
  let l ← f.value.toPairs?
  if (firstRepeat? [] (l.map (·.1))).isSome then none
  some l

/-- A mapping between texts in which the last entry of a key stays. -/
def readMap (f : Field) : Option (NameMap String) := f.value.toPairs?.map .ofList

/-- A count of rows, or null for no limit. -/
def readLimit (f : Field) : Option (Option Nat) :=
  match f.value with
  | .null => some none
  | .whole i => if 0 ≤ i ∧ i < UInt64.size then some (some i.toNat) else none
  | _ => none

/-- Nothing, or an empty mapping. -/
def isVacuous : Document → Bool
  | .null => true
  | .map [] => true
  | _ => false

/-- A join type by its name, or as the only key of a mapping to nothing. -/
def readJoin (f : Field) : Option JoinType :=
  match f.value with
  | .text s => choose? JoinType.name JoinType.all true (.text s)
  | .map [(k, v)] => if isVacuous v then choose? JoinType.name JoinType.all true k else none
  | _ => none

def ofFields? (kind : Kind) (l : List (String × Field)) : Option Step :=
  match kind with
  | .table => do
    some (table (← need? l "table_name" readText) (← needOr? l "qualifiers" .empty readMap)
      (← need? l "column_names" readTexts) (← needOr? l "key" "" readText))
  | .extend => do
    some (extend (← need? l "ops" readPairs)
      ⟨← needOr? l "partition_by" [] readTexts, ← needOr? l "order_by" [] readTexts,
        ← needOr? l "reverse" [] readTexts⟩)
  | .selectRows => (need? l "expr" readText).map selectRows
  | .selectColumns => (need? l "columns" readTexts).map selectColumns
  | .dropColumns => (need? l "column_deletions" readTexts).map dropColumns
  | .project => do
    some (project (← need? l "ops" readPairs) (← needOr? l "group_by" [] readTexts))
  | .orderRows => do
    some (orderRows ⟨← need? l "order_columns" readTexts, ← needOr? l "reverse" [] readTexts,
      ← needOr? l "limit" none readLimit⟩)
  | .renameColumns => (need? l "column_remapping" readPairs).map renameColumns
  | .naturalJoin => do
    some (naturalJoin (← need? l "by" readTexts) (← needOr? l "jointype" .inner readJoin)
      (← need? l "b" Field.steps?))

/-- A step from the entries of a mapping. The kind stands under `op`, once. -/
def ofEntries? (numbered : Bool) (entries : List (Document × Field)) : Option Step := do
  let isTag := fun (entry : Document × Field) => entry.1.toText? == some "op"
  match entries.filter isTag with
  | [(_, tag)] =>
    let kind ← choose? Kind.name Kind.all numbered tag.value
    ofFields? kind (← byName? kind.fieldNames (entries.filter (!isTag ·)))
  | _ => none

/-- A step from a list of its kind and its fields. -/
def ofItems? (numbered : Bool) : List Field → Option Step
  | [] => none
  | tag :: rest => do
    let kind ← choose? Kind.name Kind.all numbered tag.value
    ofFields? kind (← byPosition? kind.fieldNames rest)

mutual

/-- The step that a document stores. Steps of a join's right side may give their kind by
number: `numbered` is for those. -/
def ofRecord? (numbered : Bool) : Document → Option Step
  | .map entries => ofEntries? numbered (entryFields entries)
  | .list items => ofItems? numbered (itemFields items)
  | _ => none

def field : Document → Field
  | .list items => ⟨.list items, ofNested? items⟩
  | d => ⟨d, none⟩

def entryFields : List (Document × Document) → List (Document × Field)
  | [] => []
  | (k, v) :: rest => (k, field v) :: entryFields rest

def itemFields : List Document → List Field
  | [] => []
  | d :: rest => field d :: itemFields rest

def ofNested? : List Document → Option (List Step)
  | [] => some []
  | d :: rest => do
    let s ← ofRecord? true d
    some (s :: (← ofNested? rest))

end

def ofDocument? : Document → Option (List Step)
  | .list items => items.mapM (ofRecord? false)
  | _ => none

end Step

end TableFlow
