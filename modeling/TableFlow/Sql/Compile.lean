import TableFlow.Pipeline.Demand
import TableFlow.Sql.Query

/-!
# Pipelines as queries

`compile` makes one nested query of a pipeline. Each query selects only the columns that
the one around it demands. Aliases are numbered from a counter that also moves when a
compilation fails, so that the queries of one compiler never share an alias.
-/

namespace TableFlow.Sql

/-- A step of a compilation: it moves the alias counter and may fail. -/
abbrev Compiling := ExceptT SqlError (StateM Nat)

/-- An alias with the next number; its name must be one that can be quoted. -/
def nextAlias (d : Dialect) (role : AliasRole) : Compiling Alias := do
  let number ← getModify (· + 1)
  let a : Alias := ⟨role, number⟩
  let _ ← d.checkName a.name
  return a

/-- The wanted columns: columns of the pipeline, all if none are named, and at least
one. -/
def wantedColumns (p : Pipeline) (wanted : Option NameSet) : Except SqlError NameSet :=
  match wanted with
  | none => if p.columnSet.isEmpty then .error (.emptySelection p.kind) else .ok p.columnSet
  | some u =>
    match u.names.filter (!p.hasColumn ·) with
    | [] => if u.isEmpty then .error (.emptySelection p.kind) else .ok u
    | unknown => .error (.unknownColumns p.kind unknown)

def orderTerm (d : Dialect) (reverse : List String) (column : String) :
    Except SqlError OrderTerm := do
  .ok ⟨← d.checkName column, reverse.contains column, d.settings.nullsLast⟩

def overWindow (d : Dialect) (w : Window) (aggregate : Bool) : Except SqlError Over := do
  let partition ← w.partitionBy.mapM d.checkName
  .ok ⟨partition, ← w.orderBy.mapM (orderTerm d w.reverse), aggregate⟩

def columnItem (d : Dialect) (name : String) : Except SqlError Item := do
  .ok (.column (← d.checkName name))

/-- A column of an extension: assigned, over the window if it is a window call, or passed
on. -/
def extensionItem (d : Dialect) (assignments : List (String × Formula)) (w : Window)
    (name : String) : Except SqlError Item :=
  match assignments.find? (·.1 = name) with
  | none => columnItem d name
  | some (_, e) => do
    let placement ← if e.isWindowCall then some <$> overWindow d w e.isAggregate else .ok none
    let term ← d.term false e
    .ok (.computed term placement (← d.checkName name))

def groupingItem (d : Dialect) (assignments : List (String × Formula)) (name : String) :
    Except SqlError Item :=
  match assignments.find? (·.1 = name) with
  | none => columnItem d name
  | some (_, e) => do
    let term ← d.term false e
    .ok (.computed term none (← d.checkName name))

def relabeledItem (d : Dialect) (pairs : List (String × String)) (name : String) :
    Except SqlError Item :=
  if isRenamed pairs name then do
    let old ← d.checkName (oldName pairs name)
    .ok (.renamed old (← d.checkName name))
  else columnItem d name

/-- A column of a join, taken from both sides if both are asked for it. -/
def joinItem (d : Dialect) (fromLeft fromRight : NameSet) (left right : Alias)
    (name : String) : Except SqlError Item := do
  let name ← d.checkName name
  .ok (if name ∈ fromLeft ∧ name ∈ fromRight then .coalesced left right name
    else .column name)

/-- The query of the only source, and its alias. -/
def underAlias (d : Dialect) (source : Compiling Query) : Compiling (Query × Alias) := do
  let q ← source
  return (q, ← nextAlias d .source)

/-- A pipeline as a query for the wanted columns. -/
def compile (d : Dialect) : Pipeline → Option NameSet → Compiling Query
  | p@(.table t), wanted => do
    let wanted ← wantedColumns p wanted
    let items ← (p.columns.filter (· ∈ wanted)).mapM (columnItem d ·)
    return .table items (← d.tablePath t)
  | p@(.extension source assignments window), wanted => do
    let wanted ← wantedColumns p wanted
    let kept := Pipeline.retained assignments wanted
    if kept.isEmpty then compile d source (some wanted)
    else
      let (q, a) ← underAlias d (compile d source (p.demand wanted).head?)
      let items ← (p.columns.filter (· ∈ wanted)).mapM (extensionItem d kept window ·)
      return .nested items q a .nothing
  | p@(.filter source condition), wanted => do
    let wanted ← wantedColumns p wanted
    let (q, a) ← underAlias d (compile d source (p.demand wanted).head?)
    let items ← (p.columns.filter (· ∈ wanted)).mapM (columnItem d ·)
    return .nested items q a (.condition (← d.term false condition))
  | p@(.selection source _), wanted => do
    let wanted ← wantedColumns p wanted
    let (q, a) ← underAlias d (compile d source (p.demand wanted).head?)
    let items ← (p.columns.filter (· ∈ wanted)).mapM (columnItem d ·)
    return .nested items q a .nothing
  | p@(.removal source _), wanted => do
    let wanted ← wantedColumns p wanted
    let (q, a) ← underAlias d (compile d source (p.demand wanted).head?)
    let items ← (p.columns.filter (· ∈ wanted)).mapM (columnItem d ·)
    return .nested items q a .nothing
  | p@(.grouping source assignments groupBy), wanted => do
    let wanted ← wantedColumns p wanted
    let (q, a) ← underAlias d (compile d source (p.demand wanted).head?)
    let items ← (p.columns.filter (· ∈ wanted)).mapM (groupingItem d assignments ·)
    return .nested items q a (.groups (← groupBy.mapM (d.checkName ·)))
  | p@(.ordering source order), wanted => do
    let wanted ← wantedColumns p wanted
    let (q, a) ← underAlias d (compile d source (p.demand wanted).head?)
    let items ← (p.columns.filter (· ∈ wanted)).mapM (columnItem d ·)
    let terms ← order.orderBy.mapM (orderTerm d order.reverse ·)
    return .nested items q a (.order terms order.limit)
  | p@(.relabeling source pairs), wanted => do
    let wanted ← wantedColumns p wanted
    let (q, a) ← underAlias d (compile d source (p.demand wanted).head?)
    let items ← (p.columns.filter (· ∈ wanted)).mapM (relabeledItem d pairs ·)
    return .nested items q a .nothing
  | p@(.join left right keys type), wanted => do
    let wanted ← wantedColumns p wanted
    let fromLeft := (wanted.addAll keys).filter left.hasColumn
    let fromRight := (wanted.addAll keys).filter right.hasColumn
    let l ← compile d left (some fromLeft)
    let r ← compile d right (some fromRight)
    let la ← nextAlias d .left
    let ra ← nextAlias d .right
    let items ← (p.columns.filter (· ∈ wanted)).mapM (joinItem d fromLeft fromRight la ra ·)
    return .join items l la type r ra (← keys.mapM (d.checkName ·))

/-- The SQL text of a pipeline, with aliases numbered from a counter, and the counter
afterwards. -/
def compileText (d : Dialect) (p : Pipeline) (wanted : Option NameSet) (counter : Nat) :
    Except SqlError String × Nat :=
  let (result, counter) := (compile d p wanted).run counter
  (result.map (Query.text d.settings), counter)

def sqlText (d : Dialect) (p : Pipeline) (wanted : Option NameSet) : Except SqlError String :=
  (compileText d p wanted 0).1

end TableFlow.Sql
