import TableFlow.Pipeline.Build

/-!
# Demanded columns

To give out some of its columns a step needs only some columns of its sources.
`Pipeline.demand` says which; applied from step to step it tells what is read of each
table.
-/

namespace TableFlow.Pipeline

/-- The wanted columns, all if none are named; they must be columns of the pipeline. -/
def resolveWanted (p : Pipeline) (wanted : Option NameSet) : Except Error NameSet :=
  match wanted with
  | none => .ok p.columnSet
  | some u => do
    checkKnown (.step p.kind) u.names p
    .ok u

/-- The assignments whose result is wanted. -/
def retained (assignments : List (String × Formula)) (wanted : NameSet) :
    List (String × Formula) :=
  assignments.filter fun (name, _) => decide (name ∈ wanted)

/-- The columns that the last step needs of each of its sources to give out the wanted
ones. -/
def demand (wanted : NameSet) : Pipeline → List NameSet
  | table _ => []
  | extension source assignments window =>
    match retained assignments wanted with
    | [] => [wanted]
    | kept =>
      let passed := (wanted.names ++ window.partitionBy ++ window.orderBy).filter fun c =>
        source.hasColumn c && !(kept.map (·.1)).contains c
      [(NameSet.ofList passed).union (Formula.columnsOfAll (kept.map (·.2)))]
  | filter _ condition => [wanted.union condition.columns]
  | selection _ _ => [wanted]
  | removal _ _ => [wanted]
  | grouping _ assignments groupBy =>
    let kept := retained assignments wanted
    [(NameSet.ofList groupBy).union (Formula.columnsOfAll (kept.map (·.2)))]
  | ordering _ order => [wanted.addAll order.orderBy]
  | relabeling _ pairs => [NameSet.ofList (wanted.names.map (oldName pairs))]
  | join left right keys _ =>
    [(wanted.addAll keys).filter left.hasColumn, (wanted.addAll keys).filter right.hasColumn]

/-- The demand on the sources for wanted columns that are checked first. -/
def demandOf (p : Pipeline) (wanted : Option NameSet) : Except Error (List NameSet) := do
  .ok (p.demand (← p.resolveWanted wanted))

end TableFlow.Pipeline
