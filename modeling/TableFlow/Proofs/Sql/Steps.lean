import TableFlow.Sql.Compile
import TableFlow.Proofs.Outcome

/-!
# The steps of a compilation

What `compile` does at one step of a pipeline, said once: after the request has been checked
(`wantedColumns`) it makes the query of a table, passes the request on, or puts a select list
and a tail (`stepParts`, `joinParts`) around the queries of its sources (`compile_eq`).
-/

namespace TableFlow.Sql

open Pipeline

variable {α β : Type} {d : Dialect}

namespace Compiling

def lift (x : Except SqlError α) : Compiling α := liftM x

theorem run_lift {x : Except SqlError α} {counter : Nat} :
    (lift x).run counter = (x, counter) := rfl

theorem run_bind {x : Compiling α} {f : α → Compiling β} {counter : Nat} :
    (x >>= f).run counter =
      match x.run counter with
      | (.ok a, next) => (f a).run next
      | (.error e, next) => (.error e, next) := by
  rw [ExceptT.run_bind]
  simp only [Bind.bind, StateT.bind]
  rcases x.run counter with ⟨_ | _, _⟩ <;> rfl

theorem lift_bind {x : Except SqlError α} {f : α → Except SqlError β} :
    lift (x >>= f) = lift x >>= fun a => lift (f a) := by
  cases x <;> rfl

theorem lift_mapM {f : α → Except SqlError β} {l : List α} :
    lift (l.mapM f) = l.mapM fun a => (liftM (f a) : Compiling β) := by
  induction l with
  | nil => rfl
  | cons a l ih =>
    rw [List.mapM_cons, List.mapM_cons, lift_bind, ← ih]
    refine bind_congr fun b => ?_
    rw [lift_bind]
    rfl

end Compiling

open Compiling (lift lift_bind lift_mapM)

def stepItem (d : Dialect) : Pipeline → NameSet → String → Except SqlError Item
  | .extension _ assignments window, u, name => extensionItem d (retained assignments u) window name
  | .grouping _ assignments _, _, name => groupingItem d assignments name
  | .relabeling _ pairs, _, name => relabeledItem d pairs name
  | _, _, name => columnItem d name

def stepTail (d : Dialect) : Pipeline → Except SqlError Tail
  | .filter _ condition => do .ok (.condition (← d.term false condition))
  | .grouping _ _ groupBy => do .ok (.groups (← groupBy.mapM d.checkName))
  | .ordering _ order => do
    .ok (.order (← order.orderBy.mapM (orderTerm d order.reverse)) order.limit)
  | _ => .ok .nothing

/-- The select list of some columns, and what goes with it. -/
def withItems (item : String → Except SqlError Item) (names : List String)
    (rest : Except SqlError β) : Except SqlError (List Item × β) := do
  let items ← names.mapM item
  .ok (items, ← rest)

section
variable {item item' : String → Except SqlError Item} {names : List String}
  {rest : Except SqlError β}

theorem withItems_eq_ok {items : List Item} {r : β} :
    withItems item names rest = .ok (items, r) ↔
      List.Forall₂ (fun name i => item name = .ok i) names items ∧ rest = .ok r := by
  simp [withItems, bind_eq_ok, mapM_eq_ok]

theorem withItems_map {f : Item → Item} (each : ∀ name, item' name = (item name).map f) :
    withItems item' names rest = (withItems item names rest).map (Prod.map (List.map f) id) := by
  have items : names.mapM item' = (names.mapM item).map (List.map f) := by
    induction names with
    | nil => rfl
    | cons name names ih =>
      rw [List.mapM_cons, List.mapM_cons, each, ih]
      cases item name with
      | error e => rfl
      | ok i => cases names.mapM item <;> rfl
  rw [withItems, withItems, items]
  cases names.mapM item with
  | error e => rfl
  | ok is => cases rest <;> rfl

end

/-- What stands around the nested query of a step with one source. -/
def stepParts (d : Dialect) (p : Pipeline) (u : NameSet) : Except SqlError (List Item × Tail) :=
  withItems (stepItem d p u) (p.columns.filter (· ∈ u)) (stepTail d p)

def joinParts (d : Dialect) (left right : Pipeline) (keys : List String) (type : JoinType)
    (u : NameSet) (la ra : Alias) : Except SqlError (List Item × List String) :=
  withItems
    (joinItem d ((u.addAll keys).filter left.hasColumn) ((u.addAll keys).filter right.hasColumn)
      la ra)
    ((join left right keys type).columns.filter (· ∈ u)) (keys.mapM d.checkName)

def tableParts (d : Dialect) (t : TableRef) (u : NameSet) :
    Except SqlError (List Item × List String) :=
  withItems (columnItem d) (t.columns.filter (· ∈ u)) (d.tablePath t)

def tableQuery (d : Dialect) (t : TableRef) (u : NameSet) : Compiling Query := do
  let (items, path) ← lift (tableParts d t u)
  return .table items path

def nestedQuery (d : Dialect) (p : Pipeline) (u : NameSet) (source : Compiling Query) :
    Compiling Query := do
  let q ← source
  let a ← nextAlias d .source
  let (items, tail) ← lift (stepParts d p u)
  return .nested items q a tail

def joinQuery (d : Dialect) (left right : Pipeline) (keys : List String) (type : JoinType)
    (u : NameSet) (fromLeft fromRight : Compiling Query) : Compiling Query := do
  let l ← fromLeft
  let r ← fromRight
  let la ← nextAlias d .left
  let ra ← nextAlias d .right
  let (items, keys) ← lift (joinParts d left right keys type u la ra)
  return .join items l la type r ra keys

/-- The query of a pipeline for columns that have been checked. -/
def stepQuery (d : Dialect) (p : Pipeline) (u : NameSet) : Compiling Query :=
  match p with
  | .table t => tableQuery d t u
  | .extension source assignments _ =>
    if (retained assignments u).isEmpty then compile d source (some u)
    else nestedQuery d p u (compile d source (p.demand u).head?)
  | .filter source _ | .selection source _ | .removal source _ | .grouping source _ _
  | .ordering source _ | .relabeling source _ =>
    nestedQuery d p u (compile d source (p.demand u).head?)
  | .join left right keys type =>
    joinQuery d left right keys type u
      (compile d left (some ((u.addAll keys).filter left.hasColumn)))
      (compile d right (some ((u.addAll keys).filter right.hasColumn)))

/-- A compilation checks its request and then makes one step. -/
theorem compile_eq (p : Pipeline) (wanted : Option NameSet) :
    compile d p wanted = lift (wantedColumns p wanted) >>= stepQuery d p := by
  cases p <;>
  · rw [compile]
    refine bind_congr fun u => ?_
    simp only [stepQuery, tableQuery, tableParts, nestedQuery, joinQuery, stepParts, joinParts,
      withItems, stepTail, underAlias, lift_bind, lift_mapM, bind_assoc, pure_bind]
    rfl

/-- What holds of a table's query, of a checked request, and of each step over what it is made
of, holds of every compilation. -/
theorem compile_induction {P : Compiling Query → Prop}
    (checked : ∀ (x : Except SqlError NameSet) f, (∀ u, P (f u)) → P (lift x >>= f))
    (table : ∀ t u, P (tableQuery d t u))
    (nested : ∀ p u source, P source → P (nestedQuery d p u source))
    (join : ∀ left right keys type u fromLeft fromRight, P fromLeft → P fromRight →
      P (joinQuery d left right keys type u fromLeft fromRight))
    (p : Pipeline) (wanted : Option NameSet) : P (compile d p wanted) := by
  induction p generalizing wanted with
  | table t =>
    rw [compile_eq]
    exact checked _ _ fun u => table t u
  | extension source assignments window ih =>
    rw [compile_eq]
    refine checked _ _ fun u => ?_
    by_cases pass : (retained assignments u).isEmpty
    · simpa only [stepQuery, if_pos pass] using ih _
    · simpa only [stepQuery, if_neg pass] using nested _ u _ (ih _)
  | join left right keys type ihl ihr =>
    rw [compile_eq]
    exact checked _ _ fun u => join _ _ _ _ _ _ _ (ihl _) (ihr _)
  | filter _ _ ih | selection _ _ ih | removal _ _ ih | grouping _ _ _ ih | ordering _ _ ih
  | relabeling _ _ ih =>
    rw [compile_eq]
    exact checked _ _ fun u => nested _ u _ (ih _)

end TableFlow.Sql
