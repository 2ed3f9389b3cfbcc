import TableFlow.Pipeline.Basic

/-!
# Building pipelines

Each function checks a step against its source and adds it, or says what does not fit:
lists that must not be empty, names that must differ and columns that must exist.
-/

namespace TableFlow

def checkUnique (place : Place) (names : List String) : Except Error Unit :=
  match firstRepeat? [] names with
  | some name => .error (.duplicateColumn place name)
  | none => .ok ()

def checkColumnList (place : Place) (names : List String) : Except Error Unit :=
  if names = [] then .error (.noColumns place) else checkUnique place names

def checkKnown (place : Place) (names : List String) (source : Pipeline) : Except Error Unit :=
  match names.filter (!source.hasColumn ·) with
  | [] => .ok ()
  | missing => .error (.unknownColumns place missing)

/-- Falling columns that are all columns of the order. -/
def checkReverse (reverse orderBy : List String) : Except Error Unit :=
  match reverse.filter (!orderBy.contains ·) with
  | [] => .ok ()
  | stray => .error (.reverseNotOrdered stray)

def TableRef.of (name : String) (columns : List String) (qualifiers : NameMap String) :
    Except Error TableRef := do
  if name = "" then .error (.badTable .emptyName)
  checkColumnList (.tableNamed name) columns
  .ok ⟨name, qualifiers, columns⟩

/-- A window whose columns are columns of a pipeline. -/
def Window.check (w : Window) (source : Pipeline) : Except Error Unit := do
  checkUnique .partitionBy w.partitionBy
  checkUnique .orderBy w.orderBy
  checkUnique .reverse w.reverse
  checkKnown .partitionBy w.partitionBy source
  checkKnown .orderBy w.orderBy source
  checkReverse w.reverse w.orderBy

/-- Assigned names that the window does not use. -/
def Window.checkAssigned (w : Window) (names : List String) : Except Error Unit :=
  match names.find? fun k => w.partitionBy.contains k || w.orderBy.contains k with
  | some name => .error (.assignsWindowColumn name)
  | none => .ok ()

namespace Pipeline

/-- Columns added or replaced; all formulas see the source. -/
def extend (source : Pipeline) (assignments : List (String × Formula)) (window : Window) :
    Except Error Pipeline := do
  if assignments.isEmpty then .error (.noOperations .extend)
  checkUnique .extend (assignments.map (·.1))
  window.check source
  window.checkAssigned (assignments.map (·.1))
  checkKnown .extend (Formula.columnsOfAll (assignments.map (·.2))).names source
  .ok (extension source assignments window)

def selectRows (source : Pipeline) (condition : Formula) : Except Error Pipeline := do
  checkKnown .selectRows condition.columns.names source
  .ok (filter source condition)

def selectColumns (source : Pipeline) (columns : List String) : Except Error Pipeline := do
  checkColumnList .selectColumns columns
  checkKnown .selectColumns columns source
  .ok (selection source columns)

/-- All but the given columns; at least one must stay. -/
def dropColumns (source : Pipeline) (dropped : List String) : Except Error Pipeline := do
  if dropped = [] then .error (.noColumns .dropColumns)
  checkUnique .dropColumns dropped
  checkKnown .dropColumns dropped source
  if source.columns.all (dropped.contains ·) then .error .nothingLeft
  .ok (removal source dropped)

/-- One row for each group of rows with equal group columns. -/
def project (source : Pipeline) (assignments : List (String × Formula))
    (groupBy : List String) : Except Error Pipeline := do
  if assignments.isEmpty && groupBy.isEmpty then .error (.noOperations .project)
  checkUnique .groupBy groupBy
  checkKnown .groupBy groupBy source
  checkKnown .project (Formula.columnsOfAll (assignments.map (·.2))).names source
  checkUnique .project (groupBy ++ assignments.map (·.1))
  .ok (grouping source assignments groupBy)

def orderRows (source : Pipeline) (order : RowOrder) : Except Error Pipeline := do
  checkUnique .orderRows order.orderBy
  checkUnique .reverse order.reverse
  checkKnown .orderRows order.orderBy source
  checkReverse order.reverse order.orderBy
  .ok (ordering source order)

/-- Columns renamed. A new name must not be that of a column that keeps its name. -/
def renameColumns (source : Pipeline) (pairs : List (String × String)) :
    Except Error Pipeline := do
  if pairs.isEmpty then .error (.noOperations .renameColumns)
  checkUnique .renameColumns (pairs.map (·.1))
  checkUnique .renameColumns (pairs.map (·.2))
  checkKnown .renameColumns (pairs.map (·.2)) source
  match pairs.find? fun (new, _) => source.hasColumn new && !(pairs.map (·.2)).contains new with
  | some (new, _) => .error (.renameCollision new)
  | none => .ok (relabeling source pairs)

def checkKeys (side : Side) (keys : List String) (p : Pipeline) : Except Error Unit :=
  match keys.filter (!p.hasColumn ·) with
  | [] => .ok ()
  | missing => .error (.joinKeysMissing side missing)

/-- The join of two pipelines on columns that both have. -/
def naturalJoin (left right : Pipeline) (keys : List String) (type : JoinType) :
    Except Error Pipeline := do
  if keys = [] then .error (.noColumns .joinKeys)
  checkUnique .joinKeys keys
  checkKeys .left keys left
  checkKeys .right keys right
  .ok (join left right keys type)

end Pipeline

end TableFlow
