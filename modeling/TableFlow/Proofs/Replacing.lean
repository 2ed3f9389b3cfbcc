import Mathlib.Data.List.Forall2
import TableFlow.Proofs.Demand
import TableFlow.Proofs.Formula.Printing

/-!
# Other names and constants in a pipeline

`Pipeline.Replaced r p q` says that `q` is `p` with other names and constants in place of its
own, as `r` has it. Column names are replaced one to one, so whatever a pipeline does by
comparing them it does with the new ones too: its columns and its demands are replaced alike
(`Pipeline.Replaced.columns`, `Pipeline.Replaced.demand`).
-/

namespace TableFlow

open Pipeline

/-- Which names and constants may stand in place of which. -/
structure Replacement where
  column : String → String → Prop
  table : String → String → Prop
  /-- For the values of table qualifiers. -/
  qualifier : String → String → Prop
  constant : Value → Value → Prop

variable {r : Replacement}

/-! ## Formulas and pipelines -/

inductive Formula.Replaced (r : Replacement) : Formula → Formula → Prop where
  | constant {v w : Value} (h : r.constant v w) : Replaced r (.constant v) (.constant w)
  | column {a b : String} (h : r.column a b) : Replaced r (.column a) (.column b)
  | apply {name : String} {args args' : List Formula} {form : Form}
    (each : List.Forall₂ (Replaced r) args args') :
    Replaced r (.apply name args form) (.apply name args' form)

/-- A named formula with another name. -/
def Assigned (r : Replacement) (a b : String × Formula) : Prop :=
  r.column a.1 b.1 ∧ a.2.Replaced r b.2

structure TableRef.Replaced (r : Replacement) (t t' : TableRef) : Prop where
  name : r.table t.name t'.name
  qualifiers : List.Forall₂ (fun a b => a.1 = b.1 ∧ r.qualifier a.2 b.2) t.qualifiers.entries
    t'.qualifiers.entries
  columns : List.Forall₂ r.column t.columns t'.columns

structure Window.Replaced (r : Replacement) (w w' : Window) : Prop where
  partitionBy : List.Forall₂ r.column w.partitionBy w'.partitionBy
  orderBy : List.Forall₂ r.column w.orderBy w'.orderBy
  reverse : List.Forall₂ r.column w.reverse w'.reverse

structure RowOrder.Replaced (r : Replacement) (o o' : RowOrder) : Prop where
  orderBy : List.Forall₂ r.column o.orderBy o'.orderBy
  reverse : List.Forall₂ r.column o.reverse o'.reverse
  limit : o.limit = o'.limit

inductive Pipeline.Replaced (r : Replacement) : Pipeline → Pipeline → Prop where
  | table {t t' : TableRef} (h : t.Replaced r t') : Replaced r (.table t) (.table t')
  | extension {source source' : Pipeline} {assignments assignments' : List (String × Formula)}
    {window window' : Window} (below : Replaced r source source')
    (assigned : List.Forall₂ (Assigned r) assignments assignments')
    (placed : window.Replaced r window') :
    Replaced r (.extension source assignments window) (.extension source' assignments' window')
  | filter {source source' : Pipeline} {condition condition' : Formula}
    (below : Replaced r source source') (h : condition.Replaced r condition') :
    Replaced r (.filter source condition) (.filter source' condition')
  | selection {source source' : Pipeline} {columns columns' : List String}
    (below : Replaced r source source') (names : List.Forall₂ r.column columns columns') :
    Replaced r (.selection source columns) (.selection source' columns')
  | removal {source source' : Pipeline} {dropped dropped' : List String}
    (below : Replaced r source source') (names : List.Forall₂ r.column dropped dropped') :
    Replaced r (.removal source dropped) (.removal source' dropped')
  | grouping {source source' : Pipeline} {assignments assignments' : List (String × Formula)}
    {groupBy groupBy' : List String} (below : Replaced r source source')
    (assigned : List.Forall₂ (Assigned r) assignments assignments')
    (names : List.Forall₂ r.column groupBy groupBy') :
    Replaced r (.grouping source assignments groupBy) (.grouping source' assignments' groupBy')
  | ordering {source source' : Pipeline} {order order' : RowOrder}
    (below : Replaced r source source') (h : order.Replaced r order') :
    Replaced r (.ordering source order) (.ordering source' order')
  | relabeling {source source' : Pipeline} {pairs pairs' : List (String × String)}
    (below : Replaced r source source')
    (names : List.Forall₂ (fun a b => r.column a.1 b.1 ∧ r.column a.2 b.2) pairs pairs') :
    Replaced r (.relabeling source pairs) (.relabeling source' pairs')
  | join {left left' right right' : Pipeline} {keys keys' : List String} {type : JoinType}
    (belowLeft : Replaced r left left') (belowRight : Replaced r right right')
    (names : List.Forall₂ r.column keys keys') :
    Replaced r (.join left right keys type) (.join left' right' keys' type)

/-- Lists that have each other's columns replaced, in any order. -/
def Replacement.Covers (r : Replacement) (l l' : List String) : Prop :=
  (∀ a ∈ l, ∃ b ∈ l', r.column a b) ∧ ∀ b ∈ l', ∃ a ∈ l, r.column a b

/-- Sets of columns where one has the columns of the other replaced. -/
def Replacement.Sets (r : Replacement) (u u' : NameSet) : Prop := r.Covers u.names u'.names

/-! ## Lists -/

section
variable {α β : Type} {R : α → β → Prop} {l : List α} {l' : List β}

theorem rel_find {p : α → Bool} {q : β → Bool} (agree : ∀ a b, R a b → p a = q b)
    (h : List.Forall₂ R l l') : Option.Rel R (l.find? p) (l'.find? q) := by
  induction h with
  | nil => exact .none
  | @cons a b l l' first _ ih =>
    rw [List.find?_cons, List.find?_cons, agree a b first]
    cases q b with
    | true => exact .some first
    | false => exact ih

theorem forall₂_filter {p : α → Bool} {q : β → Bool} (agree : ∀ a b, R a b → p a = q b)
    (h : List.Forall₂ R l l') : List.Forall₂ R (l.filter p) (l'.filter q) :=
  List.rel_filter (fun a b related => by simp only [agree a b related]) h

theorem rel_head? (h : List.Forall₂ R l l') : Option.Rel R l.head? l'.head? := by
  cases h with
  | nil => exact .none
  | cons first => exact .some first

theorem exists_left (h : List.Forall₂ R l l') {a : α} (mem : a ∈ l) : ∃ b ∈ l', R a b := by
  obtain ⟨b, mem, related⟩ := exists_of_forall₂ (List.Forall₂.flip h) mem
  exact ⟨b, mem, related⟩

theorem isEmpty_forall₂ (h : List.Forall₂ R l l') : l.isEmpty = l'.isEmpty := by
  cases h <;> rfl

end

namespace Replacement

variable {a b : String} {l l' m m' : List String}

theorem mem_iff (unique : Relator.BiUnique r.column) (related : r.column a b)
    (h : List.Forall₂ r.column l l') : a ∈ l ↔ b ∈ l' :=
  List.rel_mem unique related h

theorem contains_eq (unique : Relator.BiUnique r.column) (related : r.column a b)
    (h : List.Forall₂ r.column l l') : l.contains a = l'.contains b := by
  rw [Bool.eq_iff_iff, List.contains_iff_mem, List.contains_iff_mem]
  exact mem_iff unique related h

theorem eq_iff {c d : String} (unique : Relator.BiUnique r.column) (first : r.column a b)
    (second : r.column c d) : a = c ↔ b = d :=
  Relator.rel_eq unique first second

theorem Covers.of_forall₂ (h : List.Forall₂ r.column l l') : r.Covers l l' :=
  ⟨fun _ mem => exists_left h mem, fun _ mem => exists_of_forall₂ h mem⟩

theorem Covers.mem_iff (unique : Relator.BiUnique r.column) (h : r.Covers l l')
    (related : r.column a b) : a ∈ l ↔ b ∈ l' := by
  constructor
  · intro mem
    obtain ⟨c, inside, other⟩ := h.1 a mem
    exact unique.2 other related ▸ inside
  · intro mem
    obtain ⟨c, inside, other⟩ := h.2 b mem
    exact unique.1 other related ▸ inside

theorem Covers.append (first : r.Covers l l') (second : r.Covers m m') :
    r.Covers (l ++ m) (l' ++ m') := by
  constructor
  · intro a mem
    obtain mem | mem := List.mem_append.1 mem
    · obtain ⟨b, inside, related⟩ := first.1 a mem
      exact ⟨b, List.mem_append_left _ inside, related⟩
    · obtain ⟨b, inside, related⟩ := second.1 a mem
      exact ⟨b, List.mem_append_right _ inside, related⟩
  · intro b mem
    obtain mem | mem := List.mem_append.1 mem
    · obtain ⟨a, inside, related⟩ := first.2 b mem
      exact ⟨a, List.mem_append_left _ inside, related⟩
    · obtain ⟨a, inside, related⟩ := second.2 b mem
      exact ⟨a, List.mem_append_right _ inside, related⟩

theorem Covers.filter {p q : String → Bool} (agree : ∀ a b, r.column a b → p a = q b)
    (h : r.Covers l l') : r.Covers (l.filter p) (l'.filter q) := by
  constructor
  · intro a mem
    obtain ⟨inside, holds⟩ := List.mem_filter.1 mem
    obtain ⟨b, inside, related⟩ := h.1 a inside
    exact ⟨b, List.mem_filter.2 ⟨inside, agree a b related ▸ holds⟩, related⟩
  · intro b mem
    obtain ⟨inside, holds⟩ := List.mem_filter.1 mem
    obtain ⟨a, inside, related⟩ := h.2 b inside
    exact ⟨a, List.mem_filter.2 ⟨inside, agree a b related ▸ holds⟩, related⟩

theorem Covers.map {f g : String → String} (agree : ∀ a b, r.column a b → r.column (f a) (g b))
    (h : r.Covers l l') : r.Covers (l.map f) (l'.map g) := by
  constructor
  · intro _ mem
    obtain ⟨a, inside, rfl⟩ := List.mem_map.1 mem
    obtain ⟨b, inside, related⟩ := h.1 a inside
    exact ⟨g b, List.mem_map_of_mem inside, agree a b related⟩
  · intro _ mem
    obtain ⟨b, inside, rfl⟩ := List.mem_map.1 mem
    obtain ⟨a, inside, related⟩ := h.2 b inside
    exact ⟨f a, List.mem_map_of_mem inside, agree a b related⟩

/-- Only the members of a list count. -/
theorem Covers.congr (h : r.Covers l l') (left : ∀ a, a ∈ m ↔ a ∈ l)
    (right : ∀ b, b ∈ m' ↔ b ∈ l') :
    r.Covers m m' := by
  simpa only [Covers, left, right] using h

theorem Covers.ofList (h : r.Covers l l') : r.Sets (.ofList l) (.ofList l') :=
  h.congr (fun _ => NameSet.mem_ofList) fun _ => NameSet.mem_ofList

theorem Sets.addAll {u u' : NameSet} (h : r.Sets u u') (more : r.Covers l l') :
    r.Sets (u.addAll l) (u'.addAll l') :=
  (h.append more).congr (fun _ => NameSet.mem_addAll.trans List.mem_append.symm)
    fun _ => NameSet.mem_addAll.trans List.mem_append.symm

theorem Sets.filter {u u' : NameSet} {p q : String → Bool} (h : r.Sets u u')
    (agree : ∀ a b, r.column a b → p a = q b) : r.Sets (u.filter p) (u'.filter q) :=
  Covers.filter agree h

theorem Covers.isEmpty (h : r.Covers l l') : l.isEmpty = l'.isEmpty := by
  cases l with
  | nil =>
    cases l' with
    | nil => rfl
    | cons b l' =>
      obtain ⟨a, mem, -⟩ := h.2 b (List.mem_cons_self ..)
      cases mem
  | cons a l =>
    cases l' with
    | nil =>
      obtain ⟨b, mem, -⟩ := h.1 a (List.mem_cons_self ..)
      cases mem
    | cons b l' => rfl

end Replacement

open Replacement (Covers Sets contains_eq eq_iff)

/-! ## Formulas -/

namespace Formula

variable {e e' : Formula}

theorem columnLists_replaced {es es' : List Formula}
    (each : ∀ e ∈ es, ∀ e', e.Replaced r e' → List.Forall₂ r.column e.columnList e'.columnList)
    (h : List.Forall₂ (Replaced r) es es') :
    List.Forall₂ r.column (columnLists es) (columnLists es') := by
  induction h with
  | nil => exact .nil
  | @cons e e' es es' first _ ih =>
    rw [columnLists, columnLists]
    exact List.rel_append (each e (List.mem_cons_self ..) e' first)
      (ih fun a mem => each a (List.mem_cons_of_mem _ mem))

theorem Replaced.columnList (h : e.Replaced r e') :
    List.Forall₂ r.column e.columnList e'.columnList := by
  induction e using Formula.induction generalizing e' with
  | constant v => cases h; exact .nil
  | column name =>
    cases h with
    | column related => exact .cons related .nil
  | apply name args form ih =>
    cases h with
    | apply each => exact columnLists_replaced (fun a mem _ => ih a mem) each

theorem Replaced.columns (h : e.Replaced r e') : r.Sets e.columns e'.columns :=
  (Covers.of_forall₂ h.columnList).ofList

theorem columnsOfAll_replaced {es es' : List Formula} (h : List.Forall₂ (Replaced r) es es') :
    r.Sets (columnsOfAll es) (columnsOfAll es') :=
  (Covers.of_forall₂ (columnLists_replaced (fun _ _ _ => Replaced.columnList) h)).ofList

theorem Replaced.isWindowCall (h : e.Replaced r e') : e.isWindowCall = e'.isWindowCall := by
  cases h with
  | @apply name args args' form each =>
    cases form with
    | operator => rfl
    | call => rw [Formula.isWindowCall, Formula.isWindowCall, isEmpty_forall₂ each]
  | _ => rfl

theorem Replaced.isAggregate (h : e.Replaced r e') : e.isAggregate = e'.isAggregate := by
  cases h with
  | @apply name args args' form each => cases form <;> rfl
  | _ => rfl

end Formula

/-! ## Columns -/

section
variable {a b : String} {l l' m m' : List String}

theorem withMissing_replaced (unique : Relator.BiUnique r.column)
    (first : List.Forall₂ r.column l l') (second : List.Forall₂ r.column m m') :
    List.Forall₂ r.column (withMissing l m) (withMissing l' m') := by
  refine List.rel_append first (forall₂_filter (fun a b related => ?_) second)
  rw [contains_eq unique related first]

variable {pairs pairs' : List (String × String)}

theorem oldName_replaced (unique : Relator.BiUnique r.column)
    (h : List.Forall₂ (fun a b => r.column a.1 b.1 ∧ r.column a.2 b.2) pairs pairs')
    (related : r.column a b) : r.column (oldName pairs a) (oldName pairs' b) := by
  have found := rel_find (p := (·.1 = a)) (q := (·.1 = b))
    (fun x y same => by simp [eq_iff unique same.1 related]) h
  unfold oldName
  generalize pairs.find? (·.1 = a) = x, pairs'.find? (·.1 = b) = y at found
  cases found with
  | some same => exact same.2
  | none => exact related

theorem newName_replaced (unique : Relator.BiUnique r.column)
    (h : List.Forall₂ (fun a b => r.column a.1 b.1 ∧ r.column a.2 b.2) pairs pairs')
    (related : r.column a b) : r.column (newName pairs a) (newName pairs' b) := by
  have found := rel_find (p := (·.2 = a)) (q := (·.2 = b))
    (fun x y same => by simp [eq_iff unique same.2 related]) h
  unfold newName
  generalize pairs.find? (·.2 = a) = x, pairs'.find? (·.2 = b) = y at found
  cases found with
  | some same => exact same.1
  | none => exact related

theorem isRenamed_replaced (unique : Relator.BiUnique r.column)
    (h : List.Forall₂ (fun a b => r.column a.1 b.1 ∧ r.column a.2 b.2) pairs pairs')
    (related : r.column a b) : isRenamed pairs a = isRenamed pairs' b := by
  unfold isRenamed
  induction h with
  | nil => rfl
  | @cons x y l l' same _ ih =>
    have new : x.1 = a ↔ y.1 = b := eq_iff unique same.1 related
    have renamed : x.1 = x.2 ↔ y.1 = y.2 := eq_iff unique same.1 same.2
    rw [List.any_cons, List.any_cons, ih]
    simp only [beq_eq_decide, bne, new, renamed]

end

theorem assigned_names {l l' : List (String × Formula)} (h : List.Forall₂ (Assigned r) l l') :
    List.Forall₂ r.column (l.map (·.1)) (l'.map (·.1)) :=
  List.rel_map (fun _ _ same => same.1) h

theorem assigned_formulas {l l' : List (String × Formula)}
    (h : List.Forall₂ (Assigned r) l l') :
    List.Forall₂ (Formula.Replaced r) (l.map (·.2)) (l'.map (·.2)) :=
  List.rel_map (fun _ _ same => same.2) h

namespace Pipeline

variable {p p' : Pipeline} {u u' : NameSet}

theorem Replaced.columns (unique : Relator.BiUnique r.column) (h : p.Replaced r p') :
    List.Forall₂ r.column p.columns p'.columns := by
  induction h with
  | table h => exact h.columns
  | extension _ assigned _ ih => exact withMissing_replaced unique ih (assigned_names assigned)
  | filter _ _ ih => exact ih
  | selection _ names => exact names
  | removal _ names ih =>
    exact forall₂_filter (fun _ _ related => by rw [contains_eq unique related names]) ih
  | grouping _ assigned names => exact List.rel_append names (assigned_names assigned)
  | ordering _ _ ih => exact ih
  | relabeling _ names ih =>
    exact List.rel_map (fun _ _ related => newName_replaced unique names related) ih
  | join _ _ _ ihl ihr => exact withMissing_replaced unique ihl ihr

theorem Replaced.hasColumn (unique : Relator.BiUnique r.column) (h : p.Replaced r p')
    {a b : String} (related : r.column a b) : p.hasColumn a = p'.hasColumn b :=
  contains_eq unique related (h.columns unique)

theorem retained_replaced (unique : Relator.BiUnique r.column) (wanted : r.Sets u u')
    {assignments assignments' : List (String × Formula)}
    (h : List.Forall₂ (Assigned r) assignments assignments') :
    List.Forall₂ (Assigned r) (retained assignments u) (retained assignments' u') :=
  forall₂_filter (fun _ _ same => decide_eq_decide.2 (wanted.mem_iff unique same.1)) h

/-- A step asks for the same columns as before, replaced. -/
theorem Replaced.demand (unique : Relator.BiUnique r.column) (h : p.Replaced r p')
    (wanted : r.Sets u u') : List.Forall₂ r.Sets (p.demand u) (p'.demand u') := by
  cases h with
  | table => exact .nil
  | @extension source source' assignments assignments' window window' below assigned placed =>
    have kept := retained_replaced unique wanted assigned
    by_cases none : retained assignments u = []
    · have none' : retained assignments' u' = [] :=
        List.isEmpty_iff.1 ((isEmpty_forall₂ kept).symm.trans (List.isEmpty_iff.2 none))
      rw [demand_extension_nil none, demand_extension_nil none']
      exact .cons wanted .nil
    · have some' : retained assignments' u' ≠ [] := fun none' =>
        none (List.isEmpty_iff.1 ((isEmpty_forall₂ kept).trans (List.isEmpty_iff.2 none')))
      rw [demand_extension none, demand_extension some']
      have columns := (Covers.append wanted (.of_forall₂ placed.partitionBy)).append
        (.of_forall₂ placed.orderBy)
      have passed := columns.filter fun a b related => congrArg₂ (· && !·)
        (below.hasColumn unique related) (contains_eq unique related (assigned_names kept))
      exact .cons (passed.ofList.addAll
        (Formula.columnsOfAll_replaced (assigned_formulas kept))) .nil
  | filter _ h => exact .cons (wanted.addAll h.columns) .nil
  | selection => exact .cons wanted .nil
  | removal => exact .cons wanted .nil
  | grouping _ assigned names =>
    have kept := retained_replaced unique wanted assigned
    exact .cons ((Covers.of_forall₂ names).ofList.addAll
      (Formula.columnsOfAll_replaced (assigned_formulas kept))) .nil
  | ordering _ h => exact .cons (wanted.addAll (Covers.of_forall₂ h.orderBy)) .nil
  | relabeling _ names =>
    exact .cons (Covers.map (fun _ _ => oldName_replaced unique names) wanted).ofList .nil
  | join belowLeft belowRight names =>
    have keyed := wanted.addAll (Covers.of_forall₂ names)
    exact .cons (keyed.filter fun _ _ => belowLeft.hasColumn unique)
      (.cons (keyed.filter fun _ _ => belowRight.hasColumn unique) .nil)

end Pipeline

/-! ## Names and constants in place -/

namespace Formula

theorem replaced_self {e : Formula} (column : ∀ n ∈ e.columnList, r.column n n)
    (constant : ∀ v ∈ e.constants, r.constant v v) : e.Replaced r e := by
  induction e using Formula.induction with
  | constant v => exact .constant (constant v (List.mem_singleton.2 rfl))
  | column name => exact .column (column name (List.mem_singleton.2 rfl))
  | apply name args form ih =>
    refine .apply (List.forall₂_same.2 fun a mem =>
      ih a mem (fun n inside => ?_) fun v inside => ?_)
    · exact column n (mem_columnList_apply.2 ⟨a, mem, inside⟩)
    · exact constant v (mem_constantsOfAll.2 ⟨a, mem, inside⟩)

end Formula

namespace Pipeline

def allFormulas : Pipeline → List Formula
  | table _ => []
  | extension source assignments _ | grouping source assignments _ =>
    source.allFormulas ++ assignments.map (·.2)
  | filter source condition => source.allFormulas ++ [condition]
  | selection source _ | removal source _ | ordering source _ | relabeling source _ =>
    source.allFormulas
  | join left right _ _ => left.allFormulas ++ right.allFormulas

def stepNames : Pipeline → List String
  | table t => t.columns
  | extension source assignments window =>
    source.stepNames ++ assignments.map (·.1)
      ++ (window.partitionBy ++ window.orderBy ++ window.reverse)
  | filter source _ => source.stepNames
  | selection source names | removal source names => source.stepNames ++ names
  | grouping source assignments groupBy =>
    source.stepNames ++ assignments.map (·.1) ++ groupBy
  | ordering source order => source.stepNames ++ (order.orderBy ++ order.reverse)
  | relabeling source pairs => source.stepNames ++ (pairs.map (·.1) ++ pairs.map (·.2))
  | join left right keys _ => left.stepNames ++ right.stepNames ++ keys

def columnNames (p : Pipeline) : List String :=
  p.stepNames ++ p.allFormulas.flatMap Formula.columnList

def allNames (p : Pipeline) : List String :=
  p.columnNames ++ p.leaves.flatMap fun t => t.name :: t.qualifiers.entries.map (·.2)

def constants (p : Pipeline) : List Value := p.allFormulas.flatMap Formula.constants

theorem leaf_stepNames {p : Pipeline} {t : TableRef} (leaf : t ∈ p.leaves) {name : String}
    (mem : name ∈ t.columns) : name ∈ p.stepNames := by
  induction p with
  | table s =>
    obtain rfl := List.mem_singleton.1 leaf
    exact mem
  | extension _ _ _ ih | grouping _ _ _ ih =>
    exact List.mem_append_left _ (List.mem_append_left _ (ih leaf))
  | filter _ _ ih => exact ih leaf
  | selection _ _ ih | removal _ _ ih | ordering _ _ ih | relabeling _ _ ih =>
    exact List.mem_append_left _ (ih leaf)
  | join left right _ _ ihl ihr =>
    obtain leaf | leaf := List.mem_append.1 leaf
    · exact List.mem_append_left _ (List.mem_append_right _ (ihr leaf))
    · exact List.mem_append_left _ (List.mem_append_left _ (ihl leaf))

theorem assigned_self {assignments : List (String × Formula)}
    (names : ∀ n ∈ assignments.map (·.1), r.column n n)
    (each : ∀ e ∈ assignments.map (·.2), e.Replaced r e) :
    List.Forall₂ (Assigned r) assignments assignments :=
  List.forall₂_same.2 fun _ mem =>
    ⟨names _ (List.mem_map_of_mem mem), each _ (List.mem_map_of_mem mem)⟩

/-- A pipeline is replaced by itself if each of its names and constants may be. -/
theorem replaced_self {p : Pipeline} (column : ∀ n ∈ p.stepNames, r.column n n)
    (each : ∀ e ∈ p.allFormulas, e.Replaced r e) (tables : ∀ t ∈ p.leaves, t.Replaced r t) :
    p.Replaced r p := by
  induction p with
  | table t => exact .table (tables t (List.mem_singleton.2 rfl))
  | extension source assignments window ih =>
    simp only [stepNames, allFormulas, List.forall_mem_append] at column each
    obtain ⟨⟨below, names⟩, ⟨partitionBy, orderBy⟩, reverse⟩ := column
    exact .extension (ih below each.1 tables) (assigned_self names each.2)
      ⟨List.forall₂_same.2 partitionBy, List.forall₂_same.2 orderBy, List.forall₂_same.2 reverse⟩
  | filter source condition ih =>
    simp only [allFormulas, List.forall_mem_append, List.forall_mem_singleton] at each
    exact .filter (ih column each.1 tables) each.2
  | selection source names ih =>
    obtain ⟨below, names⟩ := List.forall_mem_append.1 column
    exact .selection (ih below each tables) (List.forall₂_same.2 names)
  | removal source names ih =>
    obtain ⟨below, names⟩ := List.forall_mem_append.1 column
    exact .removal (ih below each tables) (List.forall₂_same.2 names)
  | grouping source assignments groupBy ih =>
    simp only [stepNames, allFormulas, List.forall_mem_append] at column each
    obtain ⟨⟨below, names⟩, groupBy⟩ := column
    exact .grouping (ih below each.1 tables) (assigned_self names each.2)
      (List.forall₂_same.2 groupBy)
  | ordering source order ih =>
    simp only [stepNames, List.forall_mem_append] at column
    obtain ⟨below, orderBy, reverse⟩ := column
    exact .ordering (ih below each tables)
      ⟨List.forall₂_same.2 orderBy, List.forall₂_same.2 reverse, rfl⟩
  | relabeling source pairs ih =>
    simp only [stepNames, List.forall_mem_append] at column
    obtain ⟨below, new, old⟩ := column
    exact .relabeling (ih below each tables) (List.forall₂_same.2 fun _ mem =>
      ⟨new _ (List.mem_map_of_mem mem), old _ (List.mem_map_of_mem mem)⟩)
  | join left right keys type ihl ihr =>
    simp only [stepNames, allFormulas, leaves, List.forall_mem_append] at column each tables
    obtain ⟨⟨left, right⟩, keys⟩ := column
    exact .join (ihl left each.1 tables.2) (ihr right each.2 tables.1)
      (List.forall₂_same.2 keys)

end Pipeline

end TableFlow
