import TableFlow.Proofs.Formula.RoundTrip
import TableFlow.Proofs.Sql.Grouping
import TableFlow.Proofs.Sql.Words

/-!
# Formulas and the groups of their SQL text

The text of a formula is grouped as the formula is just if each `not` in it has one argument and
stands apart from tighter operators, and no function is called by a word that SQL keeps for
itself (`text_groups_iff`). An operation in an operand stands in parentheses, and so does a test
with `IS NULL`, but `NOT` with its argument does not: an operator that binds tighter takes the
argument of a `NOT` on its left, and leaves the `NOT` behind.
-/

namespace TableFlow.Sql

open Formula (binary call operatorNames tightNames)

variable {name op : String} {a b c e : Formula} {args : List Formula} {base : Base}
  {grouped : Bool} {t : Term} {ts : List Term}

/-! ## Formulas of plain SQL -/

/-- A function that is written as a call, under a word. -/
structure Callable (name : String) : Prop where
  plain : builtinForms.get? (renamed name) = none
  word : IsWord (sqlName name)

/-- A function whose word has no other use in SQL. -/
structure Ordinary (name : String) : Prop extends Callable name where
  free : folded (sqlName name) ∉ reserved

/-- The functions that are not written as a call of a word. -/
def special : List String := ["not", "is_null", "if_else"]

/-- A formula of columns, constants, operators, `not`, `is_null`, `if_else` and calls of
functions that fit. -/
inductive Expressible (fits : String → Prop) : Formula → Prop where
  | constant {v : Value} : Expressible fits (.constant v)
  | column {name : String} : Expressible fits (.column name)
  | binary {op : String} {a b : Formula} : op ∈ operatorNames → Expressible fits a →
      Expressible fits b → Expressible fits (binary op a b)
  | call {name : String} {args : List Formula} :
      name ∈ special ∨ fits name → (∀ a ∈ args, Expressible fits a) →
      Expressible fits (call name args)

/-- Any word of a formula may be called, but for the special functions. -/
theorem callable_of_word (word : Formula.IsWord name) (plain : name ∉ special) : Callable name where
  word := isWord_sqlName word
  plain := by
    simp only [special, List.mem_cons, List.not_mem_nil, or_false, not_or] at plain
    unfold renamed
    cases found : defaultRenames.get? name with
    | none => rw [Option.getD_none, builtinForms_get?, if_neg plain.2.1, if_neg plain.2.2]
    | some other =>
      have known := NameMap.mem_of_get?_ofList found
      simp only [List.mem_cons, List.not_mem_nil, or_false, Prod.mk.injEq] at known
      rcases known with ⟨-, rfl⟩ | ⟨-, rfl⟩ | ⟨-, rfl⟩ | ⟨-, rfl⟩ <;> rfl

/-- Every parsed formula is of plain SQL. -/
theorem expressible_of_parse {source : String} {scope : Formula.Scope}
    (h : Formula.parse source scope = .ok e) : Expressible Callable e := by
  have spelled := Formula.parse_spelled h
  clear h
  induction spelled with
  | constant => exact .constant
  | column => exact .column
  | binary known _ _ left right => exact .binary known left right
  | @call name args word _ each =>
    by_cases plain : name ∈ special
    · exact .call (.inl plain) each
    · exact .call (.inr (callable_of_word word plain)) each

/-! ## Groups -/

/-- A constant by itself. Numbers have their sign apart, and what has no literal is null or
converted to a double. -/
def constantTree : Value → Tree
  | .null => .literal "NULL"
  | .bool true => .literal "TRUE"
  | .bool false => .literal "FALSE"
  | .int i => plainTree (toString i.toInt)
  | .float x =>
    if x.isNaN then .literal "NULL"
    else if x.isInf then .double (.text (if x > 0.0 then "Infinity" else "-Infinity"))
    else plainTree (Value.layout.finite x)
  | .text s => .text s

def calledTree (name : String) (args : List Tree) : Tree :=
  match name, args with
  | "not", [a] => .not a
  | "is_null", [a] => .isNull a
  | "if_else", [c, a, b] => .choice c a b
  | _, args => .call (folded (sqlName name)) args

def appliedTree (name : String) : Form → List Tree → Tree
  | .operator, [a, b] => .operation (sqlName name) a b
  | _, args => calledTree name args

mutual

/-- The groups of a formula, under the names of SQL. -/
def shape : Formula → Tree
  | .constant v => constantTree v
  | .column name => .name name
  | .apply name args form => appliedTree name form (shapes args)

def shapes : List Formula → List Tree
  | [] => []
  | e :: rest => shape e :: shapes rest

end

/-- A `not` has one argument and stands neither left of a tighter operator nor in a test for
null, and the word of any other function has no other use in SQL. -/
def keepsHere (name : String) : Form → List Formula → Bool
  | .operator, args => !(tightNames.contains name && args.head?.any Formula.isNot)
  | .call, args =>
    if name = "not" then args.length = 1
    else if name = "is_null" then !args.head?.any Formula.isNot
    else !reserved.contains (folded (sqlName name))

mutual

/-- The text of a formula keeps its groups. -/
def keepsGroups : Formula → Bool
  | .constant _ => true
  | .column _ => true
  | .apply name args form => keepsHere name form args && keepsAll args

def keepsAll : List Formula → Bool
  | [] => true
  | e :: rest => keepsGroups e && keepsAll rest

end

/-! ## What is written -/

/-- What the text of a formula as a term is like. -/
structure Written (grouped : Bool) (e : Formula) (t : Term) : Prop where
  readable : t.Readable
  grouped : grouped = true → t.Grouped
  bare : t.isNot = Formula.isNot e
  groups : t.regroup = some (shape e) ↔ keepsGroups e = true

abbrev WrittenAll : List Formula → List Term → Prop := List.Forall₂ (Written true)

namespace WrittenAll

theorem readable (h : WrittenAll args ts) : ∀ t ∈ ts, t.Readable ∧ t.Grouped := by
  intro t mem
  obtain ⟨e, -, written⟩ := exists_of_forall₂ h mem
  exact ⟨written.readable, written.grouped rfl⟩

theorem groups (h : WrittenAll args ts) :
    Term.regroupAll ts = some (shapes args) ↔ keepsAll args = true := by
  induction h with
  | nil => simp [Term.regroupAll, shapes, keepsAll]
  | @cons e t args ts first _ ih =>
    simp only [Term.regroupAll, shapes, keepsAll, Bool.and_eq_true, ← first.groups, ← ih]
    cases t.regroup <;> cases Term.regroupAll ts <;> simp

end WrittenAll

theorem terms_written (each : ∀ a ∈ args,
    Ends ((Dialect.ofBase base).term true a) (Written true a) fun _ => True) :
    Ends ((Dialect.ofBase base).terms args) (WrittenAll args) fun _ => True := by
  induction args with
  | nil => exact List.Forall₂.nil
  | cons a args ih =>
    refine (each a (List.mem_cons_self ..)).bind fun t first => ?_
    refine (ih fun b mem => each b (List.mem_cons_of_mem _ mem)).bind fun ts others => ?_
    exact List.Forall₂.cons first others

/-! ## Constants and columns -/

theorem readable_int {i : Int} : Term.Readable (.plain (toString i)) := by
  cases i with
  | ofNat n => exact .number (.inl (Number.digits_toString n)) (.inl rfl)
  | negSucc n =>
    refine .number (.inl (Number.digits_toString (n + 1))) (.inr ?_)
    have text : toString (Int.negSucc n) = "-" ++ toString (n + 1) := rfl
    rw [text, String.toList_append]
    rfl

theorem written_constant {v : Value} (readable : t.Readable) (atom : t.Grouped)
    (bare : t.isNot = false) (tree : t.regroup = some (constantTree v)) :
    Written grouped (.constant v) t where
  readable := readable
  grouped _ := atom
  bare := bare
  groups := by simp [shape, keepsGroups, tree]

theorem written_ofValue {v : Value} : Written grouped (.constant v) (.ofValue v) := by
  cases v with
  | null => exact written_constant (.literal (by decide)) trivial rfl rfl
  | bool b => cases b <;> exact written_constant (.literal (by decide)) trivial rfl rfl
  | int i => exact written_constant readable_int trivial rfl rfl
  | text s => exact written_constant .text trivial rfl rfl
  | float x =>
    have tree : constantTree (.float x) = if x.isNaN then .literal "NULL"
      else if x.isInf then .double (.text (if x > 0.0 then "Infinity" else "-Infinity"))
      else plainTree (Value.layout.finite x) := rfl
    simp only [Term.ofValue]
    split
    · rename_i nan
      rw [if_pos nan] at tree
      exact written_constant (.literal (by decide)) trivial rfl (tree ▸ rfl)
    · rename_i number
      rw [if_neg number] at tree
      split
      · rename_i infinite
        rw [if_pos infinite] at tree
        exact written_constant .double trivial rfl (tree ▸ rfl)
      · rename_i finite
        rw [if_neg finite] at tree
        obtain ⟨body, decimal, text⟩ := Number.finite_text x
        exact written_constant (.number (.inr decimal) text) trivial rfl (tree ▸ rfl)

theorem written_name (plain : '"' ∉ name.toList) : Written grouped (.column name) (.name name) where
  readable := .name plain
  grouped _ := trivial
  bare := rfl
  groups := by simp [Term.regroup, shape, keepsGroups]

theorem column_written : Ends ((Dialect.ofBase base).term grouped (.column name))
    (Written grouped (.column name)) fun _ => True := by
  rw [Dialect.term.eq_def]
  simp only [Dialect.checkName]
  split
  · trivial
  · rename_i plain
    have quote : (Dialect.ofBase base).settings.nameQuote = '"' := rfl
    exact written_name (by simpa [quote] using plain)

/-! ## Operators and functions -/

theorem sqlName_operator : ∀ op ∈ operatorNames, sqlName op ∈ operators ∧
    builtinForms.get? (renamed op) = none ∧
    decide (notLevel ≤ level (sqlName op)) = tightNames.contains op := by
  decide +kernel

/-- A bare `NOT` in front of what binds tighter stays outermost. -/
theorem regroup_onLeft {tight : Bool} {step : Tree → Tree} {z : Tree} (inner : ∀ y, z ≠ .not y) :
    t.regroup.map (onLeft (t.isNot && tight) step) = some z ↔
      (t.isNot && tight) = false ∧ t.regroup.map step = some z := by
  cases bare : t.isNot && tight with
  | false =>
    have same : onLeft false step = step := rfl
    simp [same]
  | true =>
    have not : t.isNot = true := (Bool.and_eq_true_iff.1 bare).1
    obtain ⟨x, same⟩ := Term.regroup_of_isNot not
    have outer : ∀ y, onLeft true step (.not y) ≠ z := fun y => (inner _).symm
    cases x <;> simp [same, outer]

theorem written_binary {ta tb : Term} (known : op ∈ operatorNames) (ha : Written true a ta)
    (hb : Written true b tb) :
    Written grouped (binary op a b) (.operation grouped (sqlName op) ta tb) := by
  obtain ⟨operator, -, tight⟩ := sqlName_operator op known
  refine ⟨.operation operator ha.readable (ha.grouped rfl) hb.readable (hb.grouped rfl), id, rfl,
    ?_⟩
  have keeps : keepsGroups (binary op a b) = true ↔
      (ta.isNot && notLevel ≤ level (sqlName op)) = false ∧ ta.regroup = some (shape a) ∧
        tb.regroup = some (shape b) := by
    rw [ha.groups, hb.groups, ha.bare, tight, Bool.and_comm]
    simp [binary, keepsGroups, keepsAll, keepsHere, imp_iff_not_or]
  -- the right operand is kept apart: with it the step behind the left one is fixed
  have whole : ∀ right, ta.regroup.map (onLeft (ta.isNot && notLevel ≤ level (sqlName op))
      (.operation (sqlName op) · right)) = some (.operation (sqlName op) (shape a) (shape b)) ↔
        (ta.isNot && notLevel ≤ level (sqlName op)) = false ∧ ta.regroup = some (shape a) ∧
          right = shape b := by
    intro right
    rw [regroup_onLeft (by simp)]
    cases ta.regroup <;> simp
  have tree : shape (binary op a b) = .operation (sqlName op) (shape a) (shape b) := rfl
  rw [keeps, tree, Term.regroup]
  cases tb.regroup with
  | none => cases ta.regroup <;> simp
  | some right =>
    rw [Option.some_inj, ← whole]
    cases ta.regroup <;> rfl

theorem written_isNull {ta : Term} (ha : Written true a ta) :
    Written grouped (call "is_null" [a]) (.isNull ta) := by
  have keeps : keepsGroups (call "is_null" [a]) = true ↔
      (ta.isNot && true) = false ∧ ta.regroup = some (shape a) := by
    rw [ha.groups, ha.bare, Bool.and_true]
    simp [call, keepsGroups, keepsAll, keepsHere]
  have tree : shape (call "is_null" [a]) = .isNull (shape a) := rfl
  refine ⟨.isNull ha.readable (ha.grouped rfl), fun _ => trivial, rfl, ?_⟩
  rw [keeps, tree, Term.regroup, ← Bool.and_true ta.isNot, regroup_onLeft (by simp)]
  cases ta.regroup <;> simp

theorem written_ifElse {tc ta tb : Term} (hc : Written false c tc) (ha : Written false a ta)
    (hb : Written false b tb) : Written grouped (call "if_else" [c, a, b]) (.choice tc ta tb) := by
  have keeps : keepsGroups (call "if_else" [c, a, b]) = true ↔ tc.regroup = some (shape c) ∧
      ta.regroup = some (shape a) ∧ tb.regroup = some (shape b) := by
    have free : folded (sqlName "if_else") ∉ reserved := by decide +kernel
    rw [hc.groups, ha.groups, hb.groups]
    simp [call, keepsGroups, keepsAll, keepsHere, free]
  have tree : shape (call "if_else" [c, a, b]) = .choice (shape c) (shape a) (shape b) := rfl
  refine ⟨.choice hc.readable ha.readable hb.readable, fun _ => trivial, rfl, ?_⟩
  rw [keeps, tree, Term.regroup]
  cases tc.regroup <;> cases ta.regroup <;> cases tb.regroup <;> simp

theorem written_not (h : WrittenAll args ts) :
    Written grouped (call "not" args) (.call (sqlName "not") ts) := by
  have readable := h.readable
  have word : sqlName "not" = "NOT" := by decide +kernel
  rw [word]
  refine ⟨.call (by decide) (.inl rfl) (fun t mem => (readable t mem).1)
    (fun t mem => (readable t mem).2), fun _ => trivial, rfl, ?_⟩
  rw [Term.regroup_not]
  match h with
  | .nil => simp [Term.negated, call, keepsGroups, keepsHere]
  | .cons (a := a) (b := t) first .nil =>
    have keeps : keepsGroups (call "not" [a]) = keepsGroups a := by
      simp [call, keepsGroups, keepsAll, keepsHere]
    have tree : shape (call "not" [a]) = .not (shape a) := rfl
    rw [keeps, tree, Term.negated, ← first.groups]
    cases t.regroup <;> simp
  | .cons _ (.cons _ _) => simp [Term.negated, call, keepsGroups, keepsHere]

theorem not_special (h : Ordinary name) : name ∉ special := by
  intro known
  simp only [special, List.mem_cons, List.not_mem_nil, or_false] at known
  obtain rfl | rfl | rfl := known
  · exact h.free (by decide +kernel)
  · exact absurd h.plain (by decide)
  · exact absurd h.plain (by decide)

theorem calledTree_plain {trees : List Tree} (plain : name ∉ special) :
    calledTree name trees = .call (folded (sqlName name)) trees := by
  unfold calledTree
  split
  · exact absurd plain (by decide)
  · exact absurd plain (by decide)
  · exact absurd plain (by decide)
  · rfl

theorem ne_of_not_special (plain : name ∉ special) : name ≠ "not" ∧ name ≠ "is_null" := by
  simp only [special, List.mem_cons, not_or] at plain
  exact ⟨plain.1, plain.2.1⟩

theorem written_ordinary (ordinary : Ordinary name) (h : WrittenAll args ts) :
    Written grouped (call name args) (.call (sqlName name) ts) := by
  have apart := ne_of_not_special (not_special ordinary)
  have other : sqlName name ≠ "NOT" := by
    intro same
    exact ordinary.free (by rw [same]; decide)
  have keeps : keepsGroups (call name args) = true ↔ Term.regroupAll ts = some (shapes args) := by
    rw [h.groups]
    simp [call, keepsGroups, keepsHere, apart, ordinary.free]
  have tree : shape (call name args) = .call (folded (sqlName name)) (shapes args) :=
    calledTree_plain (not_special ordinary)
  have readable := h.readable
  refine ⟨.call ordinary.word (.inr ordinary.free) (fun t mem => (readable t mem).1)
    (fun t mem => (readable t mem).2), fun _ => trivial, ?_, ?_⟩
  · simp [Term.isNot, other, Formula.isNot, call, apart]
  · rw [keeps, tree, Term.regroup]
    cases Term.regroupAll ts <;> simp [ofCall, other]

/-- Whatever is written for a formula of plain SQL is readable, and grouped as the formula is
just if its `not`s stand apart. -/
theorem term_written (expressible : Expressible Ordinary e) : ∀ grouped,
    Ends ((Dialect.ofBase base).term grouped e) (Written grouped e) fun _ => True := by
  induction expressible with
  | constant => exact fun grouped => written_ofValue
  | column => exact fun grouped => column_written
  | @binary op a b known _ _ ha hb =>
    intro grouped
    have plain : (Dialect.ofBase base).forms.get? ((Dialect.ofBase base).rename op) = none :=
      (sqlName_operator op known).2.1
    rw [binary, Dialect.term.eq_def]
    simp only [plain]
    exact (ha true).bind fun ta left => (hb true).bind fun tb right =>
      written_binary known left right
  | @call name args kind inner each =>
    intro grouped
    have form : (Dialect.ofBase base).forms.get? ((Dialect.ofBase base).rename name) =
      builtinForms.get? (renamed name) := rfl
    have terms : Ends ((Dialect.ofBase base).terms args) (WrittenAll args) fun _ => True :=
      terms_written fun a mem => each a mem true
    rw [call, Dialect.term.eq_def]
    simp only [form]
    obtain known | ordinary := kind
    · simp only [special, List.mem_cons, List.not_mem_nil, or_false] at known
      obtain rfl | rfl | rfl := known
      · exact terms.bind fun ts => written_not
      · have plain : builtinForms.get? (renamed "is_null") = some .isNull := by decide
        simp only [plain]
        split
        · rename_i a
          exact (each a (by simp) true).bind fun ta => written_isNull
        · trivial
      · have plain : builtinForms.get? (renamed "if_else") = some .choice := by decide
        simp only [plain]
        split
        · rename_i c a b
          refine (each c (by simp) false).bind fun tc condition => ?_
          refine (each a (by simp) false).bind fun ta whenTrue => ?_
          exact (each b (by simp) false).bind fun tb => written_ifElse condition whenTrue
        · trivial
    · simp only [ordinary.plain]
      exact terms.bind fun ts => written_ordinary ordinary

/-! ## Words of another use -/

theorem shapes_eq : shapes args = args.map shape := by
  induction args with
  | nil => rfl
  | cons a args ih => rw [shapes, ih, List.map_cons]

theorem keepsAll_eq : keepsAll args = args.all keepsGroups := by
  induction args with
  | nil => rfl
  | cons a args ih => rw [keepsAll, ih, List.all_cons]

theorem freeAll_iff {trees : List Tree} : Tree.FreeAll trees ↔ ∀ x ∈ trees, x.Free := by
  induction trees with
  | nil => simp [Tree.FreeAll]
  | cons x trees ih => simp [Tree.FreeAll, ih]

theorem freeAll_of_called {trees : List Tree} (free : (calledTree name trees).Free) :
    Tree.FreeAll trees := by
  unfold calledTree at free
  split at free <;> simp_all [Tree.Free, Tree.FreeAll]

/-- What calls a word of another use has groups that are never read. -/
theorem ordinary_or_unread (expressible : Expressible Callable e) :
    Expressible Ordinary e ∨ ¬ (shape e).Free ∧ keepsGroups e = false := by
  induction expressible with
  | constant => exact .inl .constant
  | column => exact .inl .column
  | @binary op a b known _ _ iha ihb =>
    obtain ordinarya | ⟨unread, drops⟩ := iha
    · obtain ordinaryb | ⟨unread, drops⟩ := ihb
      · exact .inl (.binary known ordinarya ordinaryb)
      · exact .inr ⟨fun free => unread free.2, by simp [binary, keepsGroups, keepsAll, drops]⟩
    · exact .inr ⟨fun free => unread free.1, by simp [binary, keepsGroups, keepsAll, drops]⟩
  | @call name args kind inner each =>
    have tree : shape (call name args) = calledTree name (args.map shape) := by
      rw [← shapes_eq]
      rfl
    by_cases all : ∀ a ∈ args, Expressible Ordinary a
    · by_cases plain : name ∈ special
      · exact .inl (.call (.inl plain) all)
      have callable := kind.resolve_left plain
      by_cases free : folded (sqlName name) ∉ reserved
      · exact .inl (.call (.inr ⟨callable, free⟩) all)
      refine .inr ⟨fun read => ?_, ?_⟩
      · rw [tree, calledTree_plain plain] at read
        exact free read.1
      · have apart := ne_of_not_special plain
        simp [call, keepsGroups, keepsHere, apart, not_not.1 free]
    · obtain ⟨a, mem, other⟩ : ∃ a ∈ args, ¬ Expressible Ordinary a := by simpa using all
      obtain ⟨unread, drops⟩ := (each a mem).resolve_left other
      refine .inr ⟨fun free => ?_, ?_⟩
      · rw [tree] at free
        exact unread (freeAll_iff.1 (freeAll_of_called free) _ (List.mem_map_of_mem mem))
      · rw [call, keepsGroups, keepsAll_eq, Bool.and_eq_false_iff]
        exact .inr (List.all_eq_false.2 ⟨a, mem, by simp [drops]⟩)

/-! ## The text -/

/-- The text of a formula of plain SQL, and so of any that is parsed, is grouped as the formula
is, under the names of SQL, just if each `not` has one argument and stands apart from tighter
operators and tests for null, and no function is called by a word of another use. -/
theorem text_groups_iff {text : String}
    (plain : Expressible Callable e ∨ ∃ source scope, Formula.parse source scope = .ok e)
    (written : (Dialect.ofBase base).formulaText grouped e = .ok text) :
    read? text = some (shape e) ↔ keepsGroups e = true := by
  have expressible : Expressible Callable e :=
    plain.elim id fun ⟨_, _, parsed⟩ => expressible_of_parse parsed
  obtain ⟨t, term, same⟩ := bind_eq_ok.1 written
  cases same
  -- what calls a reserved word need not even scan to readable tokens: there the reader decides
  obtain ordinary | ⟨unread, drops⟩ := ordinary_or_unread expressible
  · have result := (term_written ordinary grouped).of_eq_ok term
    rw [Term.read?_pieces result.readable, result.groups]
  · rw [drops]
    exact iff_of_false (fun read => unread (free_of_read? read)) Bool.false_ne_true

theorem text_groups_iff_negated :
    let e := binary "and" (binary ">" (.column "a") (Formula.int 1))
      (call "not" [call "is_null" [.column "b"]])
    let text := "(\"a\" > 1) AND NOT((\"b\" IS NULL))"
    Expressible Callable e ∧ Formula.parse "a > 1 and not is_null(b)" ⟨["a", "b"], .empty⟩ = .ok e ∧
      (Dialect.ofBase .generic).formulaText false e = .ok text ∧ read? text = some (shape e) := by
  intro e text
  have test : Expressible Callable (call "is_null" [.column "b"]) :=
    .call (.inl (by decide)) (by simpa using Expressible.column)
  have negated : Expressible Callable (call "not" [call "is_null" [.column "b"]]) :=
    .call (.inl (by decide)) (by simpa using test)
  have expressible : Expressible Callable e :=
    .binary (by decide) (.binary (by decide) .column .constant) negated
  have parsed : Formula.parse "a > 1 and not is_null(b)" ⟨["a", "b"], .empty⟩ = .ok e := by
    decide +kernel
  have written : (Dialect.ofBase .generic).formulaText false e = .ok text := by decide +kernel
  exact ⟨expressible, parsed, written,
    (text_groups_iff (.inr ⟨_, _, parsed⟩) written).2 (by decide +kernel)⟩

/-- A `NOT` left of a comparison negates the comparison when its text is read. -/
theorem not_left_groups_apart :
    let e := binary "==" (call "not" [.column "a"]) (.column "b")
    let text := "NOT(\"a\") = \"b\""
    Expressible Callable e ∧ Formula.parse "(not a) == b" ⟨["a", "b"], .empty⟩ = .ok e ∧
      (Dialect.ofBase .generic).formulaText false e = .ok text ∧
      shape e = .operation "=" (.not (.name "a")) (.name "b") ∧
      read? text = some (.not (.operation "=" (.name "a") (.name "b"))) ∧
      read? text ≠ some (shape e) := by
  intro e text
  have negated : Expressible Callable (call "not" [.column "a"]) :=
    .call (.inl (by decide)) (by simpa using Expressible.column)
  have expressible : Expressible Callable e := .binary (by decide) negated .column
  have parsed : Formula.parse "(not a) == b" ⟨["a", "b"], .empty⟩ = .ok e := by decide +kernel
  have written : (Dialect.ofBase .generic).formulaText false e = .ok text := by decide +kernel
  have scanned : scan text = some [.word "NOT", .symbol "(", .name "a", .symbol ")", .symbol "=",
      .name "b"] := by
    decide +kernel
  have name : sqlName "==" = "=" := by decide +kernel
  have tree : shape e = .operation (sqlName "==") (.not (.name "a")) (.name "b") := rfl
  rw [name] at tree
  have read : read? text = some (.not (.operation "=" (.name "a") (.name "b"))) := by
    rw [read?, scanned]
    rfl
  exact ⟨expressible, parsed, written, tree, read, by simp [read, tree]⟩

end TableFlow.Sql
