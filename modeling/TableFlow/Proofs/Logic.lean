import TableFlow.Proofs.Eval.Steps
import TableFlow.Proofs.Sql.Items

/-!
# Three-valued logic in both backends

`Term.truth?` is what standard SQL makes of the logical constructs of an expression, with
unknown for null. On truth values and nulls a formula of logical functions (`Logical`) always
evaluates, and to the value of its SQL expression wherever no null condition decides: for
`if_else` of a null condition the evaluation gives null, where `CASE` takes its second branch
(`logic_agrees_iff`).
-/

namespace TableFlow

/-! ## Truth values of SQL -/

namespace Sql

/-- How true a truth value is; unknown is between false and true. -/
def degree : Option Bool → Nat
  | some false => 0
  | none => 1
  | some true => 2

def lesser (p q : Option Bool) : Option Bool := if degree p ≤ degree q then p else q

def greater (p q : Option Bool) : Option Bool := if degree p ≤ degree q then q else p

/-- The first truth value that is not unknown. -/
def firstKnown (ps : List (Option Bool)) : Option Bool := (ps.find? (·.isSome)).join

/-- The branch of a `CASE` with one condition; the second one unless the condition is true. -/
def branch (condition whenTrue whenFalse : Option Bool) : Option Bool :=
  if condition = some true then whenTrue else whenFalse

namespace Term

mutual

/-- The value of a logical expression in standard SQL, for the truth values of the columns. -/
def truth? (row : String → Option Bool) : Term → Option (Option Bool)
  | plain s =>
    if s = "NULL" then some none
    else if s = "TRUE" then some (some true)
    else if s = "FALSE" then some (some false)
    else none
  | name s => some (row s)
  | text _ | double _ => none
  | operation _ op a b => do
    let p ← a.truth? row
    let q ← b.truth? row
    if op = "AND" then some (lesser p q)
    else if op = "OR" then some (greater p q)
    else none
  | call function args => do
    match function, ← truths? row args with
    | "NOT", [p] => some (p.map (!·))
    | "COALESCE", p :: ps => some (firstKnown (p :: ps))
    | _, _ => none
  | isNull a => do some (some (← a.truth? row).isNone)
  | choice c a b => do
    let p ← c.truth? row
    let q ← a.truth? row
    some (branch p q (← b.truth? row))

def truths? (row : String → Option Bool) : List Term → Option (List (Option Bool))
  | [] => some []
  | t :: rest => do
    let p ← t.truth? row
    some (p :: (← truths? row rest))

end

end Term

end Sql

/-! ## Logical formulas -/

namespace Formula

inductive Connects : String → Nat → Form → Prop
  | and : Connects "and" 2 .operator
  | or : Connects "or" 2 .operator
  | not {form : Form} : Connects "not" 1 form
  | isNull {form : Form} : Connects "is_null" 1 form
  | ifElse {form : Form} : Connects "if_else" 3 form
  | coalesce {n : Nat} {form : Form} (some : 0 < n) (call : form = .operator → n ≠ 2) :
    Connects "coalesce" n form

/-- A formula of truth values, null, columns and logical functions. -/
inductive Logical : Formula → Prop
  | null : Logical (.constant .null)
  | bool {b : Bool} : Logical (.constant (.bool b))
  | column {name : String} : Logical (.column name)
  | apply {name : String} {args : List Formula} {form : Form}
    (connects : Connects name args.length form) (each : ∀ a ∈ args, Logical a) :
    Logical (.apply name args form)

/-- A formula inside another one, or that formula itself. -/
inductive Within (sub : Formula) : Formula → Prop
  | refl : Within sub sub
  | arg {name : String} {args : List Formula} {form : Form} {a : Formula} (mem : a ∈ args)
    (within : Within sub a) : Within sub (.apply name args form)

variable {sub e : Formula}

theorem Logical.within (logical : e.Logical) (within : Within sub e) : sub.Logical := by
  induction within with
  | refl => exact logical
  | arg mem _ ih =>
    cases logical with
    | apply _ each => exact ih (each _ mem)

theorem within_constant {v : Value} : Within sub (.constant v) ↔ sub = .constant v := by
  constructor
  · rintro ⟨⟩
    rfl
  · rintro rfl
    exact .refl

theorem within_column {name : String} : Within sub (.column name) ↔ sub = .column name := by
  constructor
  · rintro ⟨⟩
    rfl
  · rintro rfl
    exact .refl

theorem within_apply {name : String} {args : List Formula} {form : Form} :
    Within sub (.apply name args form) ↔
      sub = .apply name args form ∨ ∃ a ∈ args, Within sub a := by
  constructor
  · rintro (_ | ⟨mem, within⟩)
    exacts [.inl rfl, .inr ⟨_, mem, within⟩]
  · rintro (rfl | ⟨a, mem, within⟩)
    exacts [.refl, .arg mem within]

theorem Within.trans {mid : Formula} (inner : Within sub mid) (outer : Within mid e) :
    Within sub e := by
  induction outer with
  | refl => exact inner
  | arg mem _ ih => exact .arg mem ih

theorem Within.columns (within : Within sub e) {c : String} (mem : c ∈ sub.columns) :
    c ∈ e.columns := by
  rw [mem_columns] at mem ⊢
  induction within with
  | refl => exact mem
  | arg inside _ ih => exact mem_columnList_apply.2 ⟨_, inside, ih⟩

/-! ## Meanings

The two backends differ in what an `if_else` gives: their meanings are one function of that. -/

/-- The truth value of a logical function, for a given meaning of `if_else`. -/
def connective (choice : Option Bool → Option Bool → Option Bool → Option Bool) :
    String → List (Option Bool) → Option Bool
  | "and", [p, q] => Eval.and3 p q
  | "or", [p, q] => Eval.or3 p q
  | "not", [p] => p.map (!·)
  | "is_null", [p] => some p.isNone
  | "if_else", [c, a, b] => choice c a b
  | "coalesce", ps => Sql.firstKnown ps
  | _, _ => none

mutual

/-- The truth value of a logical formula, for given truth values of the columns. -/
def meaning (choice : Option Bool → Option Bool → Option Bool → Option Bool)
    (row : String → Option Bool) : Formula → Option Bool
  | constant v => v.toBool?
  | column name => row name
  | apply name args _ => connective choice name (meanings choice row args)

def meanings (choice : Option Bool → Option Bool → Option Bool → Option Bool)
    (row : String → Option Bool) : List Formula → List (Option Bool)
  | [] => []
  | e :: rest => e.meaning choice row :: meanings choice row rest

end

section
variable {choice choice' : Option Bool → Option Bool → Option Bool → Option Bool}
  {row : String → Option Bool} {name : String} {args : List Formula} {form : Form}
  {ps : List (Option Bool)}

theorem meanings_eq_map : meanings choice row args = args.map (meaning choice row) := by
  induction args with
  | nil => rfl
  | cons e args ih => rw [meanings, ih, List.map_cons]

theorem meaning_apply :
    (apply name args form).meaning choice row =
      connective choice name (args.map (meaning choice row)) := by
  rw [meaning, meanings_eq_map]

theorem connective_congr (same : ∀ c a b, name = "if_else" → ps = [c, a, b] →
    choice c a b = choice' c a b) : connective choice name ps = connective choice' name ps := by
  unfold connective
  split <;> try rfl
  exact same _ _ _ rfl rfl

end

end Formula

open Formula

/-! ## Evaluation -/

namespace Eval

/-- What the evaluation makes of an `if_else`: unknown if the condition is. -/
def strictBranch (condition whenTrue whenFalse : Option Bool) : Option Bool :=
  condition.bind fun b => if b then whenTrue else whenFalse

@[simp] theorem ofTruth_inj {p q : Option Bool} : ofTruth p = ofTruth q ↔ p = q := by
  cases p <;> cases q <;> simp [ofTruth]

@[simp] theorem truth?_ofTruth {p : Option Bool} : truth? (ofTruth p) = some p := by
  cases p <;> rfl

theorem coalesce_ofTruth {ps : List (Option Bool)} :
    coalesce (ps.map ofTruth) = ofTruth (Sql.firstKnown ps) := by
  have known : (fun v : Value => !v.isNull) ∘ ofTruth = Option.isSome := by
    funext p
    cases p <;> rfl
  rw [coalesce, Sql.firstKnown, List.find?_map, known]
  cases ps.find? (·.isSome) <;> rfl

theorem applyRow_call {name : String} {form : Form} {vs : List Value}
    (separate : form = .operator → vs.length ≠ 2) : applyRow name form vs = call name vs := by
  unfold applyRow
  split
  · exact absurd rfl (separate rfl)
  · rfl

theorem applyRow_connects {name : String} {form : Form} {n : Nat} (ps : List (Option Bool))
    (connects : Connects name n form) (length : ps.length = n) :
    applyRow name form (ps.map ofTruth) = .ok (ofTruth (connective strictBranch name ps)) := by
  cases connects with
  | and =>
    obtain ⟨p, q, rfl⟩ := List.length_eq_two.1 length
    simp [applyRow, binary, logic, connective]
  | or =>
    obtain ⟨p, q, rfl⟩ := List.length_eq_two.1 length
    simp [applyRow, binary, logic, connective]
  | not =>
    obtain ⟨p, rfl⟩ := List.length_eq_one_iff.1 length
    rw [applyRow_call (by simp)]
    simp [call, unary?, opposite, connective]
  | isNull =>
    obtain ⟨p, rfl⟩ := List.length_eq_one_iff.1 length
    rw [applyRow_call (by simp)]
    cases p <;> rfl
  | ifElse =>
    obtain ⟨c, a, b, rfl⟩ := List.length_eq_three.1 length
    rw [applyRow_call (by simp)]
    rcases c with _ | _ | _ <;> rfl
  | coalesce _ separate =>
    rw [applyRow_call (by simpa [length] using separate)]
    exact congrArg Except.ok coalesce_ofTruth

def truthAt (t : Table) (i : Nat) (c : String) : Option Bool :=
  ((t.cells? c).bind (·[i]?)).bind Value.toBool?

/-- Every column of a formula is there, with truth values and nulls only. -/
def ReadsTruths (t : Table) (e : Formula) : Prop :=
  ∀ c ∈ e.columns, ∃ cells, t.cells? c = some cells ∧
    ∀ v ∈ cells, v = .null ∨ ∃ b, v = .bool b

variable {t : Table} {e sub : Formula}

theorem ReadsTruths.within (reads : ReadsTruths t e) (within : Within sub e) :
    ReadsTruths t sub :=
  fun _ mem => reads _ (within.columns mem)

theorem cellsAt_map {args : List Formula} (value : Formula → Nat → Value) {i n : Nat}
    (inside : i < n) :
    cellsAt (args.map fun a => (List.range n).map (value a)) i =
      .ok (args.map fun a => value a i) := by
  have found : (args.map fun a => (List.range n).map (value a)).mapM (·[i]?) =
      some (args.map fun a => value a i) := by
    rw [mapM_eq_some, List.forall₂_map_left_iff, List.forall₂_map_right_iff, List.forall₂_same]
    intro a _
    rw [List.getElem?_map, List.getElem?_range inside]
    rfl
  rw [cellsAt, found]

theorem isWindowCall_connects {name : String} {args : List Formula} {form : Form} {n : Nat}
    (connects : Connects name n form) (length : args.length = n) :
    (Formula.apply name args form).isWindowCall = false := by
  cases form with
  | operator => rfl
  | call =>
    cases args with
    | nil => cases connects <;> simp_all
    | cons => cases connects <;> rfl

/-- A logical formula evaluates at every row to its meaning there. -/
theorem rowwise_logical (even : ∀ c ∈ t.columns, c.cells.length = t.numRows)
    (logical : e.Logical) (reads : ReadsTruths t e) :
    rowwise t e = .ok ((List.range t.numRows).map fun i =>
      ofTruth (e.meaning strictBranch (truthAt t i))) := by
  induction logical with
  | null => simp [rowwise, meaning, Value.toBool?, ofTruth]
  | bool => simp [rowwise, meaning, Value.toBool?, ofTruth]
  | @column name =>
    obtain ⟨cells, found, truths⟩ := reads name (by simp [mem_columns, columnList])
    have length : cells.length = t.numRows := even _ (Table.cells?_mem found)
    simp only [rowwise, found, meaning, Except.ok.injEq]
    refine List.ext_getElem (by simpa using length) fun i inside _ => ?_
    have cell : cells[i]? = some cells[i] := List.getElem?_eq_getElem inside
    simp only [List.getElem_map, List.getElem_range, truthAt, found, Option.bind_some, cell]
    obtain null | ⟨b, bool⟩ := truths _ (List.getElem_mem inside)
    · rw [null]; rfl
    · rw [bool]; rfl
  | @apply name args form connects each ih =>
    have values := rowwiseAll_eq_mapM.trans
      (mapM_eq_map fun a mem => ih a mem (reads.within (.arg mem .refl)))
    have answers : (List.range t.numRows).mapM (fun i => do
          applyRow name form (← cellsAt (args.map fun a => (List.range t.numRows).map fun i =>
            ofTruth (meaning strictBranch (truthAt t i) a)) i)) =
        .ok ((List.range t.numRows).map fun i =>
          ofTruth ((Formula.apply name args form).meaning strictBranch (truthAt t i))) := by
      rw [mapM_eq_ok, List.forall₂_map_right_iff, List.forall₂_same]
      intro i mem
      have row := applyRow_connects
        (args.map (meaning strictBranch (truthAt t i))) connects (by simp)
      rw [List.map_map] at row
      rw [cellsAt_map (fun a i => ofTruth (meaning strictBranch (truthAt t i) a))
        (List.mem_range.1 mem), meaning_apply]
      exact row
    rw [rowwise, isWindowCall_connects connects rfl, values]
    exact answers

end Eval

/-! ## SQL -/

namespace Sql

variable {base : Base} {row : String → Option Bool}

theorem lesser_eq_and3 {p q : Option Bool} : lesser p q = Eval.and3 p q := by
  rcases p with _ | _ | _ <;> rcases q with _ | _ | _ <;> rfl

theorem greater_eq_or3 {p q : Option Bool} : greater p q = Eval.or3 p q := by
  rcases p with _ | _ | _ <;> rcases q with _ | _ | _ <;> rfl

theorem rename_connects {name : String} {n : Nat} {form : Form}
    (connects : Connects name n form) : (Dialect.ofBase base).rename name = name := by
  cases connects <;> cases base <;> rfl

theorem terms_truths {args : List Formula} {value : Formula → Option Bool}
    (each : ∀ a ∈ args, ∀ grouped, ∃ term,
      (Dialect.ofBase base).term grouped a = .ok term ∧ term.truth? row = some (value a)) :
    ∃ terms, (Dialect.ofBase base).terms args = .ok terms ∧
      Term.truths? row terms = some (args.map value) := by
  induction args with
  | nil => exact ⟨[], rfl, rfl⟩
  | cons a args ih =>
    obtain ⟨term, made, truth⟩ := each a (List.mem_cons_self ..) true
    obtain ⟨terms, others, truths⟩ := ih fun b mem => each b (List.mem_cons_of_mem _ mem)
    refine ⟨term :: terms, ?_, ?_⟩
    · rw [Dialect.terms, made, others]
      rfl
    · rw [Term.truths?, truth, truths]
      rfl

theorem forms_get? {name : String} :
    (Dialect.ofBase base).forms.get? name =
      if name = "is_null" then some .isNull
      else if name = "if_else" then some .choice
      else none :=
  builtinForms_get?

theorem term_call {name : String} {args : List Formula} {form : Form}
    {terms : List Term} (plain : name ≠ "is_null" ∧ name ≠ "if_else")
    (kept : (Dialect.ofBase base).rename name = name)
    (separate : form = .operator → args.length ≠ 2)
    (made : (Dialect.ofBase base).terms args = .ok terms) (grouped : Bool) :
    (Dialect.ofBase base).term grouped (.apply name args form) =
      .ok (.call (Text.upper name) terms) := by
  rw [Dialect.term.eq_def]
  simp only [kept, forms_get?, if_neg plain.1, if_neg plain.2]
  split
  · exact absurd rfl (separate rfl)
  · rw [made]
    rfl

theorem term_operator {name : String} {a b : Formula} {ta tb : Term}
    (plain : name ≠ "is_null" ∧ name ≠ "if_else")
    (kept : (Dialect.ofBase base).rename name = name)
    (first : (Dialect.ofBase base).term true a = .ok ta)
    (second : (Dialect.ofBase base).term true b = .ok tb) (grouped : Bool) :
    (Dialect.ofBase base).term grouped (.apply name [a, b] .operator) =
      .ok (.operation grouped (Text.upper name) ta tb) := by
  rw [Dialect.term.eq_def]
  simp only [kept, forms_get?, if_neg plain.1, if_neg plain.2, first, second]
  rfl

theorem term_isNull {a : Formula} {form : Form} {ta : Term}
    (first : (Dialect.ofBase base).term true a = .ok ta) (grouped : Bool) :
    (Dialect.ofBase base).term grouped (.apply "is_null" [a] form) = .ok (.isNull ta) := by
  have kept : (Dialect.ofBase base).rename "is_null" = "is_null" := by cases base <;> rfl
  rw [Dialect.term.eq_def]
  simp only [kept, forms_get?, if_true, first]
  rfl

theorem term_choice {c a b : Formula} {form : Form} {tc ta tb : Term}
    (condition : (Dialect.ofBase base).term false c = .ok tc)
    (whenTrue : (Dialect.ofBase base).term false a = .ok ta)
    (whenFalse : (Dialect.ofBase base).term false b = .ok tb) (grouped : Bool) :
    (Dialect.ofBase base).term grouped (.apply "if_else" [c, a, b] form) =
      .ok (.choice tc ta tb) := by
  have kept : (Dialect.ofBase base).rename "if_else" = "if_else" := by cases base <;> rfl
  rw [Dialect.term.eq_def]
  simp [kept, forms_get?, condition, whenTrue, whenFalse, bind, Except.bind]

/-- The expression of a logical function whose arguments have theirs, and its value. -/
theorem term_connects {name : String} {args : List Formula} {form : Form} {n : Nat}
    (connects : Connects name n form) (length : args.length = n)
    (inside : ∀ a ∈ args, ∀ grouped, ∃ term,
      (Dialect.ofBase base).term grouped a = .ok term ∧
        term.truth? row = some (a.meaning branch row)) (grouped : Bool) :
    ∃ term, (Dialect.ofBase base).term grouped (.apply name args form) = .ok term ∧
      term.truth? row = some (connective branch name (args.map (meaning branch row))) := by
  have kept : (Dialect.ofBase base).rename name = name := rename_connects connects
  obtain ⟨terms, made, truths⟩ := terms_truths inside
  cases connects with
  | and =>
    obtain ⟨a, b, rfl⟩ := List.length_eq_two.1 length
    obtain ⟨ta, madea, trutha⟩ := inside a (by simp) true
    obtain ⟨tb, madeb, truthb⟩ := inside b (by simp) true
    have word : Text.upper "and" = "AND" := rfl
    refine ⟨_, term_operator (by decide) kept madea madeb grouped, ?_⟩
    simp [word, Term.truth?, trutha, truthb, lesser_eq_and3, connective]
  | or =>
    obtain ⟨a, b, rfl⟩ := List.length_eq_two.1 length
    obtain ⟨ta, madea, trutha⟩ := inside a (by simp) true
    obtain ⟨tb, madeb, truthb⟩ := inside b (by simp) true
    have word : Text.upper "or" = "OR" := rfl
    refine ⟨_, term_operator (by decide) kept madea madeb grouped, ?_⟩
    simp [word, Term.truth?, trutha, truthb, greater_eq_or3, connective]
  | not =>
    obtain ⟨a, rfl⟩ := List.length_eq_one_iff.1 length
    refine ⟨_, term_call (by decide) kept (by simp) made grouped, ?_⟩
    rw [Term.truth?, truths]
    rfl
  | isNull =>
    obtain ⟨a, rfl⟩ := List.length_eq_one_iff.1 length
    obtain ⟨ta, madea, trutha⟩ := inside a (by simp) true
    refine ⟨_, term_isNull madea grouped, ?_⟩
    simp [Term.truth?, trutha, connective]
  | ifElse =>
    obtain ⟨c, a, b, rfl⟩ := List.length_eq_three.1 length
    obtain ⟨tc, madec, truthc⟩ := inside c (by simp) false
    obtain ⟨ta, madea, trutha⟩ := inside a (by simp) false
    obtain ⟨tb, madeb, truthb⟩ := inside b (by simp) false
    refine ⟨_, term_choice madec madea madeb grouped, ?_⟩
    simp [Term.truth?, truthc, trutha, truthb, connective]
  | coalesce some separate =>
    obtain ⟨a, rest, rfl⟩ := List.exists_cons_of_length_pos (length ▸ some)
    refine ⟨_, term_call (by decide) kept (by simpa [length] using separate) made grouped, ?_⟩
    rw [Term.truth?, truths]
    rfl

/-- A logical formula has an SQL expression, whose value in standard SQL is its meaning with
`CASE`. -/
theorem term_logical {e : Formula} (logical : e.Logical)
    (quotable : ∀ c ∈ e.columns, '"' ∉ c.toList) (grouped : Bool) :
    ∃ term, (Dialect.ofBase base).term grouped e = .ok term ∧
      term.truth? row = some (e.meaning branch row) := by
  induction logical generalizing grouped with
  | null => exact ⟨.plain "NULL", by rw [Dialect.term.eq_def]; rfl, rfl⟩
  | @bool b =>
    refine ⟨.plain (if b then "TRUE" else "FALSE"), ?_, ?_⟩
    · rw [Dialect.term.eq_def]
      cases b <;> rfl
    · cases b <;> rfl
  | @column name =>
    have quoted : (Dialect.ofBase base).checkName name = .ok name := by
      have free := quotable name (by simp [mem_columns, columnList])
      rw [checkName_eq rfl, if_neg free]
    refine ⟨.name name, ?_, rfl⟩
    rw [Dialect.term.eq_def]
    simp only [quoted]
    rfl
  | @apply name args form connects each ih =>
    rw [meaning_apply]
    refine term_connects connects rfl (fun a mem grouped => ?_) grouped
    exact ih a mem (fun c hc => quotable c (Within.columns (.arg mem .refl) hc)) grouped

end Sql

/-! ## Agreement -/

namespace Eval

def valueAt? (t : Table) (i : Nat) (e : Formula) : Option Value :=
  (rowwise t e).toOption.bind (·[i]?)

/-- At a row both backends give a formula the same truth value, or both give null. -/
def Agrees (base : Sql.Base) (t : Table) (i : Nat) (e : Formula) : Prop :=
  ∃ p, valueAt? t i e = some (ofTruth p) ∧
    ∀ grouped, ∃ term, (Sql.Dialect.ofBase base).term grouped e = .ok term ∧
      term.truth? (truthAt t i) = some p

/-- At a row every `if_else` of a null condition has a null second branch. -/
def Steady (t : Table) (i : Nat) (e : Formula) : Prop :=
  ∀ c a b form, Within (.apply "if_else" [c, a, b] form) e →
    valueAt? t i c = some .null → valueAt? t i b = some .null

end Eval

namespace Formula

variable {row : String → Option Bool}

/-- The two meanings of an `if_else` differ just if the condition is unknown and the second
branch is known. -/
theorem strictBranch_eq_branch {c a b : Option Bool} :
    Eval.strictBranch c a b = Sql.branch c a b ↔ (c = none → b = none) := by
  rcases c with _ | _ | _ <;> simp [Eval.strictBranch, Sql.branch, eq_comm]

/-- The meanings of the two backends are the same throughout a formula just if an unknown
condition never meets a second branch that is known. -/
theorem meaning_agrees_iff {e : Formula} :
    (∀ sub, Within sub e → sub.meaning Eval.strictBranch row = sub.meaning Sql.branch row) ↔
      ∀ c a b form, Within (.apply "if_else" [c, a, b] form) e →
        c.meaning Eval.strictBranch row = none → b.meaning Eval.strictBranch row = none := by
  constructor
  · intro same c a b form within
    have whole := same _ within
    have condition := same c (.trans (.arg (by simp) .refl) within)
    have whenTrue := same a (.trans (.arg (by simp) .refl) within)
    have whenFalse := same b (.trans (.arg (by simp) .refl) within)
    simp only [meaning_apply, List.map_cons, List.map_nil, ← condition, ← whenTrue,
      ← whenFalse] at whole
    exact strictBranch_eq_branch.1 whole
  · intro steady
    induction e using Formula.induction with
    | constant v =>
      rintro _ ⟨⟩
      rfl
    | column name =>
      rintro _ ⟨⟩
      rfl
    | apply name args form ih =>
      have inside : ∀ arg ∈ args, ∀ sub, Within sub arg →
          sub.meaning Eval.strictBranch row = sub.meaning Sql.branch row := fun arg mem =>
        ih arg mem fun c a b form within => steady c a b form (.arg mem within)
      rintro _ (_ | ⟨mem, within⟩)
      · rw [meaning_apply, meaning_apply,
          List.map_congr_left fun arg mem => (inside arg mem arg .refl).symm]
        refine connective_congr fun c a b conditional three => ?_
        obtain ⟨fc, fa, fb, rfl⟩ : ∃ fc fa fb, args = [fc, fa, fb] :=
          List.length_eq_three.1 (by simpa using congrArg List.length three)
        subst conditional
        simp only [List.map_cons, List.map_nil, List.cons.injEq, and_true] at three
        obtain ⟨rfl, rfl, rfl⟩ := three
        exact strictBranch_eq_branch.2 (steady fc fa fb form .refl)
      · exact inside _ mem _ within

end Formula

namespace Eval

variable {t : Table} {e : Formula}

/-- On truth values and nulls a logical formula evaluates at every row, and there throughout
the formula to what its SQL expression gives just if the row is steady: no `if_else` has a
null condition and a second branch that is not null. -/
theorem logic_agrees_iff (base : Sql.Base) (logical : e.Logical)
    (even : ∀ c ∈ t.columns, c.cells.length = t.numRows) (reads : ReadsTruths t e)
    (quotable : ∀ c ∈ e.columns, '"' ∉ c.toList) :
    ∃ values, rowwise t e = .ok values ∧ values.length = t.numRows ∧
      ∀ i < t.numRows, (∀ sub, Within sub e → Agrees base t i sub) ↔ Steady t i e := by
  refine ⟨_, rowwise_logical even logical reads, by simp, fun i inside => ?_⟩
  have value : ∀ sub, Within sub e →
      valueAt? t i sub = some (ofTruth (sub.meaning strictBranch (truthAt t i))) := by
    intro sub within
    rw [valueAt?, rowwise_logical even (logical.within within) (reads.within within)]
    simp [Except.toOption, inside]
  have agrees : ∀ sub, Within sub e → (Agrees base t i sub ↔
      sub.meaning strictBranch (truthAt t i) = sub.meaning Sql.branch (truthAt t i)) := by
    intro sub within
    have emitted : ∀ grouped, ∃ term, (Sql.Dialect.ofBase base).term grouped sub = .ok term ∧
        term.truth? (truthAt t i) = some (sub.meaning Sql.branch (truthAt t i)) :=
      Sql.term_logical (logical.within within) fun c mem => quotable c (within.columns mem)
    constructor
    · rintro ⟨p, evaluated, each⟩
      obtain ⟨term, made, truth⟩ := each true
      obtain ⟨term', made', truth'⟩ := emitted true
      obtain rfl : term = term' := by simpa [made] using made'
      simp only [value sub within, Option.some.injEq, ofTruth_inj] at evaluated
      rw [evaluated, ← Option.some_inj, ← truth, truth']
    · intro same
      exact ⟨_, value sub within, fun grouped => same ▸ emitted grouped⟩
  have null : ∀ sub, Within sub e → (valueAt? t i sub = some .null ↔
      sub.meaning strictBranch (truthAt t i) = none) := by
    intro sub within
    rw [value sub within, Option.some_inj]
    exact ofTruth_inj (q := none)
  rw [forall₂_congr agrees, meaning_agrees_iff]
  refine forall₄_congr fun c a b form => forall_congr' fun within => ?_
  rw [null c (.trans (.arg (by simp) .refl) within),
    null b (.trans (.arg (by simp) .refl) within)]

theorem logic_agrees_iff_conjunction :
    let t : Table := ⟨[⟨"p", [.null, .bool true]⟩, ⟨"q", [.bool true, .null]⟩]⟩
    let e := Formula.binary "and" (.column "q")
      (.ifElse (.column "p") (.constant .null) (.constant (.bool false)))
    (∀ sub, Within sub e → Agrees .duckdb t 1 sub) ∧
      ¬∀ sub, Within sub e → Agrees .duckdb t 0 sub := by
  intro t e
  have logical : e.Logical := by
    refine .apply .and fun a mem => ?_
    obtain rfl | rfl := List.mem_pair.1 mem
    · exact .column
    · refine .apply .ifElse fun a mem => ?_
      simp only [List.mem_cons, List.not_mem_nil, or_false] at mem
      obtain rfl | rfl | rfl := mem
      exacts [.column, .null, .bool]
  have reads : ReadsTruths t e := by
    intro c mem
    have column : c ∈ ["q", "p"] := mem_columns.1 mem
    obtain rfl | rfl := List.mem_pair.1 column
    exacts [⟨_, rfl, by simp⟩, ⟨_, rfl, by simp⟩]
  obtain ⟨_, -, -, rows⟩ :=
    logic_agrees_iff .duckdb logical (by decide) reads (by decide)
  refine ⟨(rows 1 (by decide)).2 ?_, fun agree => ?_⟩
  · intro c a b form within null
    obtain ⟨rfl, rfl, rfl, rfl⟩ : c = .column "p" ∧ a = .constant .null ∧
        b = .constant (.bool false) ∧ form = .call := by
      simpa [e, Formula.binary, Formula.ifElse, Formula.call, within_apply, within_column,
        within_constant, and_assoc] using within
    cases null
  · have steady := (rows 0 (by decide)).1 agree
    have second := steady (.column "p") (.constant .null) (.constant (.bool false)) .call
      (.arg (List.mem_pair.2 (.inr rfl)) .refl) rfl
    cases second

/-- Of a null condition the evaluation makes null, and `CASE` the second branch. -/
theorem null_condition_apart :
    let t : Table := ⟨[⟨"c", [.null]⟩]⟩
    let e := Formula.ifElse (.column "c") (.constant (.bool true)) (.constant (.bool false))
    e.Logical ∧ rowwise t e = .ok [.null] ∧
      ∃ term, (Sql.Dialect.ofBase .duckdb).term false e = .ok term ∧
        term.truth? (truthAt t 0) = some (some false) := by
  refine ⟨.apply .ifElse ?_, rfl, _, rfl, rfl⟩
  simp [Logical.column, Logical.bool]

end Eval

end TableFlow
