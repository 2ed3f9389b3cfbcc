import TableFlow.Proofs.Outcome
import TableFlow.Proofs.Replacing
import TableFlow.Proofs.Sql.Aliases
import TableFlow.Proofs.Sql.Faithful
import TableFlow.Proofs.Sql.Quotes
import TableFlow.Proofs.Sql.Words

/-!
# SQL of replaced formulas

What a query is put together from, for a pipeline and for one with other names and texts:
`Alike` pieces are the same but for what stands between quotes. The dialect makes alike
expressions of replaced formulas (`term_carries`), and so with the entries of select lists.
-/

namespace TableFlow

open Pipeline

/-- What of a constant stands between quotes in SQL: text, and the name of an infinity. -/
def Value.quoted? : Value → Option String
  | .text s => some s
  | .float x =>
    if x.isNaN then none
    else if x.isInf then some (if x > 0.0 then "Infinity" else "-Infinity")
    else none
  | _ => none

/-- The functions and operators of a formula have no quotes in their names. -/
inductive Formula.Unquoted : Formula → Prop where
  | constant {v : Value} : Unquoted (.constant v)
  | column {name : String} : Unquoted (.column name)
  | apply {name : String} {args : List Formula} {form : Form} (plain : Sql.Unquoted name)
    (each : ∀ a ∈ args, Unquoted a) : Unquoted (.apply name args form)

/-- Columns are replaced one to one, texts only by texts, and no name gets a double quote. -/
structure Replacement.Fair (r : Replacement) : Prop where
  unique : Relator.BiUnique r.column
  quotable : ∀ a b, r.column a b ∨ r.table a b ∨ r.qualifier a b → '"' ∉ a.toList → '"' ∉ b.toList
  constant : ∀ v w, r.constant v w → v = w ∨ ∃ s t, v = .text s ∧ w = .text t

variable {r : Replacement}

namespace Sql

/-! ## Pieces -/

/-- A piece of a text and of the text of a replaced pipeline. -/
inductive Piece.Replaced (r : Replacement) (given : Alias → Prop) : Piece → Piece → Prop where
  | plain {s : String} (fixed : Fixed s) : Replaced r given (.plain s) (.plain s)
  | name {a b : String} (h : r.column a b ∨ r.table a b ∨ r.qualifier a b)
    (free : '"' ∉ a.toList) (free' : '"' ∉ b.toList) : Replaced r given (.name a) (.name b)
  | numbered {a : Alias} (h : given a) : Replaced r given (.name a.name) (.name a.name)
  | text {v w : Value} {s t : String} (h : r.constant v w) (first : v.quoted? = some s)
    (second : w.quoted? = some t) : Replaced r given (.text s) (.text t)

/-- The pieces of a text and of the text of a replaced pipeline. -/
def Alike (r : Replacement) (given : Alias → Prop) : List Piece → List Piece → Prop :=
  List.Forall₂ (Piece.Replaced r given)

section
variable {given given' : Alias → Prop} {p q : Piece} {ps qs ps' qs' : List Piece}

theorem Piece.Replaced.sound (h : p.Replaced r given q) : p.Sound ∧ q.Sound := by
  cases h with
  | plain fixed => exact ⟨fixed, fixed⟩
  | name _ free free' => exact ⟨free, free'⟩
  | numbered => exact ⟨Alias.quotable _, Alias.quotable _⟩
  | text => exact ⟨trivial, trivial⟩

theorem Piece.Replaced.blank (h : p.Replaced r given q) :
    p.lexemes.map Lexeme.blank = q.lexemes.map Lexeme.blank := by
  cases h <;> rfl

theorem Alike.mono (h : Alike r given ps qs) (more : ∀ a, given a → given' a) :
    Alike r given' ps qs := by
  refine List.Forall₂.imp (fun p q same => ?_) h
  cases same with
  | plain fixed => exact .plain fixed
  | name h free free' => exact .name h free free'
  | numbered h => exact .numbered (more _ h)
  | text h first second => exact .text h first second

theorem Alike.append (first : Alike r given ps qs) (second : Alike r given ps' qs') :
    Alike r given (ps ++ ps') (qs ++ qs') :=
  List.rel_append first second

theorem Alike.plain {s : String} (fixed : Fixed s) (h : Alike r given ps qs) :
    Alike r given (.plain s :: ps) (.plain s :: qs) :=
  .cons (.plain fixed) h

theorem Alike.separated {separator : String} {parts parts' : List (List Piece)}
    (fixed : Fixed separator) (h : List.Forall₂ (Alike r given) parts parts') :
    Alike r given (separated separator parts) (separated separator parts') := by
  induction h with
  | nil => exact .nil
  | @cons part part' rest rest' first others ih =>
    cases others with
    | nil => exact first
    | cons => exact first.append (.plain fixed ih)

end

/-! ## Formulas -/

section
variable {base : Base} {given : Alias → Prop}

/-- Names that stand in a text and in that of a replaced pipeline. -/
def Shown (h : String → String → Prop) (a b : String) : Prop :=
  h a b ∧ '"' ∉ a.toList ∧ '"' ∉ b.toList

theorem checkName_carries (fair : r.Fair) {h : String → String → Prop}
    (known : ∀ a b, h a b → r.column a b ∨ r.table a b ∨ r.qualifier a b) {a b : String}
    (related : h a b) :
    Carries (Shown h) ((Dialect.ofBase base).checkName a) ((Dialect.ofBase base).checkName b) := by
  rw [checkName_eq rfl, checkName_eq rfl]
  by_cases free : '"' ∈ a.toList
  · rw [if_pos free]
    exact .error
  · have free' := fair.quotable a b (known a b related) free
    rw [if_neg free, if_neg free']
    exact .ok ⟨related, free, free'⟩

theorem Unquoted.append {s t : String} (first : Unquoted s) (second : Unquoted t) :
    Unquoted (s ++ t) := by
  unfold Unquoted
  rw [String.toList_append, List.forall_mem_append]
  exact ⟨first, second⟩

theorem isQuote_upperChar {c d : Char} (h : isQuote c = false) (mem : d ∈ Text.upperChar c) :
    isQuote d = false := by
  obtain same | ⟨-, letters⟩ := upperChar_letters (c := c)
  · rw [same, List.mem_singleton] at mem
    exact mem ▸ h
  · obtain ⟨name, text, -⟩ := startsWord_apart (letters d mem)
    exact isQuote_eq_false.2 ⟨name, text⟩

theorem unquoted_upper {s : String} (h : Unquoted s) : Unquoted (Text.upper s) := by
  intro d mem
  rw [Text.upper, String.toList_ofList] at mem
  obtain ⟨c, inside, mem⟩ := List.mem_flatMap.1 mem
  exact isQuote_upperChar (h c inside) mem

theorem unquoted_sqlName {s : String} (h : Unquoted s) : Unquoted (sqlName s) := by
  refine unquoted_upper ?_
  unfold renamed
  cases found : defaultRenames.get? s with
  | none => exact h
  | some other =>
    have plain : ∀ entry ∈ [("==", "="), ("!=", "<>"), ("mean", "avg"), ("log", "ln")],
        Unquoted entry.2 := by decide
    exact plain _ (NameMap.mem_of_get?_ofList found)

theorem isQuote_digit {c : Char} (h : c.isDigit = true) : isQuote c = false := by
  obtain ⟨name, text, -⟩ := isDigit_apart h
  exact isQuote_eq_false.2 ⟨name, text⟩

theorem Unsigned.unquoted {l : List Char} (h : Unsigned l) : ∀ c ∈ l, isQuote c = false := by
  have digits : ∀ {m : List Char}, Number.Digits m → ∀ c ∈ m, isQuote c = false :=
    fun run c mem => isQuote_digit (run.each c mem)
  have signs : ∀ {m : List Char}, m = [] ∨ m = ['-'] → ∀ c ∈ m, isQuote c = false := by
    rintro _ (rfl | rfl) c mem
    · cases mem
    · obtain rfl := List.mem_singleton.1 mem
      rfl
  have point : isQuote '.' = false := rfl
  have mark : isQuote 'e' = false := rfl
  obtain whole | decimal := h
  · exact digits whole
  · cases decimal with
    | point a b =>
      simp only [List.forall_mem_append, List.forall_mem_cons]
      exact ⟨digits a, point, digits b⟩
    | exponent a sign c =>
      simp only [List.forall_mem_append, List.forall_mem_cons]
      exact ⟨digits a, mark, signs sign, digits c⟩
    | both a b sign c =>
      simp only [List.forall_mem_append, List.forall_mem_cons]
      exact ⟨digits a, point, digits b, mark, signs sign, digits c⟩

theorem fixed_readable {s : String} (h : Term.Readable (.plain s)) : Fixed s := by
  cases h with
  | literal known =>
    have all : ∀ s ∈ literals, Fixed s := by decide
    exact all s known
  | @number _ l unsigned text =>
    have free : Unquoted s := by
      intro c mem
      obtain same | same := text
      · exact unsigned.unquoted c (same ▸ mem)
      · rw [same] at mem
        obtain rfl | mem := List.mem_cons.1 mem
        · rfl
        · exact unsigned.unquoted c mem
    refine ⟨?_, free⟩
    rintro rfl
    obtain ⟨c, rest, rfl, -⟩ := unsigned.head
    obtain same | same := text <;> cases same

theorem ofValue_alike {v w : Value} (fair : r.Fair) (related : r.constant v w) :
    Alike r given (Term.ofValue v).pieces (Term.ofValue w).pieces := by
  obtain rfl | ⟨s, t, rfl, rfl⟩ := fair.constant v w related
  · have written : Written true (.constant v) (.ofValue v) := written_ofValue
    have readable := written.readable
    cases v with
    | null => exact .plain (by decide) .nil
    | bool b => cases b <;> exact .plain (by decide) .nil
    | int i => exact .plain (fixed_readable readable) .nil
    | text s => exact .cons (.text related rfl rfl) .nil
    | float x =>
      have quoted : (Value.float x).quoted? = if x.isNaN then none
          else if x.isInf then some (if x > 0.0 then "Infinity" else "-Infinity") else none := rfl
      simp only [Term.ofValue] at readable ⊢
      by_cases nan : x.isNaN = true
      · rw [if_pos nan]
        exact .plain (by decide) .nil
      · rw [if_neg nan] at quoted readable ⊢
        by_cases infinite : x.isInf = true
        · rw [if_pos infinite] at quoted ⊢
          have behind : Alike r given [.plain " AS DOUBLE PRECISION)"]
              [.plain " AS DOUBLE PRECISION)"] := .plain (by decide) .nil
          exact .plain (by decide) (.cons (.text related quoted quoted) behind)
        · rw [if_neg infinite] at readable ⊢
          exact .plain (fixed_readable readable) .nil
  · exact .cons (.text related rfl rfl) .nil

/-! ### Expressions -/

def AlikeTerms (r : Replacement) (given : Alias → Prop) (t t' : Term) : Prop :=
  Alike r given t.pieces t'.pieces

namespace AlikeTerms

variable {c c' a a' b b' : Term}

theorem isNull (h : AlikeTerms r given a a') : AlikeTerms r given (.isNull a) (.isNull a') := by
  have last : Alike r given [.plain " IS NULL)"] [.plain " IS NULL)"] := .plain (by decide) .nil
  exact (Alike.plain (by decide) h).append last

theorem choice (condition : AlikeTerms r given c c') (whenTrue : AlikeTerms r given a a')
    (whenFalse : AlikeTerms r given b b') :
    AlikeTerms r given (.choice c a b) (.choice c' a' b') := by
  have last : Alike r given [.plain " END"] [.plain " END"] := .plain (by decide) .nil
  have second := Alike.plain (s := " THEN ") (by decide) whenTrue
  have third := Alike.plain (s := " ELSE ") (by decide) whenFalse
  exact (((Alike.plain (by decide) condition).append second).append third).append last

theorem operation {op : String} (word : Unquoted op) (left : AlikeTerms r given a a')
    (right : AlikeTerms r given b b') (grouped : Bool) :
    AlikeTerms r given (.operation grouped op a b) (.operation grouped op a' b') := by
  have space : Unquoted " " := by decide
  have fixed : Fixed (" " ++ op ++ " ") :=
    ⟨by simp, (space.append word).append space⟩
  have body := Alike.append left (.plain fixed right)
  cases grouped with
  | false => exact body
  | true =>
    have last : Alike r given [.plain ")"] [.plain ")"] := .plain (by decide) .nil
    exact (Alike.plain (by decide) body).append last

theorem call {function : String} {ts ts' : List Term} (word : Unquoted function)
    (args : List.Forall₂ (Alike r given) (Term.piecesOfAll ts) (Term.piecesOfAll ts')) :
    AlikeTerms r given (.call function ts) (.call function ts') := by
  have fixed : Fixed (function ++ "(") :=
    ⟨by simp, word.append (by decide)⟩
  have last : Alike r given [.plain ")"] [.plain ")"] := .plain (by decide) .nil
  exact (Alike.plain fixed (.separated (by decide) args)).append last

end AlikeTerms

theorem terms_carries {es es' : List Formula}
    (each : ∀ e ∈ es, ∀ e', e.Replaced r e' → Carries (AlikeTerms r given)
      ((Dialect.ofBase base).term true e) ((Dialect.ofBase base).term true e'))
    (h : List.Forall₂ (Formula.Replaced r) es es') :
    Carries (fun ts ts' =>
        List.Forall₂ (Alike r given) (Term.piecesOfAll ts) (Term.piecesOfAll ts'))
      ((Dialect.ofBase base).terms es) ((Dialect.ofBase base).terms es') := by
  induction h with
  | nil => exact .ok .nil
  | @cons e e' es es' first _ ih =>
    refine (each e (List.mem_cons_self ..) e' first).bind fun t t' here => ?_
    refine (ih fun a mem => each a (List.mem_cons_of_mem _ mem)).bind fun ts ts' rest => ?_
    exact .ok (.cons here rest)

/-- A call or an operation of arguments whose expressions are alike. -/
theorem apply_carries {name : String} {args args' : List Formula} {form : Form}
    (plain : Unquoted name)
    (sub : ∀ a ∈ args, ∀ a', a.Replaced r a' → ∀ grouped, Carries (AlikeTerms r given)
      ((Dialect.ofBase base).term grouped a) ((Dialect.ofBase base).term grouped a'))
    (each : List.Forall₂ (Formula.Replaced r) args args') (grouped : Bool) :
    Carries (AlikeTerms r given) ((Dialect.ofBase base).term grouped (.apply name args form))
      ((Dialect.ofBase base).term grouped (.apply name args' form)) := by
  have word : Unquoted (sqlName name) := unquoted_sqlName plain
  have called : Carries (AlikeTerms r given)
      (do .ok (Term.call (sqlName name) (← (Dialect.ofBase base).terms args)))
      (do .ok (Term.call (sqlName name) (← (Dialect.ofBase base).terms args'))) :=
    (terms_carries (fun a mem a' related => sub a mem a' related true) each).bind
      fun ts ts' inside => .ok (.call word inside)
  have forms : (Dialect.ofBase base).forms = builtinForms := rfl
  rw [Dialect.term.eq_def, Dialect.term.eq_def]
  simp only [forms, builtinForms_get?]
  split_ifs with isNull choice
  · rcases each with _ | ⟨first, _ | _⟩
    · exact .error
    · refine (sub _ (by simp) _ first true).bind fun t t' here => ?_
      exact .ok here.isNull
    · exact .error
  · rcases each with _ | ⟨firstc, _ | ⟨firsta, _ | ⟨firstb, _ | _⟩⟩⟩
    · exact .error
    · exact .error
    · exact .error
    · refine (sub _ (by simp) _ firstc false).bind fun c c' condition => ?_
      refine (sub _ (by simp) _ firsta false).bind fun a a' whenTrue => ?_
      refine (sub _ (by simp) _ firstb false).bind fun b b' whenFalse => ?_
      exact .ok (condition.choice whenTrue whenFalse)
    · exact .error
  · cases form with
    | call => exact called
    | operator =>
      -- only two arguments stand around an operator
      rcases each with _ | ⟨firsta, _ | ⟨firstb, _ | _⟩⟩
      · exact called
      · exact called
      · refine (sub _ (by simp) _ firsta true).bind fun a a' left => ?_
        refine (sub _ (by simp) _ firstb true).bind fun b b' right => ?_
        exact .ok (.operation word left right grouped)
      · exact called

/-- The expression of a replaced formula. -/
theorem term_carries (fair : r.Fair) {e e' : Formula} (unquoted : e.Unquoted)
    (h : e.Replaced r e') (grouped : Bool) :
    Carries (AlikeTerms r given) ((Dialect.ofBase base).term grouped e)
      ((Dialect.ofBase base).term grouped e') := by
  induction e using Formula.induction generalizing e' grouped with
  | constant v =>
    cases h with
    | constant related =>
    rw [Dialect.term.eq_def, Dialect.term.eq_def]
    exact .ok (ofValue_alike fair related)
  | column name =>
    cases h with
    | column related =>
    rw [Dialect.term.eq_def, Dialect.term.eq_def]
    refine (checkName_carries fair (fun _ _ => .inl) related).bind fun a b shown => ?_
    exact .ok (.cons (.name (.inl shown.1) shown.2.1 shown.2.2) .nil)
  | apply name args form ih =>
    cases unquoted with
    | apply plain parts =>
    cases h with
    | apply each =>
    exact apply_carries plain (fun a mem _ => ih a mem (parts a mem)) each grouped

/-! ## Parts of a query -/

theorem alike_name {a b : String} (h : Shown r.column a b) :
    Alike r given [.name a] [.name b] :=
  .cons (.name (.inl h.1) h.2.1 h.2.2) .nil

theorem alike_names {names names' : List String} (h : List.Forall₂ (Shown r.column) names names') :
    Alike r given (namePieces names) (namePieces names') :=
  .separated (by decide) (List.rel_map (fun _ _ shown => alike_name shown) h)

theorem checkNames_carries (fair : r.Fair) {names names' : List String}
    (h : List.Forall₂ r.column names names') :
    Carries (List.Forall₂ (Shown r.column)) (names.mapM (Dialect.ofBase base).checkName)
      (names'.mapM (Dialect.ofBase base).checkName) :=
  .mapM h fun _ _ => checkName_carries fair fun _ _ => .inl

structure AlikeOrder (r : Replacement) (t t' : OrderTerm) : Prop where
  column : Shown r.column t.column t'.column
  falling : t.falling = t'.falling
  nullsLast : t.nullsLast = t'.nullsLast

theorem AlikeOrder.pieces {t t' : OrderTerm} (h : AlikeOrder r t t') :
    Alike r given t.pieces t'.pieces := by
  have falling : Alike r given (if t.falling then [.plain " DESC"] else [])
      (if t.falling then [.plain " DESC"] else []) := by
    split
    · exact .plain (by decide) .nil
    · exact .nil
  have nulls : Alike r given (if t.nullsLast then [.plain " NULLS LAST"] else [])
      (if t.nullsLast then [.plain " NULLS LAST"] else []) := by
    split
    · exact .plain (by decide) .nil
    · exact .nil
  rw [OrderTerm.pieces, OrderTerm.pieces, ← h.falling, ← h.nullsLast]
  exact ((alike_name h.column).append falling).append nulls

theorem alike_order {ts ts' : List OrderTerm} (h : List.Forall₂ (AlikeOrder r) ts ts') :
    Alike r given (orderPieces ts) (orderPieces ts') :=
  .plain (by decide)
    (.separated (by decide) (List.rel_map (fun _ _ same => AlikeOrder.pieces same) h))

theorem orderTerms_carries (fair : r.Fair) {reverse reverse' names names' : List String}
    (falling : List.Forall₂ r.column reverse reverse') (h : List.Forall₂ r.column names names') :
    Carries (List.Forall₂ (AlikeOrder r))
      (names.mapM (orderTerm (Dialect.ofBase base) reverse))
      (names'.mapM (orderTerm (Dialect.ofBase base) reverse')) := by
  refine .mapM h fun a b related => ?_
  refine (checkName_carries fair (fun _ _ => .inl) related).bind fun n n' shown => .ok ?_
  exact ⟨shown, Replacement.contains_eq fair.unique related falling, rfl⟩

theorem alike_over {w w' : Over}
    (partition : List.Forall₂ (Shown r.column) w.partitionBy w'.partitionBy)
    (order : List.Forall₂ (AlikeOrder r) w.orderBy w'.orderBy)
    (aggregate : w.aggregate = w'.aggregate) : Alike r given w.pieces w'.pieces := by
  have last : Alike r given [.plain ")"] [.plain ")"] := .plain (by decide) .nil
  refine (Alike.plain (by decide) (.separated (by decide) ?_)).append last
  rw [← isEmpty_forall₂ partition, ← isEmpty_forall₂ order, ← aggregate]
  refine List.rel_append (List.rel_append ?_ ?_) ?_
  · split
    · exact .nil
    · exact .cons (.plain (by decide) (alike_names partition)) .nil
  · split
    · exact .nil
    · exact .cons (alike_order order) .nil
  · split
    · exact .cons (.plain (by decide) .nil) .nil
    · exact .nil

def AlikeItems (r : Replacement) (given : Alias → Prop) (i i' : Item) : Prop :=
  Alike r given i.pieces i'.pieces

theorem alike_select {items items' : List Item}
    (h : List.Forall₂ (AlikeItems r given) items items') :
    Alike r given (selectPieces items) (selectPieces items') := by
  have last : Alike r given [.plain " FROM "] [.plain " FROM "] := .plain (by decide) .nil
  have parts : List.Forall₂ (Alike r given) (items.map Item.pieces) (items'.map Item.pieces) :=
    List.forall₂_map_left_iff.2 (List.forall₂_map_right_iff.2 h)
  exact (Alike.plain (by decide) (.separated (by decide) parts)).append last

theorem columnItem_carries (fair : r.Fair) {a b : String} (related : r.column a b) :
    Carries (AlikeItems r given) (columnItem (Dialect.ofBase base) a)
      (columnItem (Dialect.ofBase base) b) :=
  (checkName_carries fair (fun _ _ => .inl) related).bind fun _ _ shown => .ok (alike_name shown)

theorem overWindow_carries (fair : r.Fair) {w w' : Window} (placed : w.Replaced r w')
    {aggregate : Bool} :
    Carries (fun o o' : Over => Alike r given o.pieces o'.pieces)
      (overWindow (Dialect.ofBase base) w aggregate)
      (overWindow (Dialect.ofBase base) w' aggregate) := by
  refine (checkNames_carries fair placed.partitionBy).bind fun ps ps' partition => ?_
  refine (orderTerms_carries fair placed.reverse placed.orderBy).bind fun os os' order => ?_
  exact .ok (alike_over partition order rfl)

/-- A computed item, behind its window if it has one. -/
theorem computedItem_carries (fair : r.Fair) {e e' : Formula} (unquoted : e.Unquoted)
    (h : e.Replaced r e') {a b : String} (related : r.column a b) {o o' : Option Over}
    (placed : Alike r given ((o.map Over.pieces).getD []) ((o'.map Over.pieces).getD [])) :
    Carries (AlikeItems r given)
      (do
        let term ← (Dialect.ofBase base).term false e
        .ok (Item.computed term o (← (Dialect.ofBase base).checkName a)))
      (do
        let term ← (Dialect.ofBase base).term false e'
        .ok (Item.computed term o' (← (Dialect.ofBase base).checkName b))) := by
  refine Carries.bind (R := AlikeTerms r given) (term_carries fair unquoted h false)
    fun t t' term => ?_
  refine (checkName_carries fair (fun _ _ => .inl) related).bind fun n n' shown => .ok ?_
  have named : Alike r given [.plain " AS ", .name n] [.plain " AS ", .name n'] :=
    .plain (by decide) (alike_name shown)
  exact (Alike.append (Alike.append term placed) named)

/-- The assignment of a column and that of the replaced one. -/
theorem find_assigned (unique : Relator.BiUnique r.column)
    {assignments assignments' : List (String × Formula)}
    (h : List.Forall₂ (Assigned r) assignments assignments') {a b : String}
    (related : r.column a b) :
    Option.Rel (Assigned r) (assignments.find? (·.1 = a)) (assignments'.find? (·.1 = b)) :=
  rel_find (fun _ _ same => by simp [Replacement.eq_iff unique same.1 related]) h

theorem extensionItem_carries (fair : r.Fair)
    {assignments assignments' : List (String × Formula)} {w w' : Window}
    (h : List.Forall₂ (Assigned r) assignments assignments')
    (unquoted : ∀ e ∈ assignments.map (·.2), e.Unquoted) (placed : w.Replaced r w')
    {a b : String} (related : r.column a b) :
    Carries (AlikeItems r given) (extensionItem (Dialect.ofBase base) assignments w a)
      (extensionItem (Dialect.ofBase base) assignments' w' b) := by
  have found := find_assigned fair.unique h related
  have known : ∀ x, assignments.find? (·.1 = a) = some x → x.2.Unquoted := fun x here =>
    unquoted _ (List.mem_map_of_mem (List.mem_of_find?_eq_some here))
  unfold extensionItem
  generalize assignments.find? (·.1 = a) = x, assignments'.find? (·.1 = b) = y at found known
  cases found with
  | none => exact columnItem_carries fair related
  | @some x y same =>
    have plain := known x rfl
    dsimp only
    rw [← same.2.isWindowCall, ← same.2.isAggregate]
    split
    · refine Carries.bind (R := fun o o' : Option Over =>
        Alike r given ((o.map Over.pieces).getD []) ((o'.map Over.pieces).getD [])) ?_ ?_
      · exact (overWindow_carries fair placed).bind fun o o' placed => .ok placed
      · exact fun o o' placed => computedItem_carries fair plain same.2 related placed
    · exact computedItem_carries fair plain same.2 related .nil

theorem groupingItem_carries (fair : r.Fair)
    {assignments assignments' : List (String × Formula)}
    (h : List.Forall₂ (Assigned r) assignments assignments')
    (unquoted : ∀ e ∈ assignments.map (·.2), e.Unquoted) {a b : String}
    (related : r.column a b) :
    Carries (AlikeItems r given) (groupingItem (Dialect.ofBase base) assignments a)
      (groupingItem (Dialect.ofBase base) assignments' b) := by
  have found := find_assigned fair.unique h related
  have known : ∀ x, assignments.find? (·.1 = a) = some x → x.2.Unquoted := fun x here =>
    unquoted _ (List.mem_map_of_mem (List.mem_of_find?_eq_some here))
  unfold groupingItem
  generalize assignments.find? (·.1 = a) = x, assignments'.find? (·.1 = b) = y at found known
  cases found with
  | none => exact columnItem_carries fair related
  | @some x y same => exact computedItem_carries fair (known x rfl) same.2 related .nil

theorem relabeledItem_carries (fair : r.Fair) {pairs pairs' : List (String × String)}
    (h : List.Forall₂ (fun a b => r.column a.1 b.1 ∧ r.column a.2 b.2) pairs pairs')
    {a b : String} (related : r.column a b) :
    Carries (AlikeItems r given) (relabeledItem (Dialect.ofBase base) pairs a)
      (relabeledItem (Dialect.ofBase base) pairs' b) := by
  unfold relabeledItem
  rw [← isRenamed_replaced fair.unique h related]
  split
  · refine (checkName_carries fair (fun _ _ => .inl)
      (oldName_replaced fair.unique h related)).bind fun n n' old => ?_
    refine (checkName_carries fair (fun _ _ => .inl) related).bind fun m m' new => .ok ?_
    exact (alike_name old).append (.plain (by decide) (alike_name new))
  · exact columnItem_carries fair related

theorem joinItem_carries (fair : r.Fair) {fromLeft fromLeft' fromRight fromRight' : NameSet}
    (left : r.Sets fromLeft fromLeft') (right : r.Sets fromRight fromRight') {la ra : Alias}
    (opened : given la ∧ given ra) {a b : String} (related : r.column a b) :
    Carries (AlikeItems r given)
      (joinItem (Dialect.ofBase base) fromLeft fromRight la ra a)
      (joinItem (Dialect.ofBase base) fromLeft' fromRight' la ra b) := by
  refine (checkName_carries fair (fun _ _ => .inl) related).bind fun n n' shown => .ok ?_
  have inLeft : n ∈ fromLeft ↔ n' ∈ fromLeft' := left.mem_iff fair.unique shown.1
  have inRight : n ∈ fromRight ↔ n' ∈ fromRight' := right.mem_iff fair.unique shown.1
  simp only [inLeft, inRight]
  split
  · have name : Alike r given [.name n] [.name n'] := alike_name shown
    have mention : ∀ {a : Alias} {ps qs : List Piece}, given a → Alike r given ps qs →
        Alike r given (.name a.name :: .plain "." :: .name n :: ps)
          (.name a.name :: .plain "." :: .name n' :: qs) := by
      intro a ps qs here rest
      exact .cons (.numbered here) (Alike.plain (by decide) (name.append rest))
    exact .plain (by decide) (mention opened.1 (.plain (by decide) (mention opened.2
      (.plain (by decide) name))))
  · exact alike_name shown

/-! ## Queries -/

def AlikeQueries (r : Replacement) (q q' : Query) : Prop :=
  Alike r (· ∈ q.opened) q.pieces q'.pieces

section
variable {q q' s s' : Query} {items items' : List Item}

theorem alike_nested {a : Alias} {tail tail' : Tail}
    (list : Alike r (· ∈ q.opened ++ [a]) (selectPieces items) (selectPieces items'))
    (source : AlikeQueries r q q')
    (behind : Alike r (· ∈ q.opened ++ [a]) tail.pieces tail'.pieces) :
    AlikeQueries r (.nested items q a tail) (.nested items' q' a tail') := by
  have inner : Alike r (· ∈ q.opened ++ [a]) q.pieces q'.pieces :=
    Alike.mono source fun _ => List.mem_append_left _
  have here : a ∈ q.opened ++ [a] := by simp
  have name : Alike r (· ∈ q.opened ++ [a]) [.plain " ) ", .name a.name]
      [.plain " ) ", .name a.name] :=
    .plain (by decide) (.cons (.numbered here) .nil)
  exact ((list.append (.plain (by decide) inner)).append name).append behind

theorem alike_join {la ra : Alias} {type : JoinType} {keys keys' : List String}
    (list : Alike r (· ∈ q.opened ++ la :: s.opened ++ [ra]) (selectPieces items)
      (selectPieces items'))
    (left : AlikeQueries r q q') (right : AlikeQueries r s s')
    (names : List.Forall₂ (Shown r.column) keys keys') :
    AlikeQueries r (.join items q la type s ra keys) (.join items' q' la type s' ra keys') := by
  let opened := fun a => a ∈ q.opened ++ la :: s.opened ++ [ra]
  have here : opened la ∧ opened ra := by simp [opened]
  have inLeft : Alike r opened q.pieces q'.pieces :=
    Alike.mono left fun _ mem => by simp [opened, mem]
  have inRight : Alike r opened s.pieces s'.pieces :=
    Alike.mono right fun _ mem => by simp [opened, mem]
  have fixed : Fixed (" " ++ type.name ++ " JOIN ( ") := by cases type <;> decide
  have middle : Alike r opened
      [.plain " ) ", .name la.name, .plain (" " ++ type.name ++ " JOIN ( ")]
      [.plain " ) ", .name la.name, .plain (" " ++ type.name ++ " JOIN ( ")] :=
    .plain (by decide) (.cons (.numbered here.1) (Alike.plain fixed .nil))
  have columns : Alike r opened [.plain " ) ", .name ra.name, .plain " USING ( "]
      [.plain " ) ", .name ra.name, .plain " USING ( "] :=
    .plain (by decide) (.cons (.numbered here.2) (Alike.plain (by decide) .nil))
  have last : Alike r opened [.plain " )"] [.plain " )"] := .plain (by decide) .nil
  exact (((((list.append (.plain (by decide) inLeft)).append middle).append inRight).append
    columns).append (alike_names names)).append last

end

end

end Sql

end TableFlow
