import TableFlow.Proofs.Construction
import TableFlow.Proofs.Formula.Columns
import TableFlow.Proofs.Formula.RoundTrip

/-!
# Names of a formula's text

What a text is parsed to hangs on the scope through the names alone that the text has: scopes that
resolve these alike give the same formula or the same error (`parse_congr`). So constants behind
the name of a column do not matter, and no more does a column that the text does not name. The
columns of a parsed formula are columns of its scope, so no step over a pipeline refuses a formula
that was parsed over the columns of this pipeline for a column that is not there
(`takesParsed`).
-/

namespace TableFlow

namespace Formula

variable {here there : Scope} {ts : Tokens} {source : String}

/-- The word or the quoted name that a token is. -/
def Token.identifier? : Token → Option String
  | .word s => some s
  | .name s => some s
  | _ => none

def identifiers (ts : Tokens) : List String := ts.filterMap (·.token.identifier?)

/-- Both scopes resolve the identifiers among tokens alike. -/
def ResolvedAlike (here there : Scope) (ts : Tokens) : Prop :=
  ∀ name ∈ identifiers ts, here.resolve name = there.resolve name

theorem mem_identifiers {name : String} (first : peek ts = .word name ∨ peek ts = .name name) :
    name ∈ identifiers ts := by
  cases ts with
  | nil => rcases first with first | first <;> cases first
  | cons t ts =>
    have named : t.token.identifier? = some name := by
      rcases first with first | first <;> rw [show t.token = _ from first] <;> rfl
    exact List.mem_filterMap.2 ⟨t, List.mem_cons_self .., named⟩

theorem ResolvedAlike.tail (h : ResolvedAlike here there ts) :
    ResolvedAlike here there ts.tail := by
  intro name mem
  obtain ⟨t, ht, named⟩ := List.mem_filterMap.1 mem
  exact h name (List.mem_filterMap.2 ⟨t, List.mem_of_mem_tail ht, named⟩)

theorem resolvedAlike_kept : Kept here there (fun _ => True) (ResolvedAlike here there) where
  tail := ResolvedAlike.tail
  constant := trivial
  resolved {_ name} alike first := by
    refine ⟨alike name (mem_identifiers first), ?_⟩
    cases here.resolve name <;> trivial
  binary _ _ _ := trivial
  not _ := trivial
  call _ _ _ := trivial

/-- Scopes that resolve alike the identifiers of a text give it the same formula, or the same
error. -/
theorem parse_congr (alike : ∀ located, scan source = .ok located →
    ResolvedAlike here there located) : parse source here = parse source there :=
  (resolvedAlike_kept.parse alike).1

theorem resolve_congr {columns : List String} {c₁ c₂ : NameMap Value} {name : String}
    (same : name ∉ columns → c₁.get? name = c₂.get? name) :
    Scope.resolve ⟨columns, c₁⟩ name = Scope.resolve ⟨columns, c₂⟩ name := by
  unfold Scope.resolve
  dsimp only
  split
  · rfl
  · rename_i unknown
    rw [same (by simpa using unknown)]

theorem resolve_insert {front back : List String} {constants : NameMap Value}
    {name added : String} (apart : name ≠ added) :
    Scope.resolve ⟨front ++ added :: back, constants⟩ name =
      Scope.resolve ⟨front ++ back, constants⟩ name := by
  unfold Scope.resolve
  simp [apart]

/-- The columns of a parsed formula are columns of its scope. -/
theorem Spelled.columns_known {columns : List String} {e : Formula} (spelled : Spelled columns e) :
    ∀ c ∈ e.columns, c ∈ columns := by
  suffices ∀ c ∈ e.columnList, c ∈ columns from fun c mem => this c (mem_columns.1 mem)
  induction spelled with
  | constant => exact List.forall_mem_nil _
  | column known => exact List.forall_mem_singleton.2 known
  | binary _ _ _ left right =>
    intro c mem
    simp only [Formula.binary, columnList, columnLists, List.append_nil, List.mem_append] at mem
    exact mem.elim (left c) (right c)
  | call _ _ each =>
    intro c mem
    obtain ⟨a, ha, mem⟩ := mem_columnList_apply.1 mem
    exact each a ha c mem

end Formula

/-! ## Steps over a pipeline -/

/-- An error that calls names unknown does so for a list at one of some places. -/
def UnknownAt (places : List Place) : Error → Prop
  | .unknownColumns place _ => place ∈ places
  | _ => True

/-- A computation that calls names unknown at some places only. -/
def Doubts {α : Type} (places : List Place) (x : Except Error α) : Prop :=
  Ends x (fun _ => True) (UnknownAt places)

namespace Doubts

variable {α β : Type} {places : List Place} {x : Except Error α} {f : α → Except Error β}

theorem bind (h : Doubts places x) (next : ∀ a, Doubts places (f a)) :
    Doubts places (x >>= f) :=
  Ends.bind h fun a _ => next a

theorem of_ok {a : α} (ok : x = .ok a) : Doubts places x := by
  subst ok
  exact trivial

variable {p : Pipeline} {place : Place} {names : List String}

theorem unique : Doubts places (checkUnique place names) := by
  unfold checkUnique
  split <;> trivial

theorem known (mem : place ∈ places) : Doubts places (checkKnown place names p) := by
  unfold checkKnown
  split
  · trivial
  · exact mem

theorem reverse {reverse orderBy : List String} : Doubts places (checkReverse reverse orderBy) := by
  unfold checkReverse
  split <;> trivial

theorem assigned {w : Window} : Doubts places (w.checkAssigned names) := by
  unfold Window.checkAssigned
  split <;> trivial

theorem window {w : Window} : Doubts [.partitionBy, .orderBy] (w.check p) :=
  unique.bind fun _ => unique.bind fun _ => unique.bind fun _ =>
    (known (by decide)).bind fun _ => (known (by decide)).bind fun _ => reverse

end Doubts

namespace Pipeline

variable {p : Pipeline} {assignments : List (String × Formula)}

/-- The formula is that of some text over the columns of a pipeline and some constants. -/
def ParsedOver (p : Pipeline) (e : Formula) : Prop :=
  ∃ text constants, Formula.parse text ⟨p.columns, constants⟩ = .ok e

theorem ParsedOver.known {e : Formula} (parsed : ParsedOver p e) :
    ∀ c ∈ e.columns, c ∈ p.columns := by
  obtain ⟨text, constants, parsed⟩ := parsed
  exact (Formula.parse_spelled parsed).columns_known

theorem parsed_known (parsed : ∀ a ∈ assignments, ParsedOver p a.2) :
    ∀ c ∈ (Formula.columnsOfAll (assignments.map (·.2))).names, c ∈ p.columns := by
  intro c mem
  obtain ⟨a, ha, mem⟩ := Formula.mem_columnsOfAll.1 mem
  exact (parsed a ha).known c mem

/-- Known formulas leave the lists of the window only to be called unknown. -/
theorem extend_doubts {window : Window} (parsed : ∀ a ∈ assignments, ParsedOver p a.2) :
    Doubts [.partitionBy, .orderBy] (p.extend assignments window) := by
  unfold extend
  split
  · trivial
  · refine Doubts.unique.bind fun _ => Doubts.window.bind fun _ => Doubts.assigned.bind fun _ => ?_
    exact (Doubts.of_ok (a := ()) (checkKnown_eq_ok.2 (parsed_known parsed))).bind fun _ => trivial

/-- Known formulas leave the group columns only to be called unknown. -/
theorem project_doubts {groupBy : List String} (parsed : ∀ a ∈ assignments, ParsedOver p a.2) :
    Doubts [.groupBy] (p.project assignments groupBy) := by
  unfold project
  split
  · trivial
  · refine Doubts.unique.bind fun _ => (Doubts.known (by decide)).bind fun _ => ?_
    refine (Doubts.of_ok (a := ()) (checkKnown_eq_ok.2 (parsed_known parsed))).bind fun _ => ?_
    exact Doubts.unique.bind fun _ => trivial

/-- No step over a pipeline calls a column unknown that is in a formula parsed over the columns
of this pipeline. -/
structure TakesParsed (p : Pipeline) : Prop where
  selectRows : ∀ e, ParsedOver p e → p.selectRows e = .ok (filter p e)
  extend : ∀ assignments window names, (∀ a ∈ assignments, ParsedOver p a.2) →
    p.extend assignments window ≠ .error (.unknownColumns .extend names)
  project : ∀ assignments groupBy names, (∀ a ∈ assignments, ParsedOver p a.2) →
    p.project assignments groupBy ≠ .error (.unknownColumns .project names)

theorem takesParsed (p : Pipeline) : p.TakesParsed where
  selectRows e parsed := selectRows_eq_ok.2 ⟨parsed.known, rfl⟩
  extend assignments window names parsed refused :=
    absurd ((extend_doubts parsed).of_eq_error refused) (by simp [UnknownAt])
  project assignments groupBy names parsed refused :=
    absurd ((project_doubts parsed).of_eq_error refused) (by simp [UnknownAt])

end Pipeline

namespace Formula

/-- A parsed formula refers to columns of its list only, so the steps over a pipeline with these
columns do not call them unknown. Constants are looked up for the names alone that are no columns,
and a further column changes nothing for a text that does not name it. -/
theorem names_resolved_locally (source : String) (columns : List String) (c₁ c₂ : NameMap Value) :
    (∀ e, parse source ⟨columns, c₁⟩ = .ok e → ∀ c ∈ e.columns, c ∈ columns) ∧
      (∀ p : Pipeline, p.TakesParsed) ∧
      ((∀ name, name ∉ columns → c₁.get? name = c₂.get? name) →
        parse source ⟨columns, c₁⟩ = parse source ⟨columns, c₂⟩) ∧
      (∀ front back added, columns = front ++ back →
        (∀ located, scan source = .ok located → added ∉ identifiers located) →
        parse source ⟨front ++ added :: back, c₁⟩ = parse source ⟨columns, c₁⟩) := by
  refine ⟨fun e parsed => (parse_spelled parsed).columns_known, Pipeline.takesParsed,
    fun same => ?_, ?_⟩
  · exact parse_congr fun located _ name _ => resolve_congr (same name)
  · rintro front back added rfl absent
    refine parse_congr fun located scanned name mem => resolve_insert ?_
    rintro rfl
    exact absent located scanned mem

/-- A constant behind a column's name does not matter, nor does a column that is not named. -/
theorem names_resolved_locally_shadowed :
    let hidden : NameMap Value := .ofList [("a", .int 5), ("k", .int 1)]
    let bare : NameMap Value := .ofList [("k", .int 1)]
    let e := binary "+" (column "a") (int 1)
    parse "a + k" ⟨["a"], hidden⟩ = .ok e ∧ (∀ c ∈ e.columns, c ∈ ["a"]) ∧
      (∀ name, name ∉ ["a"] → hidden.get? name = bare.get? name) ∧
      parse "a + k" ⟨["a"], hidden⟩ = parse "a + k" ⟨["a"], bare⟩ ∧
      (∀ located, scan "a + k" = .ok located → "b" ∉ identifiers located) ∧
      parse "a + k" ⟨["b", "a"], hidden⟩ = parse "a + k" ⟨["a"], hidden⟩ := by
  intro hidden bare e
  have parsed : parse "a + k" ⟨["a"], hidden⟩ = .ok e := by decide +kernel
  have same : ∀ name, name ∉ ["a"] → hidden.get? name = bare.get? name := by
    intro name other
    simp only [hidden, bare, NameMap.ofList, NameMap.addAll, List.foldl_cons, List.foldl_nil,
      NameMap.get?_insert]
    rw [if_neg (show name ≠ "a" by simpa using other)]
  have absent : ∀ located, scan "a + k" = .ok located → "b" ∉ identifiers located := by
    intro located scanned
    have tokens : scan "a + k" =
        .ok [⟨.word "a", 0⟩, ⟨.op .plus, 2⟩, ⟨.word "k", 4⟩, ⟨.eof, 5⟩] := by
      decide +kernel
    obtain rfl := Except.ok.inj (scanned.symm.trans tokens)
    decide
  obtain ⟨known, -, constants, added⟩ := names_resolved_locally "a + k" ["a"] hidden bare
  exact ⟨parsed, known e parsed, same, constants same, absent, added [] ["a"] "b" rfl absent⟩

end Formula

end TableFlow
