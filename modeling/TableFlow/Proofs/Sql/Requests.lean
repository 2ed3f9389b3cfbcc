import TableFlow.Proofs.Sql.Nesting

/-!
# Requests for SQL text

What the text of a request for columns of a built pipeline is (`text_serves`), and when
there is one (`request_ends`). A request has none if on its way down it asks some pipeline
for no column, as a constant does that is all that is wanted.
-/

namespace TableFlow.Sql

open Pipeline

variable {p : Pipeline} {u : NameSet}

theorem plain (b : Base) (s : Settings) : (Dialect.withSettings b s).forms = builtinForms := rfl

/-- The text of a request is that of a query that serves it; the outermost select list is
the request. -/
theorem text_serves (built : p.Built) (b : Base) (s : Settings)
    (known : ∀ c ∈ u, c ∈ p.columns) {counter next : Nat} {text : String}
    (h : compileText (.withSettings b s) p (some u) counter = (.ok text, next)) :
    ∃ q : Query, text = q.text s ∧ Serves p u q ∧ q.labels = p.columns.filter (· ∈ u) ∧
      q.labels.Nodup ∧ ∀ c, c ∈ q.labels ↔ c ∈ u := by
  have hu : (some u).getD p.columnSet = u := rfl
  have ends := compile_ends (plain b s) built hu known counter
  rw [compileText] at h
  rcases run : (compile (.withSettings b s) p (some u)).run counter with ⟨_ | q, next⟩
  · rw [run] at h
    cases h
  · rw [run] at h ends
    cases h
    have labels := ends.1.labels
    exact ⟨q, rfl, ends.1, labels, labels ▸ built.columns_nodup.filter _,
      fun c => ends.1.mem_labels known⟩

theorem text_serves_sum :
    ∃ q : Query, "SELECT \"x\" + 1 AS \"z\" FROM ( SELECT \"x\" FROM \"d\" ) \"SQ_0\"" =
        q.text Settings.default ∧
      Serves (.extension (.table ⟨"d", .empty, ["x", "y"]⟩)
        [("z", .binary "+" (.column "x") (.int 1))] .whole) (.ofList ["z"]) q ∧
      q.labels = ["z"] ∧ q.labels.Nodup ∧ ∀ c, c ∈ q.labels ↔ c ∈ NameSet.ofList ["z"] := by
  have table : TableRef.of "d" ["x", "y"] .empty = .ok ⟨"d", .empty, ["x", "y"]⟩ := by decide
  have sum : Pipeline.extend (.table ⟨"d", .empty, ["x", "y"]⟩)
      [("z", .binary "+" (.column "x") (.int 1))] .whole = .ok _ := rfl
  have text : compileText (.withSettings .generic .default)
      (.extension (.table ⟨"d", .empty, ["x", "y"]⟩)
        [("z", .binary "+" (.column "x") (.int 1))] .whole) (some (.ofList ["z"])) 0 =
      (.ok "SELECT \"x\" + 1 AS \"z\" FROM ( SELECT \"x\" FROM \"d\" ) \"SQ_0\"", 1) := rfl
  exact text_serves (.extend (.table table) sum) .generic .default (by decide) text

/-- A request ends with a text, and then every pipeline inside is asked for some column; or
with what the dialect refuses; or some pipeline inside is asked for none. It is refused in
spite of that only where the left side of a join was compiled first. -/
theorem request_ends (built : p.Built) (b : Base) (s : Settings)
    (known : ∀ c ∈ u, c ∈ p.columns) :
    Ends (sqlText (.withSettings b s) p (some u)) (fun _ => Asked p u)
      (fun e => Refused (.withSettings b s) e ∧ (Asked p u ∨ LeftAsked p u) ∨
        (∃ kind, e = .emptySelection kind) ∧ ¬Asked p u) := by
  have hu : (some u).getD p.columnSet = u := rfl
  have ends := compile_ends (plain b s) built hu known 0
  rw [sqlText, compileText]
  rcases run : (compile (.withSettings b s) p (some u)).run 0 with ⟨_ | q, next⟩
  · rw [run] at ends
    exact ends
  · rw [run] at ends
    exact ends.2

theorem request_ends_sum :
    let p := extension (.table ⟨"d", .empty, ["x", "y"]⟩)
      [("z", .binary "+" (.column "x") (.int 1))] .whole
    let u := NameSet.ofList ["z"]
    sqlText (.withSettings .generic .default) p (some u) =
        .ok "SELECT \"x\" + 1 AS \"z\" FROM ( SELECT \"x\" FROM \"d\" ) \"SQ_0\"" ∧
      Asked p u := by
  intro p u
  have table : TableRef.of "d" ["x", "y"] .empty = .ok ⟨"d", .empty, ["x", "y"]⟩ := by decide
  have sum : Pipeline.extend (.table ⟨"d", .empty, ["x", "y"]⟩)
      [("z", .binary "+" (.column "x") (.int 1))] .whole = .ok p := rfl
  have text : sqlText (.withSettings .generic .default) p (some u) =
      .ok "SELECT \"x\" + 1 AS \"z\" FROM ( SELECT \"x\" FROM \"d\" ) \"SQ_0\"" := rfl
  have ends := request_ends (.extend (.table table) sum) .generic .default (u := u) (by decide)
  exact ⟨text, ends.of_eq_ok text⟩

/-- A constant that is all that is wanted reads nothing, and so has no text. -/
theorem constant_request_refused :
    let p := extension (.table ⟨"d", .empty, ["x"]⟩) [("k", .int 1)] .whole
    let u := NameSet.ofList ["k"]
    p.Built ∧ u.names ≠ [] ∧ (∀ c ∈ u, c ∈ p.columns) ∧
      sqlText (.ofBase .duckdb) p (some u) = .error (.emptySelection .table) := by
  have table : TableRef.of "d" ["x"] .empty = .ok ⟨"d", .empty, ["x"]⟩ := by decide
  have constant : Pipeline.extend (.table ⟨"d", .empty, ["x"]⟩) [("k", .int 1)] .whole =
      .ok _ := rfl
  exact ⟨.extend (.table table) constant, by decide, by decide, rfl⟩

end TableFlow.Sql
