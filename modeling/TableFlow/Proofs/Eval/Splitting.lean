import TableFlow.Proofs.Eval.Agreement
import TableFlow.Proofs.Eval.Refusals

/-!
# One extension as two

All assignments of an extension are evaluated on the table that it reads, so none sees the value
of another. An extension is therefore two, one over the other, wherever its list is cut, if no
formula of the second part reads a name that the first part assigns (`extension_cut`). The first
one leaves the columns that the second one reads as they are; so the two give the values of the
whole list, or its first error, and a column holds the last cells put in under its name.
-/

namespace TableFlow

namespace Pipeline

variable {source q : Pipeline} {assignments some first second : List (String × Formula)}
  {window : Window}

/-! ## Parts of an extension -/

theorem withMissing_append {l first second : List String} (apart : ∀ c ∈ second, c ∉ first) :
    withMissing (withMissing l first) second = withMissing l (first ++ second) := by
  have same : second.filter (!(withMissing l first).contains ·) =
      second.filter (!l.contains ·) := by
    refine List.filter_congr fun c mem => ?_
    simp [mem_withMissing, apart c mem]
  rw [withMissing, same, withMissing, withMissing, List.filter_append, List.append_assoc]

theorem ExtensionFits.of_sublist (fits : ExtensionFits source assignments window)
    (sub : some.Sublist assignments) (ne : some ≠ []) : ExtensionFits source some window where
  assigns := ne
  nodup := fits.nodup.sublist (sub.map _)
  placed := fits.placed
  apart c mem := fits.apart c ((sub.map _).subset mem)
  known c mem := by
    obtain ⟨a, ha, read⟩ := Formula.mem_columnsOfAll.1 mem
    exact fits.known c (Formula.mem_columnsOfAll.2 ⟨a, sub.subset ha, read⟩)

/-- What fits a source fits a source with more columns. -/
theorem ExtensionFits.above (fits : ExtensionFits source assignments window)
    (more : ∀ c ∈ source.columns, c ∈ q.columns) : ExtensionFits q assignments window where
  assigns := fits.assigns
  nodup := fits.nodup
  placed :=
    { fits.placed with
      partition_known := fun c mem => more c (fits.placed.partition_known c mem)
      order_known := fun c mem => more c (fits.placed.order_known c mem) }
  apart := fits.apart
  known c mem := more c (fits.known c mem)

theorem ExtensionFits.cut (fits : ExtensionFits source (first ++ second) window)
    (someFirst : first ≠ []) (someSecond : second ≠ []) :
    ExtensionFits source first window ∧
      ExtensionFits (extension source first window) second window :=
  ⟨fits.of_sublist (List.sublist_append_left first second) someFirst,
    (fits.of_sublist (List.sublist_append_right first second) someSecond).above fun _ mem =>
      mem_withMissing.2 (.inl mem)⟩

theorem columns_extension_append
    (fits : ExtensionFits source (first ++ second) window) :
    (extension (extension source first window) second window).columns =
      (extension source (first ++ second) window).columns := by
  have apart := (List.nodup_append.1 (List.map_append ▸ fits.nodup)).2.2
  rw [columns, columns, columns, List.map_append]
  exact withMissing_append fun c mem here => apart c here c mem rfl

theorem ExtensionFits.operand_known (fits : ExtensionFits source assignments window)
    {a : String × Formula} (ha : a ∈ assignments) {c : String} (read : c ∈ a.2.columns) :
    c ∈ source.columns :=
  fits.known c (Formula.mem_columnsOfAll.2 ⟨a, ha, read⟩)

theorem ExtensionFits.window_known (fits : ExtensionFits source assignments window) {c : String}
    (mem : c ∈ window.partitionBy ++ window.orderBy) : c ∈ source.columns :=
  (List.mem_append.1 mem).elim (fits.placed.partition_known c) (fits.placed.order_known c)

end Pipeline

namespace Eval

open Pipeline Table

variable {source : Pipeline} {assignments first second : List (String × Formula)}
  {window : Window} {t s : Table} {results : List (String × List Value)}

/-! ## The values of a list of assignments -/

def valuesOf (t : Table) (window : Window) (assignments : List (String × Formula)) :
    Except EvalError (List (String × List Value)) :=
  assignments.mapM fun (name, e) => do .ok (name, ← assigned t window e)

theorem valuesOf_append :
    valuesOf t window (first ++ second) = (do
      let a ← valuesOf t window first
      let b ← valuesOf t window second
      .ok (a ++ b)) :=
  List.mapM_append

theorem valuesOf_agree {v : NameSet} (h : Agree v s t)
    (reads : ∀ a ∈ assignments, ∀ c ∈ a.2.columns, c ∈ v)
    (placed : ∀ c ∈ window.partitionBy ++ window.orderBy, c ∈ v) :
    valuesOf s window assignments = valuesOf t window assignments :=
  mapM_congr fun a ha => by
    show (assigned s window a.2 >>= _) = (assigned t window a.2 >>= _)
    rw [assigned_agree h (reads a ha) placed]

theorem extendTable_of_error {columns : List String} {e : EvalError}
    (failed : valuesOf t window assignments = .error e) :
    extendTable t assignments window columns = .error e := by
  show (valuesOf t window assignments >>= _) = _
  rw [failed]
  rfl

/-- An extension whose assignments have values gives them out: under each name what was put in
last, or else what was read. -/
theorem extendTable_of_values (built : source.Built)
    (fits : ExtensionFits source assignments window) (wf : t.WellFormed)
    (names : t.names = source.columns) (values : valuesOf t window assignments = .ok results) :
    ∃ r, extendTable t assignments window (extension source assignments window).columns = .ok r ∧
      r.WellFormed ∧ r.names = (extension source assignments window).columns ∧
      ∀ c, r.cells? c = ((results.reverse.find? (·.1 = c)).map (·.2)).or (t.cells? c) := by
  have ends := values_ends wf
    (fun a ha c read => names ▸ fits.operand_known ha (Formula.mem_columns.2 read))
    fun c mem => names ▸ fits.window_known mem
  have each := ends.of_eq_ok values
  have keys : results.map (·.1) = assignments.map (·.1) :=
    map_eq_map_of_forall₂ (each.imp fun _ _ h => h.1)
  have column : ∀ c, c ∈ (extension source assignments window).columns ↔
      c ∈ t.names ∨ c ∈ results.map (·.1) := fun c => by
    rw [names, keys]
    exact mem_withMissing
  have nodup : (extension source assignments window).columns.Nodup :=
    nodup_withMissing built.columns_nodup fits.nodup
  obtain ⟨r, put, wfr, namesr, cells⟩ := Ends.exists_ok (put_ends wf
    (names ▸ built.columns_ne_nil)
    (fun result mem => (exists_of_forall₂ each mem).elim fun _ h => h.2.2) nodup
    fun c => (column c).1)
  refine ⟨r, ?_, wfr, namesr, fun c => ?_⟩
  · show (valuesOf t window assignments >>= _) = _
    rw [values]
    exact put
  · by_cases mem : c ∈ (extension source assignments window).columns
    · exact cells c mem
    · obtain ⟨unread, unassigned⟩ := not_or.1 ((column c).not.1 mem)
      have none : results.reverse.find? (·.1 = c) = none :=
        find?_key_none.2 (by rwa [List.map_reverse, List.mem_reverse])
      rw [cells?_eq_none.2 (namesr ▸ mem), none, cells?_eq_none.2 unread]
      rfl

/-! ## Two extensions -/

/-- The second part has the same values on what the first part gives out: what it reads is not
assigned there. -/
theorem valuesOf_extended (built : source.Built)
    (fits : ExtensionFits source (first ++ second) window)
    (fits₁ : ExtensionFits source first window)
    (apart : ∀ a ∈ second, ∀ c ∈ a.2.columns, c ∉ first.map (·.1)) (wf : t.WellFormed)
    (names : t.names = source.columns)
    (made : extendTable t first window (extension source first window).columns = .ok s) :
    valuesOf s window second = valuesOf t window second := by
  have kept : ∀ c ∈ source.columns, c ∈ (extension source first window).columns := fun c mem =>
    mem_withMissing.2 (.inl mem)
  obtain ⟨c, here⟩ := List.exists_mem_of_ne_nil _ built.columns_ne_nil
  obtain ⟨-, -, rows, -, cells⟩ := extendTable_eq_ok made wf (names ▸ built.columns_ne_nil)
    (List.ne_nil_of_mem (kept c here)) fits₁.nodup
  -- the columns that are not assigned: formulas read them by `apart`, the window by its checks
  have agree : Agree (.ofList (source.columns.filter (· ∉ first.map (·.1)))) s t := by
    refine ⟨rows, fun c mem => ?_⟩
    obtain ⟨read, unassigned⟩ := List.mem_filter.1 (NameSet.mem_ofList.1 mem)
    exact cells c (kept c read) (of_decide_eq_true unassigned)
  refine valuesOf_agree agree (fun a ha c read => ?_) fun c mem => ?_
  · exact NameSet.mem_ofList.2 (List.mem_filter.2
      ⟨fits.operand_known (List.mem_append_right _ ha) read, decide_eq_true (apart a ha c read)⟩)
  · refine NameSet.mem_ofList.2 (List.mem_filter.2
      ⟨fits.window_known mem, decide_eq_true fun assigned => ?_⟩)
    obtain ⟨partition, order⟩ := fits₁.apart c assigned
    exact (List.mem_append.1 mem).elim partition order

theorem extendTable_append (built : source.Built) (someFirst : first ≠ [])
    (someSecond : second ≠ []) (fits : ExtensionFits source (first ++ second) window)
    (apart : ∀ a ∈ second, ∀ c ∈ a.2.columns, c ∉ first.map (·.1)) (wf : t.WellFormed)
    (names : t.names = source.columns) :
    (extendTable t first window (extension source first window).columns >>= fun s =>
      extendTable s second window
        (extension (extension source first window) second window).columns) =
    extendTable t (first ++ second) window
      (extension source (first ++ second) window).columns := by
  obtain ⟨fits₁, fits₂⟩ := fits.cut someFirst someSecond
  have built₁ : (extension source first window).Built := .extend built (extend_eq_ok.2 ⟨fits₁, rfl⟩)
  have whole : valuesOf t window (first ++ second) = _ := valuesOf_append
  cases ha : valuesOf t window first with
  | error e =>
    rw [ha] at whole
    rw [extendTable_of_error ha, extendTable_of_error whole]
    rfl
  | ok a =>
    obtain ⟨s, made, wfs, namess, cellss⟩ := extendTable_of_values built fits₁ wf names ha
    have same := valuesOf_extended built fits fits₁ apart wf names made
    rw [made]
    show extendTable s second window _ = _
    cases hb : valuesOf t window second with
    | error e =>
      rw [ha, hb] at whole
      rw [extendTable_of_error (same.trans hb), extendTable_of_error whole]
    | ok b =>
      rw [ha, hb] at whole
      obtain ⟨r, stacked, wfr, namesr, cellsr⟩ :=
        extendTable_of_values built₁ fits₂ wfs namess (same.trans hb)
      obtain ⟨r', single, wfr', namesr', cellsr'⟩ := extendTable_of_values built fits wf names whole
      -- the last cells of a name in `a ++ b` are those in `b`, else those in `a`, else the old ones
      have equal : r = r' := by
        refine wfr'.eq_of_cells wfr ?_ fun c _ => ?_
        · rw [namesr, namesr', columns_extension_append fits]
        · rw [cellsr, cellss, cellsr', List.reverse_append, List.find?_append, Option.map_or,
            Option.or_assoc]
      rw [stacked, single, equal]

/-- An extension is two, wherever its list is cut, if no formula of the second part reads a name
that the first part assigns: both are accepted, give the same columns in the same order and,
whatever tables are bound, the same table or the same error. -/
theorem extension_cut {p : Pipeline} (built : source.Built)
    (whole : source.extend (first ++ second) window = .ok p)
    (someFirst : first ≠ []) (someSecond : second ≠ [])
    (apart : ∀ a ∈ second, ∀ c ∈ a.2.columns, c ∉ first.map (·.1)) :
    ∃ q r, source.extend first window = .ok q ∧ q.extend second window = .ok r ∧
      r.columns = p.columns ∧ ∀ bindings, run bindings r = run bindings p := by
  obtain ⟨fits, rfl⟩ := extend_eq_ok.1 whole
  obtain ⟨fits₁, fits₂⟩ := fits.cut someFirst someSecond
  refine ⟨_, _, extend_eq_ok.2 ⟨fits₁, rfl⟩, extend_eq_ok.2 ⟨fits₂, rfl⟩,
    columns_extension_append fits, fun bindings => ?_⟩
  rw [run, run, run]
  cases ran : run bindings source with
  | error e => rfl
  | ok t =>
    obtain ⟨wf, names⟩ := run_schema built ran
    exact extendTable_append built someFirst someSecond fits apart wf names

/-- The second part counts and sums over the window, and reads the column that it overwrites. -/
theorem extension_cut_window :
    let source := Pipeline.table ⟨"d", .empty, ["g", "x", "y"]⟩
    let window : Window := ⟨["g"], ["x"], ["x"]⟩
    let first := [("z", Formula.column "y"), ("w", .binary "+" (.column "x") (.column "y"))]
    let second := [("n", .rowNumber), ("y", .binary "*" (.column "y") (.column "x")),
      ("s", .call "sum" [.column "y"])]
    ∃ p q r, source.extend (first ++ second) window = .ok p ∧
      source.extend first window = .ok q ∧ q.extend second window = .ok r ∧
      p.columns = ["g", "x", "y", "z", "w", "n", "s"] ∧ r.columns = p.columns ∧
      ∀ bindings, run bindings r = run bindings p := by
  intro source window first second
  have table : TableRef.of "d" ["g", "x", "y"] .empty = .ok ⟨"d", .empty, ["g", "x", "y"]⟩ := by
    decide
  have built : source.Built := .table table
  obtain ⟨p, whole⟩ : ∃ p, source.extend (first ++ second) window = .ok p := ⟨_, rfl⟩
  have apart : ∀ a ∈ second, ∀ c ∈ a.2.columns, c ∉ first.map (·.1) := by decide
  obtain ⟨q, r, below, above, columns, same⟩ :=
    extension_cut built whole (by decide) (by decide) apart
  refine ⟨p, q, r, whole, below, above, ?_, columns, same⟩
  obtain rfl := Except.ok.inj whole
  decide

end Eval

end TableFlow
