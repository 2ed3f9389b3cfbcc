import TableFlow.Proofs.Eval.Locality
import TableFlow.Proofs.Eval.Ordering
import TableFlow.Proofs.Eval.Ranks

/-!
# Two filters as one

A filter keeps the rows where its condition is true, and a conjunction is true where both sides
are. So where the filter by a conjunction has a result, the filter by one side and then by the
other has the same one (`filter_and`): the second condition has the values on the kept rows that
it has on all rows, and the rows kept of these are the rows kept at once. Only this direction
holds: on rows that the first filter drops, the second condition may fail.
-/

namespace TableFlow.Eval

open Table

variable {t s r : Table} {positions : List Nat} {p q : Formula} {a b v : Value}

/-! ## Conjunctions -/

/-- A conjunction is true where both sides are. -/
theorem binary_and (answer : binary "and" a b = .ok v) :
    v = .bool true ↔ a = .bool true ∧ b = .bool true := by
  have true_iff : ∀ {c : Value} {x : Option Bool}, truth? c = some x →
      (c = .bool true ↔ x = some true) := fun {c x} known => by
    cases c <;> cases known <;> simp
  have combine : logic "and" and3 a b = .ok v := answer
  unfold logic at combine
  split at combine
  · rename_i x y knowna knownb
    obtain rfl := Except.ok.inj combine
    rw [true_iff knowna, true_iff knownb]
    rcases x with _ | _ | _ <;> rcases y with _ | _ | _ <;> simp [and3, ofTruth]
  · cases combine

/-- A conjunction that has values has them from its sides, row by row. -/
theorem rowwise_and {both : List Value} (wf : t.WellFormed)
    (evaluated : rowwise t (.binary "and" p q) = .ok both) :
    ∃ ps qs, rowwise t p = .ok ps ∧ rowwise t q = .ok qs ∧ both.length = t.numRows ∧
      ∀ i < t.numRows, both[i]?.getD .null = .bool true ↔
        ps[i]?.getD .null = .bool true ∧ qs[i]?.getD .null = .bool true := by
  obtain ⟨-, columns, each, even, answers⟩ := (rowwise_apply_eq_ok wf).1 evaluated
  obtain _ | ⟨evaluatedp, _ | ⟨evaluatedq, ⟨⟩⟩⟩ := each
  refine ⟨_, _, evaluatedp, evaluatedq, even, fun i row => ?_⟩
  rw [List.getElem?_eq_getElem (even ▸ row)]
  exact binary_and (answers i (even ▸ row))

/-! ## The rows that a filter keeps -/

def truePositions (answers : List Value) : List Nat :=
  (answers.zipIdx.filter (·.1 = .bool true)).map (·.2)

theorem inside_truePositions {answers : List Value} :
    ∀ i ∈ truePositions answers, i < answers.length := by
  intro i mem
  obtain ⟨⟨v, j⟩, within, rfl⟩ := List.mem_map.1 mem
  simpa using List.snd_lt_of_mem_zipIdx (List.mem_filter.1 within).1

/-- What stands at the positions of the true answers is what they are true of. -/
theorem map_truePositions {l : List Nat} {value : Nat → Value} :
    (truePositions (l.map value)).map (fun j => l[j]?.getD 0) =
      l.filter fun i => value i = .bool true := by
  have own : ∀ x ∈ l.zipIdx, l[x.2]?.getD 0 = x.1 := fun x mem => by
    rw [List.mem_zipIdx_iff_getElem?.1 mem, Option.getD_some]
  calc (truePositions (l.map value)).map (fun j => l[j]?.getD 0)
      = (l.zipIdx.filter fun x => value x.1 = .bool true).map fun x => l[x.2]?.getD 0 := by
        rw [truePositions, List.zipIdx_map, List.filter_map, List.map_map, List.map_map]
        rfl
    _ = (l.zipIdx.filter fun x => value x.1 = .bool true).map (·.1) :=
        List.map_congr_left fun x mem => own x (List.mem_filter.1 mem).1
    _ = l.filter fun i => value i = .bool true := by
        rw [← List.zipIdx_map_fst (l := l) 0, List.filter_map]
        simp
        rfl

/-- A filter keeps the rows at which its condition is true. -/
theorem truePositions_eq {answers : List Value} :
    truePositions answers = (List.range answers.length).filter fun i =>
      answers[i]?.getD .null = .bool true := by
  have all : (List.range answers.length).map (answers[·]?.getD .null) = answers :=
    cellsOn_range rfl
  rw [← map_truePositions, all]
  refine (List.map_id' _).symm.trans (List.map_congr_left fun i mem => ?_)
  simp [inside_truePositions i mem]

/-- Of the rows kept by one condition, those kept by another are the rows kept by both. -/
theorem truePositions_both {ps qs both : List Value} (even : ps.length = both.length)
    (agree : ∀ i < both.length, both[i]?.getD .null = .bool true ↔
      ps[i]?.getD .null = .bool true ∧ qs[i]?.getD .null = .bool true) :
    (truePositions (cellsOn (truePositions ps) qs)).map (fun j => (truePositions ps)[j]?.getD 0) =
      truePositions both := by
  rw [cellsOn, map_truePositions, truePositions_eq, truePositions_eq, List.filter_filter, even]
  refine List.filter_congr fun i mem => ?_
  rw [← Bool.decide_and, decide_eq_decide, and_comm]
  exact (agree i (List.mem_range.1 mem)).symm

/-- Rows taken of rows taken. -/
theorem take?_take? {chosen : List Nat} (wf : t.WellFormed)
    (inside : ∀ i ∈ positions, i < t.numRows) (taken : t.take? positions = some s)
    (within : ∀ j ∈ chosen, j < positions.length) :
    s.take? chosen = t.take? (chosen.map fun j => positions[j]?.getD 0) := by
  have rows := take?_numRows_of_inside inside taken
  have place : ∀ j, ∀ h : j < positions.length, positions[j]?.getD 0 = positions[j] :=
    fun j h => by rw [List.getElem?_eq_getElem h, Option.getD_some]
  have inside' : ∀ i ∈ chosen.map fun j => positions[j]?.getD 0, i < t.numRows := fun i mem => by
    obtain ⟨j, here, rfl⟩ := List.mem_map.1 mem
    rw [place j (within j here)]
    exact inside _ (List.getElem_mem _)
  rw [take?_eq (wf.take? taken) fun j mem => rows ▸ within j mem, take?_eq wf inside',
    take?_names taken]
  refine congrArg (fun columns => some (Table.mk columns)) (List.map_congr_left fun c known => ?_)
  rw [List.map_map]
  refine congrArg (Column.mk c) (List.map_congr_left fun j mem => ?_)
  rw [cell_taken wf known inside taken (within j mem), Function.comp, place j (within j mem)]

/-- The second condition can be evaluated on the kept rows, as it can be on all of them. -/
theorem filterTable_and (wf : t.WellFormed)
    (kept : filterTable t (.binary "and" p q) = .ok r) :
    (filterTable t p >>= fun s => filterTable s q) = .ok r := by
  obtain ⟨both, evaluated, taken⟩ := filterTable_eq_ok.1 kept
  obtain ⟨ps, qs, evaluatedp, evaluatedq, even, agree⟩ := rowwise_and wf evaluated
  have inside : ∀ i ∈ truePositions ps, i < t.numRows := fun i mem =>
    length_rowwise wf evaluatedp ▸ inside_truePositions i mem
  obtain ⟨s, takenp⟩ := wf.exists_take? inside
  have again := rowwise_taken wf inside takenp q evaluatedq
  have within : ∀ j ∈ truePositions (cellsOn (truePositions ps) qs),
      j < (truePositions ps).length := fun j mem => length_cellsOn ▸ inside_truePositions j mem
  have first : filterTable t p = .ok s := filterTable_eq_ok.2 ⟨ps, evaluatedp, takenp⟩
  rw [first]
  refine filterTable_eq_ok.2 ⟨_, again, ?_⟩
  show s.take? (truePositions _) = some r
  rw [take?_take? wf inside takenp within,
    truePositions_both ((length_rowwise wf evaluatedp).trans even.symm) (even ▸ agree)]
  exact taken

/-! ## Runs -/

/-- Over any source, the filter by a conjunction of two formulas of its columns and the two
filters one after the other are accepted; whatever tables are bound, if the conjunction gives a
table, then so do the two filters, with the same rows in the same order. -/
theorem filter_and {source : Pipeline} (built : source.Built)
    (knownp : ∀ c ∈ p.columns, c ∈ source.columns)
    (knownq : ∀ c ∈ q.columns, c ∈ source.columns) :
    ∃ both first second, source.selectRows (.binary "and" p q) = .ok both ∧
      source.selectRows p = .ok first ∧ first.selectRows q = .ok second ∧
      ∀ bindings r, run bindings both = .ok r → run bindings second = .ok r := by
  have sides : ∀ side ∈ [p, q], ∀ c ∈ side.columns, c ∈ source.columns := by
    simpa using ⟨knownp, knownq⟩
  have known : ∀ c ∈ (Formula.binary "and" p q).columns, c ∈ source.columns := fun c read => by
    obtain ⟨side, mem, inside⟩ := Formula.mem_columnList_apply.1 (Formula.mem_columns.1 read)
    exact sides side mem c (Formula.mem_columns.2 inside)
  refine ⟨_, _, _, Pipeline.selectRows_eq_ok.2 ⟨known, rfl⟩,
    Pipeline.selectRows_eq_ok.2 ⟨knownp, rfl⟩, Pipeline.selectRows_eq_ok.2 ⟨knownq, rfl⟩,
    fun bindings r ran => ?_⟩
  obtain ⟨t, below, kept⟩ := bind_eq_ok.1 ran
  rw [run, run, below]
  exact filterTable_and (run_schema built below).1 kept

/-- Rows where a side is null or false go, in whichever order the sides are asked. -/
theorem filter_and_null :
    let source := Pipeline.table ⟨"d", .empty, ["x", "y"]⟩
    let p := Formula.binary ">" (.column "x") (.int 1)
    let q := Formula.binary "!=" (.column "y") (.constant (.text "a"))
    let bindings := NameMap.ofList [("d", Table.mk [⟨"x", [.int 2, .null, .int 3, .int 1, .int 2]⟩,
      ⟨"y", [.text "b", .text "b", .null, .text "c", .text "c"]⟩])]
    ∃ both first second, source.selectRows (.binary "and" p q) = .ok both ∧
      source.selectRows p = .ok first ∧ first.selectRows q = .ok second ∧
      run bindings second = .ok ⟨[⟨"x", [.int 2, .int 2]⟩, ⟨"y", [.text "b", .text "c"]⟩]⟩ := by
  intro source p q bindings
  have table : TableRef.of "d" ["x", "y"] .empty = .ok ⟨"d", .empty, ["x", "y"]⟩ := by decide
  have built : source.Built := .table table
  have knownp : ∀ c ∈ p.columns, c ∈ source.columns := by decide
  have knownq : ∀ c ∈ q.columns, c ∈ source.columns := by decide
  obtain ⟨both, first, second, whole, below, above, same⟩ := filter_and built knownp knownq
  refine ⟨both, first, second, whole, below, above, same bindings _ ?_⟩
  obtain rfl := Except.ok.inj whole
  decide

/-- The second condition does not fit a row that the first one drops. -/
example :
    let source := Pipeline.table ⟨"d", .empty, ["x", "y"]⟩
    let bindings := NameMap.ofList [("d", Table.mk [⟨"x", [.bool false, .bool true]⟩,
      ⟨"y", [.int 1, .bool true]⟩])]
    run bindings (.filter source (.binary "and" (.column "x") (.column "y"))) =
        .error (.typeMismatch "and" "bool" "int") ∧
      run bindings (.filter (.filter source (.column "x")) (.column "y")) =
        .ok ⟨[⟨"x", [.bool true]⟩, ⟨"y", [.bool true]⟩]⟩ := by
  decide

end TableFlow.Eval
