import TableFlow.Proofs.Demand
import TableFlow.Proofs.Eval.Refusals

/-!
# Renaming and renaming back

A builder accepts a renaming by a test of one new name at a time. `Renames` says what the pairs
make of a column, so a renaming of a list of columns is known without that test: it is accepted
just if the new list has no name twice (`accepted_iff`). The pairs turned around then fit the
result and lead back to the source, in its columns, in its table and in what is asked of it
(`renaming_undone`).
-/

namespace TableFlow

namespace Pipeline

variable {source p : Pipeline} {pairs : List (String × String)} {names : List String}
  {c d : String}

/-! ## New names of a list -/

/-- What pairs of a new and an old name make of a column: the new name of its pair, or its own
name if it has no pair. -/
inductive Renames (pairs : List (String × String)) : String → String → Prop where
  | pair {new old : String} : (new, old) ∈ pairs → Renames pairs old new
  | kept {c : String} : c ∉ pairs.map (·.2) → Renames pairs c c

theorem renames_iff (olds : (pairs.map (·.2)).Nodup) : Renames pairs c d ↔ newName pairs c = d := by
  constructor
  · rintro (mem | none)
    · exact newName_of_mem olds mem
    · exact newName_of_not_mem none
  · rintro rfl
    by_cases old : c ∈ pairs.map (·.2)
    · obtain ⟨pair, mem, rfl⟩ := List.mem_map.1 old
      rw [newName_of_mem olds mem]
      exact .pair mem
    · rw [newName_of_not_mem old]
      exact .kept old

/-- Distinct old names give each list of columns one list of new names. -/
theorem renames_list (olds : (pairs.map (·.2)).Nodup) {columns : List String} :
    List.Forall₂ (Renames pairs) columns names ↔ columns.map (newName pairs) = names := by
  constructor
  · intro each
    exact (map_eq_map_of_forall₂ (g := id) (each.imp fun c d h =>
      ((renames_iff olds).1 h).symm)).symm.trans (List.map_id _)
  · rintro rfl
    exact List.forall₂_map_right_iff.2 (List.forall₂_same.2 fun c _ => (renames_iff olds).2 rfl)

/-- A collision of one pair makes a name come twice, and a name that comes twice is a collision
of one pair: of two columns with one new name, one keeps it. -/
theorem accepted_iff (nodup : source.columns.Nodup) (some : pairs ≠ [])
    (news : (pairs.map (·.1)).Nodup) (olds : (pairs.map (·.2)).Nodup)
    (known : ∀ c ∈ pairs.map (·.2), c ∈ source.columns) :
    (∃ p, source.renameColumns pairs = .ok p) ↔ (source.columns.map (newName pairs)).Nodup := by
  constructor
  · rintro ⟨p, made⟩
    exact (renameColumns_eq_ok.1 made).1.nodup_columns nodup
  · intro apart
    refine ⟨_, renameColumns_eq_ok.2 ⟨⟨some, news, olds, known, fun new mem column => ?_⟩, rfl⟩⟩
    by_contra kept
    -- the column of that name keeps it, and the pair gives it to another column
    obtain ⟨pair, here, rfl⟩ := List.mem_map.1 mem
    have old : pair.2 ∈ pairs.map (·.2) := List.mem_map_of_mem here
    have same : newName pairs pair.1 = newName pairs pair.2 := by
      rw [newName_of_not_mem kept, newName_of_mem olds here]
    have both : pair.1 = pair.2 :=
      List.inj_on_of_nodup_map apart column (known _ old) same
    exact kept (both ▸ old)

/-! ## The pairs turned around -/

def turned (pairs : List (String × String)) : List (String × String) := pairs.map Prod.swap

theorem map_fst_turned : (turned pairs).map (·.1) = pairs.map (·.2) := by
  rw [turned, List.map_map]
  rfl

theorem map_snd_turned : (turned pairs).map (·.2) = pairs.map (·.1) := by
  rw [turned, List.map_map]
  rfl

theorem newName_turned : newName (turned pairs) c = oldName pairs c := by
  rw [newName, oldName, turned, List.find?_map, Option.map_map]
  rfl

theorem oldName_turned : oldName (turned pairs) c = newName pairs c := by
  rw [newName, oldName, turned, List.find?_map, Option.map_map]
  rfl

theorem RelabelingFits.turned (fits : RelabelingFits source pairs) :
    RelabelingFits (relabeling source pairs) (turned pairs) where
  renames := by simpa [Pipeline.turned] using fits.renames
  new_nodup := map_fst_turned ▸ fits.old_nodup
  old_nodup := map_snd_turned ▸ fits.new_nodup
  known := by
    rw [map_snd_turned]
    intro new mem
    obtain ⟨pair, here, rfl⟩ := List.mem_map.1 mem
    exact List.mem_map.2 ⟨pair.2, fits.known _ (List.mem_map_of_mem here),
      newName_of_mem fits.old_nodup here⟩
  free := by
    rw [map_fst_turned, map_snd_turned]
    intro old mem column
    obtain ⟨c, -, rfl⟩ := List.mem_map.1 column
    by_cases renamed : c ∈ pairs.map (·.2)
    · obtain ⟨pair, here, rfl⟩ := List.mem_map.1 renamed
      rw [newName_of_mem fits.old_nodup here]
      exact List.mem_map_of_mem here
    · exact absurd (newName_of_not_mem renamed ▸ mem) renamed

theorem RelabelingFits.columns_turned (fits : RelabelingFits source pairs) :
    (relabeling (relabeling source pairs) (Pipeline.turned pairs)).columns = source.columns := by
  rw [columns, columns, List.map_map]
  refine (List.map_congr_left fun c mem => ?_).trans (List.map_id _)
  rw [Function.comp, newName_turned, fits.oldName_newName mem, id]

/-! ## Requests -/

/-- What is asked of a renaming and then of the renaming before it is what was asked for. -/
theorem RelabelingFits.demand_turned (fits : RelabelingFits source pairs) {u : NameSet}
    (known : ∀ c ∈ u, c ∈ source.columns) :
    ∃ v, (relabeling p (Pipeline.turned pairs)).demand u = [v] ∧
      (∀ c ∈ v, c ∈ (relabeling source pairs).columns) ∧
      (relabeling source pairs).demand v = [u] := by
  have turned : ∀ c, oldName (Pipeline.turned pairs) c = newName pairs c := fun _ => oldName_turned
  refine ⟨NameSet.ofList (u.names.map (newName pairs)), ?_, fun c mem => ?_, ?_⟩
  · rw [demand, funext turned]
  · obtain ⟨b, asked, rfl⟩ := List.mem_map.1 (NameSet.mem_ofList.1 mem)
    exact List.mem_map_of_mem (known b asked)
  · rw [demand, List.singleton_inj]
    refine NameSet.ext fun c => ?_
    rw [NameSet.mem_ofList, List.mem_map]
    constructor
    · rintro ⟨d, mem, rfl⟩
      obtain ⟨b, asked, rfl⟩ := List.mem_map.1 (NameSet.mem_ofList.1 mem)
      rwa [fits.oldName_newName (known b asked)]
    · intro asked
      exact ⟨newName pairs c, NameSet.mem_ofList.2 (List.mem_map_of_mem asked),
        fits.oldName_newName (known c asked)⟩

end Pipeline

namespace Eval

open Pipeline Table

variable {source p : Pipeline} {pairs : List (String × String)} {t : Table}

/-! ## Tables -/

/-- Columns that are renamed and renamed back are the table that they were. -/
theorem relabelTable_turned (fits : RelabelingFits source pairs) (nodup : source.columns.Nodup)
    (wf : t.WellFormed) (names : t.names = source.columns) :
    (relabelTable t pairs (relabeling source pairs).columns >>= fun r =>
      relabelTable r (turned pairs) source.columns) = .ok t := by
  have back : ∀ c ∈ source.columns, oldName pairs (oldName (turned pairs) c) = c :=
    fun c mem => oldName_turned ▸ fits.oldName_newName mem
  have done : Ends (relabelTable t pairs (relabeling source pairs).columns) (fun _ => True)
      fun _ => False :=
    relabelTable_ends wf (fits.nodup_columns nodup) fun c mem => names ▸ fits.oldName_known mem
  obtain ⟨r, made, -⟩ := done.exists_ok
  obtain ⟨wfr, namesr, cellsr⟩ := relabelTable_eq_ok made
  have known : ∀ c ∈ source.columns, oldName (turned pairs) c ∈ (relabeling source pairs).columns :=
    fun c mem => oldName_turned ▸ List.mem_map_of_mem mem
  have undone : Ends (relabelTable r (turned pairs) source.columns) (fun _ => True)
      fun _ => False := relabelTable_ends wfr nodup fun c mem => namesr ▸ known c mem
  obtain ⟨s, unmade, -⟩ := undone.exists_ok
  obtain ⟨wfs, namess, cellss⟩ := relabelTable_eq_ok unmade
  have same : s = t := by
    refine wf.eq_of_cells wfs (namess.trans names.symm) fun c mem => ?_
    rw [names] at mem
    rw [cellss c mem, cellsr _ (known c mem), back c mem]
  rw [made]
  exact same ▸ unmade

theorem run_turned {bindings : NameMap Table} (built : source.Built)
    (fits : RelabelingFits source pairs) :
    run bindings (relabeling (relabeling source pairs) (turned pairs)) = run bindings source := by
  rw [run, run, fits.columns_turned]
  cases ran : run bindings source with
  | error e => rfl
  | ok t =>
    obtain ⟨wf, names⟩ := run_schema built ran
    exact relabelTable_turned fits built.columns_nodup wf names

/-- A renaming by distinct new names of distinct columns of the source is accepted just if the
columns of the source get distinct names by it. The turned pairs are then accepted on the result;
they give the columns of the source back and, whatever tables are bound, its table or its error,
and what is asked of the result is asked of the source. -/
theorem renaming_undone (built : source.Built) (some : pairs ≠ [])
    (news : (pairs.map (·.1)).Nodup) (olds : (pairs.map (·.2)).Nodup)
    (known : ∀ c ∈ pairs.map (·.2), c ∈ source.columns) :
    ∃ names, List.Forall₂ (Renames pairs) source.columns names ∧
      ((∃ p, source.renameColumns pairs = .ok p) ↔ names.Nodup) ∧
      ∀ p, source.renameColumns pairs = .ok p →
        p.columns = names ∧
        ∃ q, p.renameColumns (pairs.map Prod.swap) = .ok q ∧ q.columns = source.columns ∧
          (∀ bindings, run bindings q = run bindings source) ∧
          ∀ wanted u, q.resolveWanted wanted = .ok u →
            ∃ v, q.demandOf wanted = .ok [v] ∧ p.demandOf (.some v) = .ok [u] := by
  refine ⟨source.columns.map (newName pairs), (renames_list olds).2 rfl,
    accepted_iff built.columns_nodup some news olds known, fun p made => ?_⟩
  obtain ⟨fits, rfl⟩ := renameColumns_eq_ok.1 made
  refine ⟨rfl, _, renameColumns_eq_ok.2 ⟨fits.turned, rfl⟩, fits.columns_turned,
    fun bindings => run_turned built fits, fun wanted u resolved => ?_⟩
  have asked : ∀ c ∈ u, c ∈ source.columns := fits.columns_turned ▸ resolveWanted_known resolved
  obtain ⟨v, first, inside, second⟩ := fits.demand_turned asked
  refine ⟨v, ?_, ?_⟩
  · rw [demandOf, resolved, ← first]
    rfl
  · rw [demandOf_known inside, second]

/-- Two names that change places, and one that stays by a pair of its own. -/
theorem renaming_undone_exchange :
    let source := Pipeline.table ⟨"d", .empty, ["x", "y", "z", "w"]⟩
    let pairs := [("y", "x"), ("x", "y"), ("z", "z")]
    ∃ p q, source.renameColumns pairs = .ok p ∧ p.columns = ["y", "x", "z", "w"] ∧
      p.renameColumns (pairs.map Prod.swap) = .ok q ∧ q.columns = source.columns ∧
      ∀ bindings, run bindings q = run bindings source := by
  intro source pairs
  have table : TableRef.of "d" ["x", "y", "z", "w"] .empty =
      .ok ⟨"d", .empty, ["x", "y", "z", "w"]⟩ := by decide
  have built : source.Built := .table table
  have some : pairs ≠ [] := by decide
  obtain ⟨names, -, -, undone⟩ := renaming_undone built some (by decide) (by decide) (by decide)
  obtain ⟨p, made⟩ : ∃ p, source.renameColumns pairs = .ok p := ⟨_, rfl⟩
  obtain ⟨-, q, back, columns, same, -⟩ := undone p made
  refine ⟨p, q, made, ?_, back, columns, same⟩
  obtain rfl := Except.ok.inj made
  decide

end Eval

end TableFlow
