import TableFlow.Proofs.Table.Columns
import Mathlib.Data.List.Induction

/-!
# Calls one after the other

A table goes through a list of calls (`applyAll`). Its columns always keep one length
(`Even.apply`); its names stay different until a renaming gives a column the name of another
one (`WellFormed.apply_iff`), and then they do not (`calls_keep_iff`).
-/

namespace TableFlow.Table

inductive Call where
  | select (names : List String)
  | take (positions : List Nat)
  | setColumn (name : String) (cells : List Value)
  | removeColumn (name : String)
  | renameColumn (old new : String)

def Call.apply (t : Table) : Call → Table
  | .select names => (t.select names).toOption.getD t
  | .take positions => (t.take? positions).getD t
  | .setColumn name cells => (t.setColumn name cells).toOption.getD t
  | .removeColumn name => (t.removeColumn name).1
  | .renameColumn old new => t.renameColumn old new

inductive Call.Gives (t : Table) : Call → Table → Prop where
  | refused {c} : Gives t c t
  | selected {names r} : t.select names = .ok r → Gives t (.select names) r
  | taken {positions r} : t.take? positions = some r → Gives t (.take positions) r
  | put {name cells r} : t.setColumn name cells = .ok r → Gives t (.setColumn name cells) r
  | removed {name} : Gives t (.removeColumn name) (t.removeColumn name).1
  | renamed {old new} : Gives t (.renameColumn old new) (t.renameColumn old new)

theorem Call.gives (t : Table) (c : Call) : c.Gives t (c.apply t) := by
  cases c with
  | select names =>
    cases h : t.select names with
    | error => simpa [apply, h, Except.toOption] using Gives.refused
    | ok r => simpa [apply, h, Except.toOption] using Gives.selected h
  | take positions =>
    cases h : t.take? positions with
    | none => simpa [apply, h] using Gives.refused
    | some r => simpa [apply, h] using Gives.taken h
  | setColumn name cells =>
    cases h : t.setColumn name cells with
    | error => simpa [apply, h, Except.toOption] using Gives.refused
    | ok r => simpa [apply, h, Except.toOption] using Gives.put h
  | removeColumn name => exact .removed
  | renameColumn old new => exact .renamed

def applyAll (t : Table) (calls : List Call) : Table := calls.foldl Call.apply t

/-- A call that gives a column the name of another one. -/
def Call.Clashes (t : Table) : Call → Prop
  | .renameColumn old new => old ∈ t.names ∧ new ∈ t.names ∧ old ≠ new
  | _ => False

/-- Columns of one length, under names that may repeat. -/
def Even (t : Table) : Prop := ∀ col ∈ t.columns, col.cells.length = t.numRows

variable {t r : Table} {old new name : String} {cells : List Value} {c : Call} {n : Nat}

theorem wellFormed_iff : t.WellFormed ↔ t.names.Nodup ∧ t.Even :=
  ⟨fun wf => ⟨wf.nodup, wf.even⟩, fun ⟨nodup, even⟩ => ⟨nodup, even⟩⟩

theorem even_of (h : ∀ col ∈ t.columns, col.cells.length = n) : t.Even := fun col mem => by
  rw [numRows_of (List.ne_nil_of_mem mem) h, h col mem]

/-! ## Lengths -/

theorem Even.setColumn (even : t.Even) (h : t.setColumn name cells = .ok r) : r.Even := by
  by_cases none : t.columns = []
  · obtain ⟨columns⟩ := t
    obtain rfl : columns = [] := none
    cases h
    exact even_of (n := cells.length) (by simp)
  · obtain ⟨fits, place⟩ := setColumn_eq_ok h (columns_ne_nil.1 none)
    refine even_of (n := t.numRows) fun col mem => ?_
    obtain ⟨before, old, after, split, split', -, -⟩ | ⟨-, added⟩ := place
    · rw [split', List.mem_append, List.mem_cons] at mem
      obtain mem | rfl | mem := mem
      · exact even col (by simp [split, mem])
      · exact fits
      · exact even col (by simp [split, mem])
    · rw [added, List.mem_append, List.mem_singleton] at mem
      obtain mem | rfl := mem
      · exact even col mem
      · exact fits

theorem Even.removeColumn (even : t.Even) : (t.removeColumn name).1.Even := by
  unfold Table.removeColumn
  split
  · exact even_of (n := t.numRows) fun col mem => even col (List.mem_of_mem_eraseIdx mem)
  · exact even

/-- What a renaming does: nothing without the column, else one column has the new name. -/
theorem renameColumn_columns (t : Table) (old new : String) :
    old ∉ t.names ∧ t.renameColumn old new = t ∨
      ∃ before col after, t.columns = before ++ col :: after ∧ col.name = old ∧
        (t.renameColumn old new).columns = before ++ ⟨new, col.cells⟩ :: after := by
  unfold renameColumn
  split
  · rename_i i found
    obtain ⟨before, col, after, split, rfl, here, -⟩ := columnIndex?_eq_some found
    exact .inr ⟨before, col, after, split, here, by rw [split, modify_middle]⟩
  · rename_i absent
    exact .inl ⟨columnIndex?_eq_none absent, rfl⟩

theorem Even.renameColumn (even : t.Even) : (t.renameColumn old new).Even := by
  obtain ⟨-, same⟩ | ⟨before, col, after, split, -, split'⟩ := renameColumn_columns t old new
  · rwa [same]
  · refine even_of (n := t.numRows) fun d mem => ?_
    rw [split', List.mem_append, List.mem_cons] at mem
    obtain mem | rfl | mem := mem
    · exact even d (by simp [split, mem])
    · exact even col (by simp [split])
    · exact even d (by simp [split, mem])

/-- No call makes columns of different lengths. -/
theorem Even.apply (even : t.Even) (c : Call) : (c.apply t).Even := by
  generalize here : c.apply t = r
  cases here ▸ c.gives t with
  | refused => exact even
  | selected h => exact (select_eq_ok h).1.even
  | taken h => exact even_of (length_taken h)
  | put h => exact even.setColumn h
  | removed => exact even.removeColumn
  | renamed => exact even.renameColumn

theorem Even.applyAll (even : t.Even) (calls : List Call) : (t.applyAll calls).Even := by
  induction calls generalizing t with
  | nil => exact even
  | cons c calls ih => exact ih (even.apply c)

/-! ## Names -/

theorem nodup_setColumn (nodup : t.names.Nodup) (h : t.setColumn name cells = .ok r) :
    r.names.Nodup := by
  by_cases none : t.columns = []
  · obtain ⟨columns⟩ := t
    obtain rfl : columns = [] := none
    cases h
    simp [names]
  · obtain ⟨-, ⟨before, col, after, split, split', rfl, -⟩ | ⟨absent, added⟩⟩ :=
      setColumn_eq_ok h (columns_ne_nil.1 none)
    · simpa [names, split, split'] using nodup
    · rw [names, added, List.map_append, List.nodup_append]
      refine ⟨nodup, by simp, ?_⟩
      rintro x mem _ mem' rfl
      obtain rfl : x = name := by simpa using mem'
      exact absent mem

theorem nodup_removeColumn (nodup : t.names.Nodup) : (t.removeColumn name).1.names.Nodup := by
  rw [names, removeColumn_columns nodup]
  exact nodup.sublist (List.filter_sublist.map _)

/-- Names stay different just if the new name is not that of another column. -/
theorem nodup_renameColumn (nodup : t.names.Nodup) :
    (t.renameColumn old new).names.Nodup ↔ ¬(old ∈ t.names ∧ new ∈ t.names ∧ old ≠ new) := by
  obtain ⟨absent, same⟩ | ⟨before, col, after, split, rfl, split'⟩ :=
    renameColumn_columns t old new
  · simp [same, nodup, absent]
  · have names : t.names = before.map (·.name) ++ col.name :: after.map (·.name) := by
      simp [Table.names, split]
    have names' : (t.renameColumn col.name new).names =
        before.map (·.name) ++ new :: after.map (·.name) := by
      simp [Table.names, split']
    rw [names, List.nodup_middle, List.nodup_cons] at nodup
    have fresh : new ∈ before.map (·.name) ++ after.map (·.name) ↔
        new ∈ t.names ∧ col.name ≠ new := by
      rw [names, List.perm_middle.mem_iff, List.mem_cons]
      constructor
      · intro mem
        exact ⟨.inr mem, fun same => nodup.1 (same ▸ mem)⟩
      · rintro ⟨same | mem, ne⟩
        · exact absurd same.symm ne
        · exact mem
    have here : col.name ∈ t.names := by simp [names]
    rw [names', List.nodup_middle, List.nodup_cons, fresh]
    simp [nodup.2, here]

/-- A well-formed table stays so just if the call does not clash. -/
theorem WellFormed.apply_iff (wf : t.WellFormed) : (c.apply t).WellFormed ↔ ¬c.Clashes t := by
  have even : Even (c.apply t) := Even.apply wf.even c
  constructor
  · intro kept clash
    cases c with
    | renameColumn old new => exact (nodup_renameColumn wf.nodup).1 kept.nodup clash
    | _ => exact clash
  · intro free
    refine wellFormed_iff.2 ⟨?_, even⟩
    generalize here : c.apply t = r
    cases here ▸ c.gives t with
    | refused => exact wf.nodup
    | selected h => exact (select_eq_ok h).1.nodup
    | taken h => exact (wf.take? h).nodup
    | put h => exact nodup_setColumn wf.nodup h
    | removed => exact nodup_removeColumn wf.nodup
    | renamed => exact (nodup_renameColumn wf.nodup).2 free

theorem applyAll_concat {calls : List Call} :
    t.applyAll (calls ++ [c]) = c.apply (t.applyAll calls) := by
  simp [applyAll]

/-- A well-formed table stays so all along just if no call clashes with the table that it
meets. -/
theorem WellFormed.applyAll_iff (wf : t.WellFormed) (calls : List Call) :
    (∀ first, first <+: calls → (t.applyAll first).WellFormed) ↔
      ∀ first c, first ++ [c] <+: calls → ¬c.Clashes (t.applyAll first) := by
  constructor
  · intro kept first c upto
    have before := kept first ((List.prefix_append first [c]).trans upto)
    have after := kept _ upto
    rw [applyAll_concat] at after
    exact before.apply_iff.1 after
  · intro free first
    -- what has been called so far grows at its end
    induction first using List.reverseRecOn with
    | nil => exact fun _ => wf
    | append_singleton first c ih =>
      intro upto
      have before := ih ((List.prefix_append first [c]).trans upto)
      rw [applyAll_concat]
      exact before.apply_iff.2 (free first c upto)

/-- The columns of a table keep one length under every list of calls, and their names stay
different all along just if no call gives a column the name of another one. -/
theorem calls_keep_iff (made : (∃ columns, ofColumns columns = .ok t) ∨
      ∃ names rows, ofRows names rows = .ok t) (calls : List Call) :
    (t.applyAll calls).Even ∧
      ((∀ first, first <+: calls → (t.applyAll first).WellFormed) ↔
        ∀ first c, first ++ [c] <+: calls → ¬c.Clashes (t.applyAll first)) := by
  have wf : t.WellFormed := by
    obtain ⟨columns, made⟩ | ⟨names, rows, made⟩ := made
    · exact (ofColumns_eq_ok.1 made).1
    · unfold ofRows at made
      split at made
      · cases made
      · exact (ofColumns_eq_ok.1 made).1
  exact ⟨Even.applyAll wf.even calls, wf.applyAll_iff calls⟩

/-- A swap of two columns by way of a third name. -/
theorem calls_keep_iff_swap :
    let t : Table := ⟨[⟨"a", [.bool true]⟩, ⟨"b", [.null]⟩]⟩
    let calls := [Call.renameColumn "a" "c", .renameColumn "b" "a", .renameColumn "c" "b"]
    ofRows ["a", "b"] [[.bool true, .null]] = .ok t ∧
      (t.applyAll calls).Even ∧
      ((∀ first, first <+: calls → (t.applyAll first).WellFormed) ↔
        ∀ first c, first ++ [c] <+: calls → ¬c.Clashes (t.applyAll first)) := by
  intro t calls
  have made : ofRows ["a", "b"] [[.bool true, .null]] = .ok t := by decide
  exact ⟨made, calls_keep_iff (.inr ⟨_, _, made⟩) calls⟩

/-- A renaming to the name of another column leaves two columns of one name. -/
theorem rename_repeats :
    let t : Table := ⟨[⟨"a", [.bool true]⟩, ⟨"b", [.null]⟩]⟩
    ofColumns t.columns = .ok t ∧ ¬(t.applyAll [.renameColumn "a" "b"]).names.Nodup := by
  decide

end TableFlow.Table
