import TableFlow.Proofs.Formula.Scanning
import TableFlow.Proofs.Lookup
import TableFlow.Proofs.Sql.Spelling

/-!
# Words of formulas in SQL

What reads as a word in a formula is a word of SQL too, under the name that SQL has for it and
in upper case (`isWord_sqlName`).
-/

namespace TableFlow.Sql

open Text (upper upperChar upperLong upperRuns)

variable {c : Char} {name : String}

/-! ## Characters -/

/-- What holds of the characters of ASCII one by one. -/
theorem of_ascii (post : Char → Prop) (all : ∀ n < 128, post (Char.ofNat n)) (h : c.toNat < 128) :
    post c := by
  have this := all c.toNat h
  rwa [Char.ofNat_toNat] at this

/-- All characters beyond ASCII are letters of SQL. -/
theorem startsWord_beyond (h : ¬ c.toNat < 128) : startsWord c = true := by
  simp [startsWord, Nat.not_lt.1 h]

theorem continuesWord_of_startsWord (h : startsWord c = true) : continuesWord c = true := by
  simp [continuesWord, h]

theorem startsWord_of_formula : Formula.startsWord c = true → startsWord c = true := by
  by_cases ascii : c.toNat < 128
  · exact of_ascii (fun c => Formula.startsWord c = true → startsWord c = true) (by decide +kernel)
      ascii
  · exact fun _ => startsWord_beyond ascii

theorem continuesWord_of_formula : Formula.continuesWord c = true → continuesWord c = true := by
  by_cases ascii : c.toNat < 128
  · exact of_ascii (fun c => Formula.continuesWord c = true → continuesWord c = true)
      (by decide +kernel) ascii
  · exact fun _ => continuesWord_of_startsWord (startsWord_beyond ascii)

/-! ## Upper case -/

theorem upperLong_letters : ∀ entry ∈ upperLong,
    entry.2 ≠ [] ∧ ∀ n ∈ entry.2, startsWord (Char.ofNat n) = true := by
  decide +kernel

theorem upperRuns_letters : ∀ run ∈ upperRuns, ∀ k < run.2.1 + 1 - run.1,
    startsWord (Char.ofNat ((run.1 + k : Nat) + run.2.2.2).toNat) = true := by
  decide +kernel

/-- A character becomes letters in upper case, or stays as it is. -/
theorem upperChar_letters : upperChar c = [c] ∨
    upperChar c ≠ [] ∧ ∀ d ∈ upperChar c, startsWord d = true := by
  unfold upperChar
  split
  · rename_i codes found
    obtain ⟨some, letters⟩ := upperLong_letters _ (List.mem_of_find?_eq_some found)
    refine .inr ⟨by simpa using some, fun d mem => ?_⟩
    obtain ⟨n, inside, rfl⟩ := List.mem_map.1 mem
    exact letters n inside
  · split
    · rename_i first last step distance found
      have letters := upperRuns_letters _ (List.mem_of_find?_eq_some found)
      have inside := List.find?_some found
      simp only [Bool.and_eq_true, decide_eq_true_eq] at inside
      refine .inr ⟨by simp, fun d mem => ?_⟩
      have letter := letters (c.toNat - first) (by dsimp only; omega)
      rw [List.mem_singleton.1 mem]
      rwa [Nat.add_sub_cancel' inside.1.1] at letter
    · exact .inl rfl

theorem isWord_upper (h : Formula.IsWord name) : IsWord (upper name) := by
  obtain ⟨c, rest, text, first, others⟩ := h.letters
  have follows : ∀ d ∈ rest.flatMap upperChar, continuesWord d = true := by
    intro d mem
    obtain ⟨b, inside, mem⟩ := List.mem_flatMap.1 mem
    obtain same | ⟨-, letters⟩ := upperChar_letters (c := b)
    · rw [same, List.mem_singleton] at mem
      subst mem
      exact continuesWord_of_formula (others _ inside)
    · exact continuesWord_of_startsWord (letters d mem)
  have written : (upper name).toList = upperChar c ++ rest.flatMap upperChar := by
    rw [upper, String.toList_ofList, text, List.flatMap_cons]
  obtain ⟨d, more, same, letters⟩ : ∃ d more, upperChar c = d :: more ∧
      ∀ x ∈ d :: more, startsWord x = true := by
    obtain same | ⟨some, letters⟩ := upperChar_letters (c := c)
    · exact ⟨c, [], same, by simpa using startsWord_of_formula first⟩
    · obtain ⟨d, more, same⟩ := List.exists_cons_of_ne_nil some
      exact ⟨d, more, same, same ▸ letters⟩
  rw [same, List.cons_append] at written
  refine ⟨d, _, written, letters d (List.mem_cons_self ..), fun x mem => ?_⟩
  obtain mem | mem := List.mem_append.1 mem
  · exact continuesWord_of_startsWord (letters x (List.mem_cons_of_mem _ mem))
  · exact follows x mem

/-! ## Names -/

/-- The name of an operator or function before it is put in upper case. -/
def renamed (name : String) : String := (defaultRenames.get? name).getD name

/-- An operator or function as it is written. -/
def sqlName (name : String) : String := upper (renamed name)

theorem isWord_sqlName (h : Formula.IsWord name) : IsWord (sqlName name) := by
  unfold sqlName renamed
  cases found : defaultRenames.get? name with
  | none => exact isWord_upper h
  | some other =>
    have known := NameMap.mem_of_get?_ofList found
    simp only [List.mem_cons, List.not_mem_nil, or_false, Prod.mk.injEq] at known
    rcases known with ⟨rfl, rfl⟩ | ⟨rfl, rfl⟩ | ⟨rfl, rfl⟩ | ⟨rfl, rfl⟩
    · exact absurd h (by decide +kernel)
    · exact absurd h (by decide +kernel)
    · decide +kernel
    · decide +kernel

end TableFlow.Sql
