import TableFlow.NameMap
import Mathlib.Data.List.Nodup

/-!
# Looking up by a key

What is found in a list under a key, and in a map that was made of a list; a map is made of its
own entries.
-/

namespace TableFlow

variable {α β : Type} [DecidableEq β] {key : α → β} {l : List α} {a : α} {x : β}

theorem find?_key_some (h : l.find? (key · = x) = some a) : a ∈ l ∧ key a = x :=
  ⟨List.mem_of_find?_eq_some h, by simpa using List.find?_some h⟩

theorem find?_key_none : l.find? (key · = x) = none ↔ x ∉ l.map key := by
  simp

/-- The entry of a key, in a list of different keys. -/
theorem find?_key (nodup : (l.map key).Nodup) (h : a ∈ l) :
    l.find? (key · = key a) = some a := by
  induction l with
  | nil => cases h
  | cons b l ih =>
    obtain ⟨fresh, nodup⟩ := List.nodup_cons.1 nodup
    rcases List.mem_cons.1 h with rfl | h
    · simp
    · have ne : key b ≠ key a := fun e => fresh (e ▸ List.mem_map_of_mem h)
      rw [List.find?_cons_of_neg (by simpa using ne)]
      exact ih nodup h

namespace NameMap

theorem get?_addAll {m : NameMap α} {l : List (String × α)} {x : String} :
    (m.addAll l).get? x = ((l.reverse.find? (·.1 = x)).map (·.2)).or (m.get? x) := by
  induction l generalizing m with
  | nil => rfl
  | cons entry l ih =>
    have step : m.addAll (entry :: l) = (m.insert entry.1 entry.2).addAll l := rfl
    rw [step, ih, get?_insert, List.reverse_cons, List.find?_append]
    by_cases h : x = entry.1
    · cases l.reverse.find? (·.1 = x) <;> simp [h]
    · cases l.reverse.find? (·.1 = x) <;> simp [h, Ne.symm h]

/-- What a map that was made of a list holds stands in the list. -/
theorem mem_of_get?_ofList {l : List (String × α)} {x : String} {value : α}
    (h : (ofList l).get? x = some value) : (x, value) ∈ l := by
  rw [ofList, get?_addAll, get?_empty, Option.or_none] at h
  obtain ⟨entry, found, rfl⟩ := Option.map_eq_some_iff.1 h
  obtain ⟨mem, rfl⟩ := find?_key_some found
  exact List.mem_reverse.1 mem

/-- What a map holds is what is found in it. -/
theorem mem_entries {m : NameMap α} {x : String} {value : α} :
    (x, value) ∈ m.entries ↔ m.get? x = some value := by
  constructor
  · intro mem
    have nodup : (m.entries.map (·.1)).Nodup := by
      refine m.rising.imp fun lt => ?_
      rintro rfl
      exact String.lt_irrefl _ lt
    rw [get?, find?_key nodup mem]
    rfl
  · intro found
    obtain ⟨entry, here, rfl⟩ := Option.map_eq_some_iff.1 found
    obtain ⟨mem, rfl⟩ := find?_key_some here
    exact mem

theorem mem_names {m : NameMap α} {x : String} : x ∈ m.names ↔ ∃ value, m.get? x = some value := by
  simp [names, ← mem_entries]

theorem placeBy_append {name : String} {value : α} {l : List (String × α)}
    (above : ∀ entry ∈ l, entry.1 < name) :
    placeBy (·.1) (name, value) l = l ++ [(name, value)] := by
  induction l with
  | nil => rfl
  | cons entry l ih =>
    have lt := above entry (List.mem_cons_self ..)
    rw [placeBy, if_neg (String.lt_asymm lt), if_neg (fun same => String.lt_irrefl _ (same ▸ lt)),
      ih fun e he => above e (List.mem_cons_of_mem _ he), List.cons_append]

theorem entries_addAll {m : NameMap α} {l : List (String × α)}
    (rising : ((m.entries ++ l).map (·.1)).Pairwise (· < ·)) :
    (m.addAll l).entries = m.entries ++ l := by
  induction l generalizing m with
  | nil => simp [addAll]
  | cons entry l ih =>
    have step : m.addAll (entry :: l) = (m.insert entry.1 entry.2).addAll l := rfl
    have above : ∀ e ∈ m.entries, e.1 < entry.1 := by
      rw [List.map_append, List.pairwise_append] at rising
      exact fun e he => rising.2.2 e.1 (List.mem_map_of_mem he) entry.1 (by simp)
    have put : (m.insert entry.1 entry.2).entries = m.entries ++ [entry] := placeBy_append above
    rw [step, ih (by rw [put]; simpa using rising), put, List.append_assoc, List.singleton_append]

/-- The entries of a map make that map. -/
theorem ofList_entries {m : NameMap α} : ofList m.entries = m := by
  have same : (ofList m.entries).entries = m.entries := entries_addAll (m := empty) m.rising
  generalize ofList m.entries = made at same
  cases made
  cases m
  simpa using same

end NameMap

end TableFlow
