/-!
# Sets of names

A `NameSet` holds names in rising order, each once, so two sets with the same members are
equal (`NameSet.ext`). `placeBy` keeps lists of named elements in that order, and `firstRepeat?`
finds the name that keeps a list from being a set.
-/

namespace TableFlow

/-- The first name of a list that stands before too, or among the names seen so far. -/
def firstRepeat? (seen : List String) : List String → Option String
  | [] => none
  | a :: rest => if a ∈ seen then some a else firstRepeat? (a :: seen) rest

theorem firstRepeat?_eq_none {seen l : List String} :
    firstRepeat? seen l = none ↔ l.Nodup ∧ ∀ a ∈ l, a ∉ seen := by
  induction l generalizing seen with
  | nil => simp [firstRepeat?]
  | cons a rest ih => grind [firstRepeat?]

section
variable {α : Type} {name : α → String} {a : α} {x : String} {l : List α}

/-- An element put at its place in a list that rises by name; it replaces one of the same name. -/
def placeBy (name : α → String) (a : α) : List α → List α
  | [] => [a]
  | b :: rest =>
    if name a < name b then a :: b :: rest
    else if name a = name b then a :: rest
    else b :: placeBy name a rest

theorem mem_placeBy : x ∈ (placeBy name a l).map name ↔ x = name a ∨ x ∈ l.map name := by
  induction l with
  | nil => simp [placeBy]
  | cons b rest ih => grind [placeBy]

theorem rising_placeBy (h : (l.map name).Pairwise (· < ·)) :
    ((placeBy name a l).map name).Pairwise (· < ·) := by
  induction l with
  | nil => simp [placeBy]
  | cons b rest ih =>
    obtain ⟨below, tail⟩ := List.pairwise_cons.1 h
    unfold placeBy
    split
    · rename_i lt
      refine List.pairwise_cons.2 ⟨fun x hx => ?_, h⟩
      rcases List.mem_cons.1 hx with rfl | hx
      · exact lt
      · exact String.lt_trans lt (below x hx)
    · split
      · rename_i eq
        exact List.pairwise_cons.2 ⟨eq ▸ below, tail⟩
      · rename_i ge ne
        refine List.pairwise_cons.2 ⟨fun x hx => ?_, ih tail⟩
        rcases mem_placeBy.1 hx with rfl | hx
        · exact Std.lt_of_le_of_ne (String.not_lt.1 ge) (Ne.symm ne)
        · exact below x hx

end

/-- Names in rising order. -/
structure NameSet where
  names : List String
  rising : names.Pairwise (· < ·)

namespace NameSet

instance : DecidableEq NameSet := fun a b =>
  if h : a.names = b.names then isTrue (by cases a; cases b; simp_all)
  else isFalse fun e => h (e ▸ rfl)

instance : Membership String NameSet := ⟨fun s a => a ∈ s.names⟩

instance (a : String) (s : NameSet) : Decidable (a ∈ s) :=
  inferInstanceAs (Decidable (a ∈ s.names))

theorem mem_def {a : String} {s : NameSet} : a ∈ s ↔ a ∈ s.names := Iff.rfl

theorem rising_nil : ([] : List String).Pairwise (· < ·) := .nil

def empty : NameSet := ⟨[], rising_nil⟩

def insert (a : String) (s : NameSet) : NameSet where
  names := placeBy id a s.names
  rising := by
    have rising : ((placeBy id a s.names).map id).Pairwise (· < ·) :=
      rising_placeBy (by simpa using s.rising)
    simpa using rising

def addAll (s : NameSet) (l : List String) : NameSet := l.foldl (fun s a => s.insert a) s

def ofList (l : List String) : NameSet := empty.addAll l

def union (s t : NameSet) : NameSet := s.addAll t.names

def filter (p : String → Bool) (s : NameSet) : NameSet :=
  ⟨s.names.filter p, s.rising.filter p⟩

def isEmpty (s : NameSet) : Bool := s.names.isEmpty

@[simp] theorem mem_empty {x : String} : x ∈ empty ↔ False := by simp [mem_def, empty]

@[simp] theorem mem_insert {a x : String} {s : NameSet} : x ∈ s.insert a ↔ x = a ∨ x ∈ s := by
  have placed : x ∈ (placeBy id a s.names).map id ↔ x = id a ∨ x ∈ s.names.map id := mem_placeBy
  rwa [List.map_id, List.map_id] at placed

@[simp] theorem mem_addAll {x : String} {s : NameSet} {l : List String} :
    x ∈ s.addAll l ↔ x ∈ s ∨ x ∈ l := by
  induction l generalizing s with
  | nil => simp [addAll]
  | cons a rest ih =>
    have : s.addAll (a :: rest) = (s.insert a).addAll rest := rfl
    rw [this, ih, mem_insert, List.mem_cons]
    grind

@[simp] theorem mem_ofList {x : String} {l : List String} : x ∈ ofList l ↔ x ∈ l := by
  simp [ofList]

@[simp] theorem mem_union {x : String} {s t : NameSet} : x ∈ s.union t ↔ x ∈ s ∨ x ∈ t :=
  mem_addAll

@[simp] theorem mem_filter {x : String} {p : String → Bool} {s : NameSet} :
    x ∈ s.filter p ↔ x ∈ s ∧ p x = true := by
  simp [filter, mem_def]

theorem names_ext {l m : List String} (hl : l.Pairwise (· < ·)) (hm : m.Pairwise (· < ·))
    (h : ∀ x, x ∈ l ↔ x ∈ m) : l = m := by
  induction l generalizing m with
  | nil =>
    cases m with
    | nil => rfl
    | cons b _ => simpa using h b
  | cons a l ih =>
    cases m with
    | nil => simpa using h a
    | cons b m =>
      obtain ⟨al, tl⟩ := List.pairwise_cons.1 hl
      obtain ⟨bm, tm⟩ := List.pairwise_cons.1 hm
      have same : a = b := by
        rcases List.mem_cons.1 ((h a).1 (List.mem_cons_self ..)) with e | ha
        · exact e
        · rcases List.mem_cons.1 ((h b).2 (List.mem_cons_self ..)) with e | hb
          · exact e.symm
          · exact absurd (bm a ha) (String.lt_asymm (al b hb))
      subst same
      congr 1
      refine ih tl tm fun x => ⟨fun hx => ?_, fun hx => ?_⟩
      · rcases List.mem_cons.1 ((h x).1 (List.mem_cons_of_mem _ hx)) with rfl | h'
        · exact absurd (al x hx) (String.lt_irrefl x)
        · exact h'
      · rcases List.mem_cons.1 ((h x).2 (List.mem_cons_of_mem _ hx)) with rfl | h'
        · exact absurd (bm x hx) (String.lt_irrefl x)
        · exact h'

/-- Sets with the same members are equal. -/
theorem ext {s t : NameSet} (h : ∀ x, x ∈ s ↔ x ∈ t) : s = t := by
  have := names_ext s.rising t.rising h
  cases s; cases t; simp_all

end NameSet

end TableFlow
