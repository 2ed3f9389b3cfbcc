import TableFlow.NameSet

/-!
# Values under names

A `NameMap` holds one value for each of its names, in rising order of the names.
-/

namespace TableFlow

/-- Entries in rising order of their names. -/
structure NameMap (α : Type) where
  entries : List (String × α)
  rising : (entries.map (·.1)).Pairwise (· < ·)

namespace NameMap

variable {α β : Type}

def empty : NameMap α := ⟨[], .nil⟩

def insert (m : NameMap α) (name : String) (value : α) : NameMap α :=
  ⟨placeBy (·.1) (name, value) m.entries, rising_placeBy m.rising⟩

/-- Entries put in one after the other: the last one of a name stays. -/
def addAll (m : NameMap α) (l : List (String × α)) : NameMap α :=
  l.foldl (fun m entry => m.insert entry.1 entry.2) m

def ofList (l : List (String × α)) : NameMap α := empty.addAll l

def get? (m : NameMap α) (name : String) : Option α :=
  (m.entries.find? (·.1 = name)).map (·.2)

def contains (m : NameMap α) (name : String) : Bool := (m.get? name).isSome

def isEmpty (m : NameMap α) : Bool := m.entries.isEmpty

def names (m : NameMap α) : List String := m.entries.map (·.1)

instance [DecidableEq α] : DecidableEq (NameMap α) := fun a b =>
  if h : a.entries = b.entries then isTrue (by cases a; cases b; simp_all)
  else isFalse fun e => h (e ▸ rfl)

theorem find_placeBy {name x : String} {value : α} {l : List (String × α)} :
    ((placeBy (·.1) (name, value) l).find? (·.1 = x)).map (·.2) =
      if x = name then some value else (l.find? (·.1 = x)).map (·.2) := by
  induction l with
  | nil => grind [placeBy]
  | cons entry rest ih => grind [placeBy]

/-- A value put in is found under its name, and other names keep theirs. -/
theorem get?_insert {m : NameMap α} {name x : String} {value : α} :
    (m.insert name value).get? x = if x = name then some value else m.get? x :=
  find_placeBy

@[simp] theorem get?_empty {x : String} : (empty : NameMap α).get? x = none := rfl

end NameMap

end TableFlow
