/-!
# Documents

A document is what a JSON or a YAML text says once its syntax is gone: a tree of lists and
mappings over null, truth values, numbers and text. Mappings keep their entries in order,
also when a key repeats, and a key may be any document.
-/

namespace TableFlow

/-- A tree of data. -/
inductive Document where
  | null
  | bool (b : Bool)
  | whole (i : Int)
  | decimal (x : Float)
  | text (s : String)
  | list (items : List Document)
  | map (entries : List (Document × Document))

namespace Document

def texts (l : List String) : Document := list (l.map text)

def fields (l : List (String × Document)) : Document := map (l.map fun (k, v) => (text k, v))

/-- A mapping from texts to texts. -/
def pairs (l : List (String × String)) : Document := fields (l.map fun (k, v) => (k, text v))

def toText? : Document → Option String
  | text s => some s
  | _ => none

def toTexts? : Document → Option (List String)
  | list items => items.mapM toText?
  | _ => none

/-- The entries of a mapping from texts to texts, in order. -/
def toPairs? : Document → Option (List (String × String))
  | map entries => entries.mapM fun (k, v) => do some (← k.toText?, ← v.toText?)
  | _ => none

theorem mapM_map_of {α β : Type} {f : β → Option α} {g : α → β} (h : ∀ a, f (g a) = some a)
    (l : List α) : (l.map g).mapM f = some l := by
  induction l with
  | nil => rfl
  | cons a rest ih => simp [h, ih]

@[simp] theorem toTexts?_texts (l : List String) : (texts l).toTexts? = some l :=
  mapM_map_of (g := text) (fun _ => rfl) l

@[simp] theorem toPairs?_pairs (l : List (String × String)) : (pairs l).toPairs? = some l := by
  simp only [pairs, fields, List.map_map, toPairs?]
  exact mapM_map_of (g := fun p : String × String => (text p.1, text p.2)) (fun _ => rfl) l

end Document

end TableFlow
