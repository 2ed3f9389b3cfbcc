import TableFlow.Document
import TableFlow.Json.Token

/-!
# JSON texts as trees

`Tree.read?` accepts exactly the JSON texts and keeps their numerals and halved strings as
they are; `Tree.toDocument?` gives them their values and bounds the depth.
-/

namespace TableFlow.Json

inductive Tree where
  | null
  | bool (b : Bool)
  | number (n : Numeral)
  | text (s : Option String)
  | list (items : List Tree)
  | map (entries : List (Option String × Tree))

namespace Tree

mutual

/-- Reads a value, and gives the tokens after it. -/
def readValue? : Nat → List Token → Option (Tree × List Token)
  | 0, _ => none
  | steps + 1, ts =>
    match ts with
    | .null :: rest => some (null, rest)
    | .bool b :: rest => some (bool b, rest)
    | .number n :: rest => some (number n, rest)
    | .text s :: rest => some (text s, rest)
    | .openList :: .closeList :: rest => some (list [], rest)
    | .openList :: rest => (readItems? steps rest).map fun (l, tail) => (list l, tail)
    | .openMap :: .closeMap :: rest => some (map [], rest)
    | .openMap :: rest => (readEntries? steps rest).map fun (l, tail) => (map l, tail)
    | _ => none

/-- Reads at least one item of a list, and its closing bracket. -/
def readItems? : Nat → List Token → Option (List Tree × List Token)
  | 0, _ => none
  | steps + 1, ts => do
    let (item, ts) ← readValue? steps ts
    match ts with
    | .comma :: rest => (readItems? steps rest).map fun (l, tail) => (item :: l, tail)
    | .closeList :: rest => some ([item], rest)
    | _ => none

/-- Reads at least one entry of a mapping, and its closing bracket. -/
def readEntries? : Nat → List Token → Option (List (Option String × Tree) × List Token)
  | 0, _ => none
  | steps + 1, ts =>
    match ts with
    | .text key :: .colon :: ts => do
      let (value, ts) ← readValue? steps ts
      match ts with
      | .comma :: rest =>
        (readEntries? steps rest).map fun (l, tail) => ((key, value) :: l, tail)
      | .closeMap :: rest => some ([(key, value)], rest)
      | _ => none
    | _ => none

end

def read? (source : String) : Option Tree := do
  let ts ← tokens? source
  match ← readValue? (2 * ts.length + 1) ts with
  | (tree, []) => some tree
  | _ => none

mutual

/-- The document of a tree with at most `depth` lists and mappings inside each other. -/
def toDocument? (depth : Nat) : Tree → Option Document
  | null => some .null
  | bool b => some (.bool b)
  | number n => n.value?.map fun
    | .whole i => .whole i
    | .decimal x => .decimal x
  | text s => s.map .text
  | list items => do
    if depth = 0 then none
    some (.list (← toItems? (depth - 1) items))
  | map entries => do
    if depth = 0 then none
    some (.map (← toEntries? (depth - 1) entries))

def toItems? (depth : Nat) : List Tree → Option (List Document)
  | [] => some []
  | t :: rest => do
    let d ← toDocument? depth t
    some (d :: (← toItems? depth rest))

def toEntries? (depth : Nat) :
    List (Option String × Tree) → Option (List (Document × Document))
  | [] => some []
  | (key, t) :: rest => do
    let k ← key
    let d ← toDocument? depth t
    some ((.text k, d) :: (← toEntries? depth rest))

end

end Tree

/-- The document of a JSON text. -/
def read? (source : String) : Option Document := do
  (← Tree.read? source).toDocument? 127

end TableFlow.Json
