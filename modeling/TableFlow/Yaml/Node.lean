import TableFlow.Yaml.Tree

/-!
# YAML documents

`Yaml.read?` reads the one document of a text and replaces references by what they stand for,
within bounds on the depth and on the number of references that are followed.
-/

namespace TableFlow.Yaml

/-- A document with its tags and the style of its scalars. -/
inductive Node where
  | scalar (text : String) (style : Style) (tag : Option Tag)
  | list (items : List Node) (tag : Option Tag)
  | map (entries : List (Node × Node)) (tag : Option Tag)

namespace Tree

/-- With the number of references that may still be followed. -/
abbrev Follow := StateT Nat Option

/-- What a reference stands for: the last tree to start with its number. -/
def follow (anchored : Anchored) : Tree → Follow Tree
  | reference number => do
    match ← get with
    | 0 => failure
    | left + 1 =>
      set left
      anchored.lookup number
  | tree => return tree

/-- A tree without references, in which at most `depth` lists and mappings stand inside each
other. A tree that refers to itself has none. -/
def toNode (anchored : Anchored) (depth : Nat) (tree : Tree) : Follow Node := do
  match ← follow anchored tree with
  | scalar text style tag => return .scalar text style tag
  | list items tag =>
    match depth with
    | 0 => failure
    | depth + 1 => return .list (← items.mapM (toNode anchored depth)) tag
  | map entries tag =>
    match depth with
    | 0 => failure
    | depth + 1 =>
      return .map (← entries.mapM fun (k, v) =>
        return (← toNode anchored depth k, ← toNode anchored depth v)) tag
  | reference _ => failure

end Tree

/-- The document of a text, or `some none` for a text without one. -/
def read? (source : String) : Option (Option Node) := do
  match ← readTree? source with
  | none => some none
  | some w =>
    let (node, _) ← (w.root.toNode w.anchored 128).run (100 * w.events)
    some (some node)

end TableFlow.Yaml
