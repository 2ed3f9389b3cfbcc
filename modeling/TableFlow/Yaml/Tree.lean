import TableFlow.Yaml.Scan

/-!
# YAML texts as trees with references

`Yaml.readTree?` reads the one document of a text. References are not followed yet: each
stands for a number, and `Anchored` holds what the numbers stand for.
-/

namespace TableFlow.Yaml

/-- A document as it is written, with its tags and the style of its scalars. -/
inductive Tree where
  | scalar (text : String) (style : Style) (tag : Option Tag)
  | list (items : List Tree) (tag : Option Tag)
  | map (entries : List (Tree × Tree)) (tag : Option Tag)
  | reference (number : Nat)

def Tree.absent : Tree := .scalar "" .plain none

/-- Trees with the numbers of their anchors, the last one that starts first. -/
abbrev Anchored := List (Nat × Tree)

/-- What is left to read, and what was met so far. -/
structure Reader where
  tokens : List Token
  /-- The starts of tags that handles stand for. -/
  handles : List (String × Tag)
  /-- The numbers of the names of anchors. -/
  numbers : List (String × Nat)
  anchored : Anchored
  /-- The number of scalars and references and of ends of lists and mappings. -/
  events : Nat

namespace Reader

abbrev Read := StateT Reader Option

def fail {α : Type} : Read α := fun _ => none

def look : Read Token := do return ((← get).tokens.head?).getD .textEnd

def skip : Read Unit := modify fun r => { r with tokens := r.tokens.tail }

def count (n : Nat) : Read Unit := modify fun r => { r with events := r.events + n }

def expect (token : Token) : Read Unit := do
  if (← look) = token then skip else fail

def absent : Read Tree := do
  count 1
  return .absent

/-! ## Properties -/

/-- The anchor and the tag before a node, and whether there are any. -/
structure Properties where
  anchor : Option String
  tag : Option (String × Tag)

def readAnchor : Read (Option String) := do
  match ← look with
  | .anchor name =>
    skip
    return some name
  | _ => return none

def readTag : Read (Option (String × Tag)) := do
  match ← look with
  | .tag handle suffix =>
    skip
    return some (handle, suffix)
  | _ => return none

/-- An anchor and a tag in either order. -/
def readProperties : Read Properties := do
  match ← readAnchor with
  | some name => return ⟨some name, ← readTag⟩
  | none =>
    match ← readTag with
    | some tag => return ⟨← readAnchor, some tag⟩
    | none => return ⟨none, none⟩

/-- A tag with its handle replaced by what it stands for. -/
def resolveTag : Option (String × Tag) → Read (Option Tag)
  | none => return none
  | some (handle, suffix) => do
    if handle = "" then return some suffix
    match (← get).handles.lookup handle with
    | some start => return some (start ++ suffix)
    | none => fail

/-- The number of a name that is given to an anchor: how many names there are so far. A name
that is given again moves on to this number, and so does the next new name. -/
def takeNumber (name : String) : Read Nat := do
  let number := (← get).numbers.length
  modify fun r => { r with numbers := (name, number) :: r.numbers.filter (·.1 != name) }
  return number

/-- Reads what stands behind an anchor. The anchors inside start after it. -/
def anchor (name : Option String) (read : Read Tree) : Read Tree := do
  match name with
  | none => read
  | some name =>
    let number ← takeNumber name
    let before := (← get).anchored
    modify fun r => { r with anchored := [] }
    let tree ← read
    modify fun r => { r with anchored := r.anchored ++ (number, tree) :: before }
    return tree

def scalar (name : Option String) (text : String) (style : Style) (tag : Option Tag) :
    Read Tree := do
  count 1
  anchor name (return .scalar text style tag)

/-! ## Nodes -/

mutual

/-- Reads a node. Blocks may start only if `block`, and a list without indentation only if
`flat`. -/
def node : Nat → Bool → Bool → Read Tree
  | 0, _, _ => fail
  | steps + 1, block, flat => do
    match ← look with
    | .reference name =>
      skip
      count 1
      match (← get).numbers.lookup name with
      | some number => return .reference number
      | none => fail
    | _ =>
      let properties ← readProperties
      let tag ← resolveTag properties.tag
      let within := fun (read : Read Tree) => do
        count 2
        anchor properties.anchor read
      match ← look with
      | .scalar text style =>
        skip
        scalar properties.anchor text style tag
      | .entry =>
        if flat then within ((Tree.list · tag) <$> flatItems steps)
        else missing properties.anchor tag
      | .openList =>
        skip
        within ((Tree.list · tag) <$> flowItems steps true)
      | .openMap =>
        skip
        within ((Tree.map · tag) <$> flowEntries steps true)
      | .blockList =>
        if block then
          skip
          within ((Tree.list · tag) <$> blockItems steps)
        else missing properties.anchor tag
      | .blockMap =>
        if block then
          skip
          within ((Tree.map · tag) <$> blockEntries steps)
        else missing properties.anchor tag
      | _ => missing properties.anchor tag

def missing (name : Option String) (tag : Option Tag) : Read Tree :=
  if name.isNone ∧ tag.isNone then fail else scalar name "" .plain tag

def nodeBefore : Nat → List Token → Bool → Bool → Read Tree
  | 0, _, _, _ => fail
  | steps + 1, enders, block, flat => do
    if enders.contains (← look) then absent else node steps block flat

def blockItems : Nat → Read (List Tree)
  | 0 => fail
  | steps + 1 => do
    match ← look with
    | .entry =>
      skip
      let item ← nodeBefore steps [.entry, .blockEnd] true false
      return item :: (← blockItems steps)
    | .blockEnd =>
      skip
      return []
    | _ => fail

/-- The items of a list that is not indented under its key. -/
def flatItems : Nat → Read (List Tree)
  | 0 => fail
  | steps + 1 => do
    match ← look with
    | .entry =>
      skip
      let item ← nodeBefore steps [.entry, .key, .value, .blockEnd] true false
      return item :: (← flatItems steps)
    | _ => return []

def blockEntries : Nat → Read (List (Tree × Tree))
  | 0 => fail
  | steps + 1 => do
    match ← look with
    | .key =>
      skip
      let key ← nodeBefore steps [.key, .value, .blockEnd] true true
      let value ← valueBefore steps [.key, .value, .blockEnd] true true
      return (key, value) :: (← blockEntries steps)
    | .blockEnd =>
      skip
      return []
    | _ => fail

/-- The value after a key, which is absent without a colon. -/
def valueBefore : Nat → List Token → Bool → Bool → Read Tree
  | 0, _, _, _ => fail
  | steps + 1, enders, block, flat => do
    if (← look) = .value then
      skip
      nodeBefore steps enders block flat
    else absent

def flowItems : Nat → Bool → Read (List Tree)
  | 0, _ => fail
  | steps + 1, first => do
    if (← look) ≠ .closeList ∧ !first then expect .separator
    match ← look with
    | .closeList =>
      skip
      return []
    | .key =>
      skip
      count 2
      let pair ← flowPair steps
      return .map [pair] none :: (← flowItems steps false)
    | _ =>
      let item ← node steps false false
      return item :: (← flowItems steps false)

/-- A mapping of one entry inside a list in brackets. Where the key is absent, the token
after it is passed over. -/
def flowPair : Nat → Read (Tree × Tree)
  | 0 => fail
  | steps + 1 => do
    let key ←
      if [Token.value, .separator, .closeList].contains (← look) then
        skip
        absent
      else node steps false false
    return (key, ← valueBefore steps [.separator, .closeList] false false)

def flowEntries : Nat → Bool → Read (List (Tree × Tree))
  | 0, _ => fail
  | steps + 1, first => do
    if (← look) ≠ .closeMap ∧ !first then expect .separator
    match ← look with
    | .closeMap =>
      skip
      return []
    | .key =>
      skip
      let key ← nodeBefore steps [.value, .separator, .closeMap] false false
      let value ← valueBefore steps [.separator, .closeMap] false false
      return (key, value) :: (← flowEntries steps false)
    | _ =>
      let key ← node steps false false
      let value ← absent
      return (key, value) :: (← flowEntries steps false)

end

/-! ## Documents -/

/-- The handles that are known without a directive. -/
def knownHandles : List (String × Tag) := [("!", .ofString "!"), ("!!", .core "")]

/-- Reads the directives before a document: at most one version, which must be 1.1 or 1.2,
and handles that all differ. -/
def directives : Nat → Bool → Read Unit
  | 0, _ => fail
  | steps + 1, versioned => do
    match ← look with
    | .version major minor =>
      skip
      if versioned ∨ major ≠ 1 ∨ (minor ≠ 1 ∧ minor ≠ 2) then fail
      else directives steps true
    | .handle name start =>
      skip
      let r ← get
      if (r.handles.lookup name).isSome then fail
      else
        set { r with handles := (name, start) :: r.handles }
        directives steps versioned
    | _ =>
      modify fun r => { r with handles := r.handles ++ knownHandles }

def skipEnds : Nat → Read Unit
  | 0 => return
  | steps + 1 => do
    if (← look) = .documentEnd then
      skip
      skipEnds steps

/-- The tokens before which a document is empty. -/
def endsDocument : Token → Bool
  | .version .. | .handle .. | .documentStart | .documentEnd | .textEnd => true
  | _ => false

def document (steps : Nat) : Read (Option Tree) := do
  if (← look) = .textEnd then return none
  let first ← look
  directives steps false
  if endsDocument first ∧ first ≠ .documentEnd then
    expect .documentStart
    let root ← if endsDocument (← look) then absent else node steps true false
    finish root
  else finish (← node steps true false)
where
  finish (root : Tree) : Read (Option Tree) := do
    skipEnds steps
    expect .textEnd
    return some root

end Reader

/-- The document of a text, what its anchors stand for and the number of its parts. -/
structure Written where
  root : Tree
  anchored : Anchored
  events : Nat

/-- The document of a text, or `some none` for a text without one. -/
def readTree? (source : String) : Option (Option Written) := do
  let ts ← tokens? source
  let (root, r) ← (Reader.document (6 * ts.length + 6)).run ⟨ts, [], [], [], 0⟩
  some (root.map (⟨·, r.anchored, r.events⟩))

end TableFlow.Yaml
