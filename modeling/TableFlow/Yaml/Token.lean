/-!
# Tokens of YAML texts

Indentation is a pair of brackets among the tokens: `blockList` or `blockMap` opens a block
and `blockEnd` closes it.
-/

namespace TableFlow.Yaml

inductive Style where
  | plain
  | quoted
  | literal
  | folded
  deriving DecidableEq, Repr

/-- A tag as bytes, which need not spell characters. -/
structure Tag where
  bytes : List UInt8
  deriving DecidableEq, Repr

namespace Tag

def ofString (s : String) : Tag := ⟨s.toUTF8.toList⟩

/-- A tag from bytes, of which a zero ends it. -/
def ofBytes (bytes : List UInt8) : Tag := ⟨bytes.takeWhile (· != 0)⟩

instance : Append Tag := ⟨fun start rest => ⟨start.bytes ++ rest.bytes⟩⟩

/-- The tag of a type that scalars have. -/
def core (name : String) : Tag := ofString ("tag:yaml.org,2002:" ++ name)

/-- Whether a tag is of the text's own making. -/
def isOwn (t : Tag) : Bool := t.bytes.head? == some 0x21

def isText (t : Tag) : Bool := (String.fromUTF8? ⟨t.bytes.toArray⟩).isSome

end Tag

inductive Token where
  /-- The version that a text asks for. -/
  | version (major minor : Nat)
  /-- A handle that stands for a start of tags. -/
  | handle (name : String) (start : Tag)
  | documentStart
  | documentEnd
  | blockList
  | blockMap
  | blockEnd
  | openList
  | closeList
  | openMap
  | closeMap
  /-- A dash before an item. -/
  | entry
  /-- A comma between entries. -/
  | separator
  | key
  | value
  | reference (name : String)
  | anchor (name : String)
  | tag (handle : String) (suffix : Tag)
  | scalar (text : String) (style : Style)
  | textEnd
  deriving DecidableEq, Repr

end TableFlow.Yaml
