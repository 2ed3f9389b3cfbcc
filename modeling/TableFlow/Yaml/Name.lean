import TableFlow.Yaml.Scalar
import TableFlow.Yaml.Token

/-!
# Names in YAML texts

Anchors, references, tags and directives. Each function reads one of them and gives the
place after it.
-/

namespace TableFlow.Yaml

def readVersion? (c : Cursor) : Option (Nat × Cursor) :=
  let (digits, c) := c.takeWhile Char.isDigit
  if digits.isEmpty ∨ 9 < digits.length then none
  else some (digits.foldl (fun n d => 10 * n + (d.toNat - '0'.toNat)) 0, c)

/-- The name of an anchor or a reference, from behind its mark on. -/
def readName? (c : Cursor) : Option (String × Cursor) :=
  let (name, c) := c.takeWhile isNameChar
  if name.isEmpty then none
  else if isGap (c.peek 0) ∨ (c.peek 0).any (isOneOf "?:,]\x7d%@`") then
    some (String.ofList name, c)
  else none

/-! ## Tags -/

/-- The byte that two hexadecimal digits after a percent sign spell. -/
def escapedByte? (c : Cursor) : Option (UInt8 × Cursor) :=
  match c.rest with
  | '%' :: a :: b :: _ => (hexValue? [a, b]).map fun n => (n.toUInt8, c.advance 3)
  | _ => none

/-- How many further bytes a first byte calls for. -/
def tailLength? (byte : UInt8) : Option Nat :=
  if byte < 0x80 then some 0
  else if byte / 32 = 6 then some 1
  else if byte / 16 = 14 then some 2
  else if byte / 8 = 30 then some 3
  else none

/-- Further bytes of a character. -/
def escapedTail? : Nat → Cursor → Option (List UInt8 × Cursor)
  | 0, c => some ([], c)
  | n + 1, c => do
    let (byte, c) ← escapedByte? c
    if byte / 64 ≠ 2 then none
    let (rest, c) ← escapedTail? n c
    some (byte :: rest, c)

/-- Escaped bytes in the form of one character. They may spell it in more bytes than it needs,
or spell none. -/
def escapedBytes? (c : Cursor) : Option (List UInt8 × Cursor) := do
  let (byte, c) ← escapedByte? c
  let (rest, c) ← escapedTail? (← tailLength? byte) c
  some (byte :: rest, c)

/-- The characters of tags; brackets and commas only in a tag that is written out. -/
def isTagChar (written : Bool) (c : Char) : Bool :=
  isNameChar c || isOneOf ";/?:@&=+$.!~*'()" c || (written && isOneOf ",[]" c)

/-- The bytes of a tag up to a character that does not belong to it. -/
def readTagBytes? (written : Bool) : Nat → Cursor → Option (List UInt8 × Cursor)
  | 0, c => some ([], c)
  | steps + 1, c =>
    match c.peek 0 with
    | some '%' => do
      let (bytes, c) ← escapedBytes? c
      let (rest, c) ← readTagBytes? written steps c
      some (bytes ++ rest, c)
    | some d =>
      if isTagChar written d then do
        let (rest, c) ← readTagBytes? written steps (c.advance 1)
        some (d.toUInt8 :: rest, c)
      else some ([], c)
    | none => some ([], c)

def readTagText? (written : Bool) (c : Cursor) : Option (Tag × Cursor) := do
  let (bytes, c) ← readTagBytes? written c.rest.length c
  if bytes.isEmpty then none
  some (.ofBytes bytes, c)

/-- A handle: a mark, and maybe a name and another mark. -/
def readHandle? (c : Cursor) : Option (String × Cursor) :=
  if c.peek 0 = some '!' then
    let (name, c) := (c.advance 1).takeWhile isNameChar
    if c.peek 0 = some '!' then some (String.ofList ('!' :: name ++ ['!']), c.advance 1)
    else some (String.ofList ('!' :: name), c)
  else none

/-- A tag that is written out, or a handle and a suffix; the suffix may belong to no
handle. A lone mark is a tag of its own. A gap must follow, or in flow brackets a comma. -/
def readTag? (inFlow : Bool) (c : Cursor) : Option (Token × Cursor) := do
  let (token, c) ←
    if c.peek 1 = some '<' then do
      let (suffix, c) ← readTagText? true (c.advance 2)
      if c.peek 0 ≠ some '>' then none
      some (Token.tag "" suffix, c.advance 1)
    else do
      let (handle, c) ← readHandle? c
      if 1 < handle.length ∧ handle.endsWith "!" then
        let (suffix, c) ← readTagText? false c
        some (Token.tag handle suffix, c)
      else
        let (more, c) ← readTagBytes? false c.rest.length c
        let suffix := Tag.ofString (handle.drop 1).toString ++ .ofBytes more
        some (if suffix.bytes.isEmpty then Token.tag "" (.ofString "!") else .tag "!" suffix, c)
  if isGap (c.peek 0) ∨ (inFlow ∧ c.peek 0 = some ',') then some (token, c) else none

/-! ## Directives -/

/-- A directive, from behind its mark on: a version, or a handle for tags. -/
def readDirective? (c : Cursor) : Option (Token × Cursor) := do
  let (name, c) := c.takeWhile isNameChar
  if !isGap (c.peek 0) then none
  let c := c.skipWhile isBlank
  match String.ofList name with
  | "YAML" =>
    let (major, c) ← readVersion? c
    if c.peek 0 ≠ some '.' then none
    let (minor, c) ← readVersion? (c.advance 1)
    some (.version major minor, ← c.finishLine?)
  | "TAG" =>
    let (handle, c) ← readHandle? c
    if !handle.endsWith "!" then none
    if !(c.peek 0).any isBlank then none
    let (start, c) ← readTagText? true (c.skipWhile isBlank)
    if !isGap (c.peek 0) then none
    some (.handle handle start, ← c.finishLine?)
  | _ => none

end TableFlow.Yaml
