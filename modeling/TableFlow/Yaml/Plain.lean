import TableFlow.Document
import TableFlow.Number.Reading
import TableFlow.Yaml.Node

/-!
# What scalars stand for

A plain scalar without a tag stands for null, a truth value, a number or text, whatever it
reads as first (`plain?`). Quoted and block scalars are text, and a tag can ask for a type.
-/

namespace TableFlow.Yaml

/-! ## Words and numbers -/

def isNullWord (s : String) : Bool := ["null", "Null", "NULL", "~"].contains s

def truthWord? (s : String) : Option Bool :=
  if ["true", "True", "TRUE"].contains s then some true
  else if ["false", "False", "FALSE"].contains s then some false
  else none

/-- Digits after a needless zero, maybe with a sign; they are no number. -/
def isZeroPadded (s : List Char) : Bool :=
  let digits := match s with
    | '-' :: rest => rest
    | '+' :: rest => rest
    | _ => s
  1 < digits.length && digits.head? == some '0' && digits.all Char.isDigit

/-- The value of at least one digit to a base up to 16. -/
def digitsValue? (base : Nat) (digits : List Char) : Option Nat :=
  if digits.isEmpty then none
  else digits.foldlM (fun n c => do
    let d ← hexDigit? c
    if d < base then some (base * n + d) else none) 0

/-- A number without a sign: to base 16, 8 or 2 after a mark, or else to base 10. -/
def magnitude? : List Char → Option Nat
  | '0' :: 'x' :: digits => digitsValue? 16 digits
  | '0' :: 'o' :: digits => digitsValue? 8 digits
  | '0' :: 'b' :: digits => digitsValue? 2 digits
  | digits => if isZeroPadded digits then none else digitsValue? 10 digits

/-- The least number that needs more than 128 bits. -/
def beyond128 : Nat := UInt64.size * UInt64.size

def integer? (s : List Char) : Option Int :=
  match s with
  | '-' :: rest => ((magnitude? rest).filter (· ≤ beyond128 / 2)).map fun n => -(n : Int)
  | '+' :: rest => ((magnitude? rest).filter (· < beyond128)).map Int.ofNat
  | _ => ((magnitude? s).filter (· < beyond128)).map Int.ofNat

def float? (s : List Char) : Option Float :=
  let unsigned := if s.head? = some '+' then s.drop 1 else s
  if s.head? = some '+' ∧ unsigned.head?.any (isOneOf "+-") then none
  else if [".inf", ".Inf", ".INF"].contains (String.ofList unsigned) then some (1.0 / 0.0)
  else if ["-.inf", "-.Inf", "-.INF"].contains (String.ofList s) then some (-1.0 / 0.0)
  else if [".nan", ".NaN", ".NAN"].contains (String.ofList s) then some (0.0 / 0.0)
  else (Number.readFloat? unsigned).filter Float.isFinite

/-! ## Scalars -/

/-- A whole number as a document, if it has 64 bits with or without a sign. -/
def whole? (i : Int) : Option Document :=
  if Int64.minValue.toInt ≤ i ∧ i < UInt64.size then some (.whole i) else none

/-- What a plain scalar stands for; none for a whole number that has too many bits. -/
def plain? (s : String) : Option Document :=
  if s = "" ∨ isNullWord s then some .null
  else match truthWord? s, integer? s.toList with
    | some b, _ => some (.bool b)
    | none, some i => whole? i
    | none, none =>
      if isZeroPadded s.toList then some (.text s)
      else some ((float? s.toList).elim (.text s) .decimal)

def untagged? (text : String) (style : Style) : Option Document :=
  if style = .plain then plain? text else some (.text text)

/-- What a scalar stands for. It must read as the type that its tag asks for. A tag of the
text's own making is refused if it spells characters and does not count if not, and any
other makes it text. -/
def scalar? (text : String) (style : Style) : Option Tag → Option Document
  | none => untagged? text style
  | some tag =>
    if tag = .core "bool" then (truthWord? text).map .bool
    else if tag = .core "int" then (integer? text.toList).bind whole?
    else if tag = .core "float" then (float? text.toList).map .decimal
    else if tag = .core "null" then if isNullWord text then some .null else none
    else if tag.isOwn then if tag.isText then none else untagged? text style
    else some (.text text)

/-- Whether a list or a mapping is refused for its tag, as scalars are. -/
def isRefused (tag : Option Tag) : Bool := tag.any fun t => t.isOwn && t.isText

namespace Node

mutual

def toDocument? : Node → Option Document
  | scalar text style tag => scalar? text style tag
  | list items tag => if isRefused tag then none else (toItems? items).map .list
  | map entries tag => if isRefused tag then none else (toEntries? entries).map .map

def toItems? : List Node → Option (List Document)
  | [] => some []
  | n :: rest => do
    let d ← toDocument? n
    some (d :: (← toItems? rest))

def toEntries? : List (Node × Node) → Option (List (Document × Document))
  | [] => some []
  | (k, v) :: rest => do
    let key ← toDocument? k
    let value ← toDocument? v
    some ((key, value) :: (← toEntries? rest))

end

/-- What the scalar that labels a record stands for: its text, whatever its tag. -/
def toLabel? : Node → Option Document
  | scalar text _ _ => some (.text text)
  | _ => none

/-- A record: a list that starts with its label, or a mapping with its label under a key. -/
def toRecord? (key : String) : Node → Option Document
  | list (label :: fields) tag => do
    if isRefused tag then none
    some (.list ((← toLabel? label) :: (← toItems? fields)))
  | map entries tag => do
    if isRefused tag then none
    let fields ← entries.mapM fun (k, v) => do
      let k ← toDocument? k
      some (k, ← if k.toText? = some key then toLabel? v else toDocument? v)
    some (.map fields)
  | _ => none

/-- Whether a node is a plain scalar without text, which stands for any empty collection. -/
def isBlank : Node → Bool
  | scalar text style _ => text == "" && style == .plain
  | _ => false

end Node

/-- The list of records that a text holds, which have their labels under `key`. A text without
a document holds the empty list. -/
def readRecords? (key source : String) : Option Document := do
  match ← read? source with
  | none => some (.list [])
  | some (.list items _) => (items.mapM (Node.toRecord? key)).map .list
  | some n => if n.isBlank then some (.list []) else none

end TableFlow.Yaml
