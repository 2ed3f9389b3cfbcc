/-!
# Stable sorting

`sort? width less l` puts a list in rising order; equal elements keep their order. Up to twenty
elements are inserted one by one (`sortStable`). A longer list is cut into runs, which are merged
in pairs (`sortRuns?`): stretches that are in order already, and pieces that are sorted on their
own (`sortShort?`, `quicksort?`). How it is cut depends on the width of an element in bytes.

All this is right only if `less` is the strict part of a total preorder on the elements. By any
other `less` the result is some rearrangement, in an order that nothing is promised of, and a
list of more than twenty elements may have no result: two halves that are merged from both ends
may not meet (`mergeEnds?`), and then the sort gives up.
-/

namespace TableFlow

variable {α : Type}

/-! ## Insertion -/

/-- An element put into a list in falling order, behind those that are not greater. -/
def insertFalling (less : α → α → Bool) (a : α) : List α → List α
  | [] => [a]
  | b :: rest => if less a b then b :: insertFalling less a rest else a :: b :: rest

def insertAll (less : α → α → Bool) (sorted l : List α) : List α :=
  (l.foldl (fun sorted a => insertFalling less a sorted) sorted.reverse).reverse

/-- The list in rising order, by insertion. -/
def sortStable (less : α → α → Bool) (l : List α) : List α :=
  insertAll less [] l

/-! ## Merging -/

def mergeUp (less : α → α → Bool) (l r : List α) : List α :=
  l.merge r fun a b => !less b a

def mergeDown (less : α → α → Bool) (l r : List α) : List α :=
  (mergeUp (fun a b => less b a) r.reverse l.reverse).reverse

/-- Two lists in rising order as one, from the front if the first is the shorter one. -/
def merge (less : α → α → Bool) (l r : List α) : List α :=
  if l.length ≤ r.length then mergeUp less l r else mergeDown less l r

/-- A merge on its way: what it gave so far and what is left of both lists. -/
structure Merging (α : Type) where
  out : List α
  left : List α
  right : List α

/-- So many steps of a merge from the front. -/
def mergeSteps (less : α → α → Bool) : Nat → List α → List α → Merging α
  | n + 1, a :: l, b :: r =>
    if less b a then
      let m := mergeSteps less n (a :: l) r
      { m with out := b :: m.out }
    else
      let m := mergeSteps less n l (b :: r)
      { m with out := a :: m.out }
  | _, l, r => ⟨[], l, r⟩

/-- Two lists merged from both ends at once, half of the steps from each. A last element in the
middle is what both merges left over; nothing comes out if they did not meet. -/
def mergeEnds? (less : α → α → Bool) (l r : List α) : Option (List α) :=
  let half := (l.length + r.length) / 2
  let odd := (l.length + r.length) % 2
  let low := mergeSteps less half l r
  let high := mergeSteps (fun a b => less b a) half r.reverse l.reverse
  if low.left.length + high.right.length = l.length then
    some (low.out ++ low.right.take odd ++ high.out.reverse)
  else if low.left.length + high.right.length = l.length + odd then
    some (low.out ++ low.left.take odd ++ high.out.reverse)
  else none

/-! ## Short lists -/

def sortTwo (less : α → α → Bool) (a b : α) : α × α :=
  if less b a then (b, a) else (a, b)

/-- Two pairs in rising order as one list, by three comparisons. -/
def mergeTwos (less : α → α → Bool) : α × α → α × α → List α
  | (a, b), (c, d) =>
    let low := less c a
    let high := less d b
    let least := if low then c else a
    let greatest := if high then b else d
    let left := if low then a else if high then c else b
    let right := if high then d else if low then b else c
    if less right left then [least, right, left, greatest] else [least, left, right, greatest]

def sortFour (less : α → α → Bool) (a b c d : α) : List α :=
  mergeTwos less (sortTwo less a b) (sortTwo less c d)

/-- Four or eight elements in order; any other list as it is. -/
def sortFew? (less : α → α → Bool) : List α → Option (List α)
  | [a, b, c, d] => some (sortFour less a b c d)
  | [a, b, c, d, e, f, g, h] => mergeEnds? less (sortFour less a b c d) (sortFour less e f g h)
  | l => some l

def sortHalf? (less : α → α → Bool) (few : Nat) (l : List α) : Option (List α) :=
  (sortFew? less (l.take few)).map (insertAll less · (l.drop few))

/-- A short list in order: its halves, sorted on their own and merged from both ends. -/
def sortShort? (less : α → α → Bool) (narrow : Bool) (l : List α) : Option (List α) :=
  if l.length < 2 then some l
  else do
    let few := if narrow ∧ 16 ≤ l.length then 8 else if 8 ≤ l.length then 4 else 1
    let left ← sortHalf? less few (l.take (l.length / 2))
    let right ← sortHalf? less few (l.drop (l.length / 2))
    mergeEnds? less left right

/-! ## Quicksort -/

def below (less : α → α → Bool) (l : List α) (i j : Nat) : Bool :=
  match l[i]?, l[j]? with
  | some a, some b => less a b
  | _, _ => false

/-- The one in the middle of three positions. -/
def middle (less : Nat → Nat → Bool) (i j k : Nat) : Nat :=
  if less i j = less i k then if less j k = less i j then j else k else i

/-- The one in the middle of three positions, each of which stands for those around it. -/
def middleOf (less : Nat → Nat → Bool) (n i j k : Nat) : Nat :=
  if n < 8 then middle less i j k
  else
    let around (p : Nat) := middleOf less (n / 8) p (p + n / 8 * 4) (p + n / 8 * 7)
    middle less (around i) (around j) (around k)
termination_by n

def pivot (less : α → α → Bool) (l : List α) : Nat :=
  middleOf (below less l) (l.length / 8) 0 (l.length / 8 * 4) (l.length / 8 * 7)

/-- The elements that go to the left, and the others; of the one at `p` this is given. -/
def splitAround (goes : α → Bool) (here : Bool) (p : Nat) (l : List α) : List α × List α :=
  let (left, right) := l.zipIdx.partition fun (a, i) => if i = p then here else goes a
  (left.map (·.1), right.map (·.1))

/-- Quicksort down to short lists. What is not less than the pivot is parted once more if all of it
may be equal, which is so if the pivot is not greater than one before it. After too many
levels the rest is left to another way of sorting. -/
def quicksort? (less : α → α → Bool) (narrow : Bool) (otherwise? : List α → Option (List α)) :
    Nat → Option α → List α → Option (List α)
  | 0, _, l => if l.length ≤ 32 then sortShort? less narrow l else otherwise? l
  | limit + 1, ancestor, l =>
    if l.length ≤ 32 then sortShort? less narrow l
    else do
      let p := pivot less l
      let v ← l[p]?
      let (left, right) := splitAround (less · v) false p l
      if ancestor.any (!less · v) || left.isEmpty then
        let (same, greater) := splitAround (!less v ·) true p l
        return same ++ (← quicksort? less narrow otherwise? limit none greater)
      else
        return (← quicksort? less narrow otherwise? limit ancestor left)
          ++ (← quicksort? less narrow otherwise? limit (some v) right)

/-! ## Runs -/

/-- A part of a list, in order or not yet. -/
structure Run (α : Type) where
  sorted : Bool
  elements : List α

/-- How many elements from the start on follow each other. -/
def stretch (follows : α → α → Bool) : List α → Nat
  | a :: b :: l => if follows a b then stretch follows (b :: l) + 1 else 1
  | l => l.length

def startsFalling (less : α → α → Bool) : List α → Bool
  | a :: b :: _ => less b a
  | _ => false

/-- The run at the start of a list: a stretch that rises, or that falls and is turned round, if it
is long enough, else a piece that is sorted at once or later. -/
def nextRun? (less : α → α → Bool) (narrow eager : Bool) (good : Nat) (l : List α) :
    Option (Run α) :=
  let falls := startsFalling less l
  let n := stretch (fun a b => less b a == falls) l
  if good ≤ n then some ⟨true, if falls then (l.take n).reverse else l.take n⟩
  else if eager then (sortShort? less narrow (l.take 32)).map (⟨true, ·⟩)
  else some ⟨false, l.take good⟩

def cutRuns? (less : α → α → Bool) (narrow eager : Bool) (good : Nat) :
    List α → Option (List (Run α))
  | [] => some []
  | a :: l => do
    let run ← nextRun? less narrow eager good (a :: l)
    return run :: (← cutRuns? less narrow eager good (l.drop (run.elements.length - 1)))
termination_by l => l.length
decreasing_by
  simp only [List.length_drop, List.length_cons]
  omega

def Run.inOrder? (sortRun? : List α → Option (List α)) (run : Run α) : Option (List α) :=
  if run.sorted then some run.elements else sortRun? run.elements

/-- Two neighbouring runs as one. If neither is in order and there is room to sort them
together, that is put off. -/
def Run.join? (less : α → α → Bool) (room : Nat) (sortRun? : List α → Option (List α))
    (left right : Run α) : Option (Run α) :=
  if left.elements.length + right.elements.length ≤ room ∧ !left.sorted ∧ !right.sorted then
    some ⟨false, left.elements ++ right.elements⟩
  else do
    return ⟨true, merge less (← left.inOrder? sortRun?) (← right.inOrder? sortRun?)⟩

/-- How deep in the tree of merges over `n` elements two neighbouring runs meet, by the ends of
both. -/
def mergeDepth (n start mid stop : Nat) : Nat :=
  let scale := ((1 <<< 62) + n - 1) / n
  let apart := (scale * (start + mid)) ^^^ (scale * (mid + stop))
  if apart = 0 then 64 else 63 - apart.log2

/-- Joins the last run with those before it that meet their next one at some depth or deeper.
Those before it are given from the end on, each with its depth. -/
def collapse? (join? : Run α → Run α → Option (Run α)) (depth : Nat) :
    List (Nat × Run α) → Run α → Option (List (Nat × Run α) × Run α)
  | [], last => some ([], last)
  | (d, run) :: before, last =>
    if depth ≤ d then do collapse? join? depth before (← join? run last)
    else some ((d, run) :: before, last)

/-- All runs as one; `stop` is where the last run ends that was met. -/
def joinRuns? (join? : Run α → Run α → Option (Run α)) (n : Nat) :
    List (Nat × Run α) → Run α → Nat → List (Run α) → Option (Run α)
  | before, last, _, [] => (collapse? join? 0 before last).map (·.2)
  | before, last, stop, next :: rest => do
    let nextStop := stop + next.elements.length
    let depth := mergeDepth n (stop - last.elements.length) stop nextStop
    let (before, last) ← collapse? join? depth before last
    joinRuns? join? n ((depth, last) :: before) next nextStop rest

/-- The length from which on a stretch in order counts as a run. -/
def goodLength (n : Nat) : Nat :=
  if n ≤ 4096 then min (n - n / 2) 64
  else
    let shift := (1 + (n ||| 1).log2) / 2
    ((1 <<< shift) + (n >>> shift)) / 2

def sortRuns? (less : α → α → Bool) (narrow : Bool) (room : Nat) (eager : Bool)
    (sortRun? : List α → Option (List α)) (l : List α) : Option (List α) := do
  match ← cutRuns? less narrow eager (goodLength l.length) l with
  | [] => some []
  | first :: rest =>
    let join? := Run.join? less room sortRun?
    let whole ← joinRuns? join? l.length [] first first.elements.length rest
    whole.inOrder? sortRun?

/-! ## Lists of any length -/

/-- How many elements of a width can be set aside while `n` of them are sorted. -/
def sortRoom (width n : Nat) : Nat :=
  let wanted := max (max (n - n / 2) (min n (8000000 / width))) 48
  max wanted (4096 / width)

def sort? (width : Nat) (less : α → α → Bool) (l : List α) : Option (List α) :=
  let narrow := decide (width ≤ 16)
  let room := sortRoom width l.length
  let eagerly? := sortRuns? less narrow room true some
  let deeply? (l : List α) :=
    quicksort? less narrow eagerly? (2 * (l.length ||| 1).log2) none l
  if l.length ≤ 20 then some (sortStable less l)
  else if l.length ≤ 64 then eagerly? l
  else sortRuns? less narrow room false deeply? l

end TableFlow
