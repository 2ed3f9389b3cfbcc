import TableFlow.Proofs.Number.Numeral
import TableFlow.Proofs.Outcome
import TableFlow.Proofs.Sql.Items
import TableFlow.Proofs.Sql.Steps

/-!
# Aliases of one compiler

The text of a request is a template with numbered slots (`Template`), filled from the alias
counter on: a compilation does the same from every counter, only with other numbers (`Moved`),
and it opens each alias that it takes once (`Allots`). So the calls of one compiler never share
an alias, failing calls included (`aliases_numbered`).
-/

namespace TableFlow.Sql

/-! ## Templates -/

/-- A part of a template: a fixed text, or the number of an alias. -/
inductive Part where
  | fixed (text : String)
  /-- The alias that a nested query stands under. -/
  | opened (slot : Nat)
  /-- An alias in front of a column. -/
  | mentioned (slot : Nat)
  deriving DecidableEq, Repr

/-- A text with slots for alias numbers. -/
abbrev Template := List Part

def Part.fill (first : Nat) : Part → String
  | fixed text => text
  | opened slot | mentioned slot => toString (first + slot)

@[simp] theorem Part.fill_fixed {first : Nat} {text : String} :
    (fixed text).fill first = text := rfl

@[simp] theorem Part.fill_opened {first slot : Nat} :
    (opened slot).fill first = toString (first + slot) := rfl

@[simp] theorem Part.fill_mentioned {first slot : Nat} :
    (mentioned slot).fill first = toString (first + slot) := rfl

def Part.opened? : Part → Option Nat
  | opened slot => some slot
  | _ => none

def Part.mentioned? : Part → Option Nat
  | mentioned slot => some slot
  | _ => none

namespace Template

/-- The text whose aliases are numbered from `first` on. -/
def fill (first : Nat) (t : Template) : String := String.join (t.map (Part.fill first))

def opened (t : Template) : List Nat := t.filterMap Part.opened?

def mentioned (t : Template) : List Nat := t.filterMap Part.mentioned?

end Template

def AliasRole.mark : AliasRole → String
  | source => "SQ_"
  | left => "LQ_"
  | right => "RQ_"

theorem Alias.name_eq {a : Alias} : a.name = a.role.mark ++ toString a.number := by
  rcases a with ⟨_ | _ | _, number⟩ <;> rfl

section
variable (s : Settings)

def Alias.template (place : Nat → Part) (a : Alias) : Template :=
  [.fixed (s.nameQuote.toString ++ a.role.mark), place a.number, .fixed s.nameQuote.toString]

def Item.template : Item → Template
  | coalesced left right name =>
    .fixed "COALESCE(" :: left.template s .mentioned
      ++ .fixed ("." ++ Dialect.quoteName s name ++ ", ") :: right.template s .mentioned
      ++ [.fixed ("." ++ Dialect.quoteName s name ++ ") AS " ++ Dialect.quoteName s name)]
  | item => [.fixed (render s item.pieces)]

def selectTemplate (items : List Item) : Template :=
  .fixed "SELECT " :: List.intercalate [.fixed ", "] (items.map (Item.template s))
    ++ [.fixed " FROM "]

/-- The text of a query with its alias numbers as slots. -/
def Query.template : Query → Template
  | table items path =>
    selectTemplate s items ++ [.fixed (render s (separated "." (path.map fun n => [.name n])))]
  | nested items source sourceAlias tail =>
    selectTemplate s items ++ .fixed "( " :: source.template
      ++ .fixed " ) " :: sourceAlias.template s .opened ++ [.fixed (render s tail.pieces)]
  | join items left leftAlias type right rightAlias keys =>
    selectTemplate s items ++ .fixed "( " :: left.template
      ++ .fixed " ) " :: leftAlias.template s .opened
      ++ .fixed (" " ++ type.name ++ " JOIN ( ") :: right.template
      ++ .fixed " ) " :: rightAlias.template s .opened
      ++ [.fixed (" USING ( " ++ render s (namePieces keys) ++ " )")]

end

/-! ## Renumbering -/

def Alias.shift (k : Nat) (a : Alias) : Alias := ⟨a.role, k + a.number⟩

def Item.shift (k : Nat) : Item → Item
  | coalesced left right name => coalesced (left.shift k) (right.shift k) name
  | item => item

def Query.shift (k : Nat) : Query → Query
  | table items path => table (items.map (Item.shift k)) path
  | nested items source sourceAlias tail =>
    nested (items.map (Item.shift k)) (source.shift k) (sourceAlias.shift k) tail
  | join items left leftAlias type right rightAlias keys =>
    join (items.map (Item.shift k)) (left.shift k) (leftAlias.shift k) type (right.shift k)
      (rightAlias.shift k) keys

section
variable {s : Settings} {first k : Nat}

@[simp] theorem render_nil : render s [] = "" := rfl

@[simp] theorem render_append {ps qs : List Piece} :
    render s (ps ++ qs) = render s ps ++ render s qs := by
  simp [render, String.join_append]

@[simp] theorem render_cons {p : Piece} {ps : List Piece} :
    render s (p :: ps) = p.render s ++ render s ps := by
  rw [← List.singleton_append, render_append]
  simp [render]

namespace Template

@[simp] theorem fill_append {t u : Template} :
    fill first (t ++ u) = t.fill first ++ u.fill first := by
  simp [fill]

@[simp] theorem fill_cons {part : Part} {t : Template} :
    fill first (part :: t) = part.fill first ++ t.fill first :=
  fill_append (t := [part])

@[simp] theorem fill_nil : fill first [] = "" := rfl

theorem fill_intercalate {separator : String} {α : Type} {f : α → Template} {g : α → List Piece}
    {l : List α} (each : ∀ a ∈ l, fill first (f a) = render s (g a)) :
    fill first (List.intercalate [.fixed separator] (l.map f)) =
      render s (separated separator (l.map g)) := by
  induction l with
  | nil => rfl
  | cons a l ih =>
    have head := each a (List.mem_cons_self ..)
    have tail := ih fun b mem => each b (List.mem_cons_of_mem _ mem)
    cases l with
    | nil => simpa [separated] using head
    | cons b l =>
      simp only [List.map_cons, separated, render_append, render_cons] at tail ⊢
      rw [List.intercalate_cons_cons, fill_append, fill_append, head, tail]
      simp [Piece.render, String.append_assoc]

theorem fill_alias {place : Nat → Part} {a : Alias}
    (slot : (place a.number).fill first = toString (first + a.number)) :
    fill first (a.template s place) = Dialect.quoteName s (a.shift first).name := by
  simp only [Alias.template, fill_cons, fill_nil, Part.fill_fixed, slot, Dialect.quoteName,
    Alias.name_eq, Alias.shift, String.append_assoc, String.append_empty]

theorem fill_item {i : Item} : fill first (i.template s) = render s (i.shift first).pieces := by
  cases i <;>
    simp [Item.template, Item.shift, Item.pieces, fill_alias, Piece.render, String.append_assoc]

theorem fill_select {items : List Item} :
    fill first (selectTemplate s items) =
      render s (selectPieces (items.map (Item.shift first))) := by
  have each : fill first (List.intercalate [.fixed ", "] (items.map (Item.template s))) =
      render s (separated ", " (items.map fun i => (i.shift first).pieces)) :=
    fill_intercalate fun i _ => fill_item
  simp only [selectTemplate, selectPieces, List.cons_append, fill_cons, fill_append, each,
    render_cons, render_append, List.map_map, Function.comp_def]
  rfl

/-- A filled template is the text of the query with its aliases renumbered. -/
theorem fill_query {q : Query} : fill first (q.template s) = (q.shift first).text s := by
  unfold Query.text
  induction q with
  | table items path =>
    simp [Query.template, Query.shift, Query.pieces, fill_select]
  | nested items source a tail ih =>
    simp [Query.template, Query.shift, Query.pieces, fill_select, fill_alias, ih, Piece.render]
  | join items left la type right ra keys ihl ihr =>
    simp [Query.template, Query.shift, Query.pieces, fill_select, fill_alias, ihl, ihr,
      Piece.render, String.append_assoc]

end Template

end

/-! ## The same compilation from another counter -/

namespace Compiling

variable {α β γ δ : Type} {k : Nat} {x : Compiling α} {y : Compiling β} {f : α → β}

/-- From a counter that is raised by `k` a computation does what another one does, with its
result changed by `f`. -/
def Moved (k : Nat) (f : α → β) (x : Compiling α) (y : Compiling β) : Prop :=
  ∀ counter, y.run (k + counter) = ((x.run counter).1.map f, k + (x.run counter).2)

theorem Moved.pure {a : α} : Moved k f (Pure.pure a) (Pure.pure (f a)) := fun _ => rfl

theorem Moved.lift {x : Except SqlError α} {y : Except SqlError β} (same : y = x.map f) :
    Moved k f (lift x) (lift y) := by
  intro counter
  rw [run_lift, run_lift, same]

theorem Moved.bind {g : γ → δ} {x' : α → Compiling γ} {y' : β → Compiling δ}
    (first : Moved k f x y) (rest : ∀ a, Moved k g (x' a) (y' (f a))) :
    Moved k g (x >>= x') (y >>= y') := by
  intro counter
  rw [run_bind, run_bind, first counter]
  rcases x.run counter with ⟨_ | a, next⟩
  · rfl
  · exact rest a next

/-- What a computation makes of the alias numbers: those of the result are the numbers `given`
before and all that the computation takes from the counter, each once. -/
def Allots (given : List Nat) (x : Compiling α) (used : α → List Nat) (post : α → Prop) : Prop :=
  ∀ counter, ∃ steps, (x.run counter).2 = counter + steps ∧
    ∀ a, (x.run counter).1 = .ok a →
      (used a).Perm (given ++ List.range' counter steps) ∧ post a

variable {given : List Nat} {used : α → List Nat} {post : α → Prop}

theorem Allots.pure {a : α} (same : (used a).Perm given) (fits : post a) :
    Allots given (Pure.pure a) used post := by
  refine fun counter => ⟨0, rfl, ?_⟩
  rintro _ ⟨⟩
  exact ⟨by simpa using same, fits⟩

theorem Allots.lift {x : Except SqlError α} (fits : ∀ a, x = .ok a → post a) :
    Allots given (lift x) (fun _ => given) post := by
  refine fun counter => ⟨0, rfl, fun a made => ?_⟩
  exact ⟨by simp, fits a made⟩

theorem Allots.bind {x' : α → Compiling β} {used' : β → List Nat} {post' : β → Prop}
    (first : Allots given x used post) (rest : ∀ a, post a → Allots (used a) (x' a) used' post') :
    Allots given (x >>= x') used' post' := by
  intro counter
  obtain ⟨steps, next, made⟩ := first counter
  rw [run_bind]
  rcases run : x.run counter with ⟨_ | a, middle⟩
  · rw [run] at next
    exact ⟨steps, next, fun _ never => by cases never⟩
  · rw [run] at next made
    obtain ⟨same, fits⟩ := made a rfl
    obtain ⟨more, last, ended⟩ := rest a fits middle
    obtain rfl : middle = counter + steps := next
    refine ⟨steps + more, by rw [last, Nat.add_assoc], fun b result => ?_⟩
    obtain ⟨same', fits'⟩ := ended b result
    refine ⟨same'.trans ?_, fits'⟩
    have blocks := @List.range'_append counter steps more 1
    rw [Nat.one_mul] at blocks
    rw [← blocks, ← List.append_assoc]
    exact same.append_right _

/-- The numbers given before stay with the result. -/
theorem Allots.frame (h : Allots [] x used post) :
    Allots given x (fun a => given ++ used a) post := by
  intro counter
  obtain ⟨steps, next, made⟩ := h counter
  refine ⟨steps, next, fun a result => ?_⟩
  obtain ⟨same, fits⟩ := made a result
  exact ⟨same.append_left given, fits⟩

end Compiling

/-! ## Compilation -/

open Compiling (Moved Allots run_bind lift)

section
variable {d : Dialect} {p left right : Pipeline} {u : NameSet} {k : Nat}

/-- No alias has a double quote in its name. -/
theorem Alias.quotable (a : Alias) : '"' ∉ a.name.toList := by
  intro mem
  rw [name_eq, String.toList_append, List.mem_append] at mem
  obtain mark | digit := mem
  · have plain : ∀ role : AliasRole, '"' ∉ role.mark.toList := by
      rintro (_ | _ | _) <;> decide
    exact plain _ mark
  · exact absurd ((Number.digits_toString a.number).each _ digit) (by decide)

/-- The next alias has the number of the counter, and the counter goes on by one. -/
theorem run_nextAlias (quote : d.settings.nameQuote = '"') {role : AliasRole} {counter : Nat} :
    (nextAlias d role).run counter = (.ok ⟨role, counter⟩, counter + 1) := by
  have quoted : d.checkName (Alias.name ⟨role, counter⟩) = .ok (Alias.name ⟨role, counter⟩) := by
    rw [checkName_eq quote, if_neg (Alias.quotable _)]
  have number : (getModify (· + 1) : Compiling Nat).run counter = (.ok counter, counter + 1) := rfl
  have check : (liftM (d.checkName (Alias.name ⟨role, counter⟩)) : Compiling String).run
      (counter + 1) = (.ok (Alias.name ⟨role, counter⟩), counter + 1) := by
    rw [quoted]
    rfl
  rw [nextAlias, run_bind, number]
  show ((liftM (d.checkName (Alias.name ⟨role, counter⟩)) : Compiling String) >>= fun _ =>
    Pure.pure (⟨role, counter⟩ : Alias)).run (counter + 1) = _
  rw [run_bind, check]
  rfl

theorem nextAlias_moved (quote : d.settings.nameQuote = '"') {role : AliasRole} :
    Moved k (Alias.shift k) (nextAlias d role) (nextAlias d role) := by
  intro counter
  rw [run_nextAlias quote, run_nextAlias quote]
  rfl

theorem nextAlias_allots (quote : d.settings.nameQuote = '"') {role : AliasRole}
    {given : List Nat} :
    Allots given (nextAlias d role) (fun a => given ++ [a.number]) fun _ => True := by
  refine fun counter => ⟨1, by rw [run_nextAlias quote], fun a made => ?_⟩
  rw [run_nextAlias quote] at made
  cases made
  exact ⟨.refl _, trivial⟩

/-! ### Select lists -/

def Item.aliases : Item → List Alias
  | coalesced left right _ => [left, right]
  | _ => []

theorem Item.shift_of_aliases {i : Item} (h : i.aliases ⊆ []) : i.shift k = i := by
  cases i with
  | coalesced => simp [aliases] at h
  | _ => rfl

theorem columnItem_aliases {name : String} {i : Item} (made : columnItem d name = .ok i) :
    i.aliases ⊆ [] := by
  obtain ⟨_, -, rest⟩ := bind_eq_ok.1 made
  cases rest
  exact List.Subset.refl _

theorem stepItem_aliases {name : String} {i : Item} (made : stepItem d p u name = .ok i) :
    i.aliases ⊆ [] := by
  unfold stepItem at made
  split at made
  · unfold extensionItem at made
    split at made
    · exact columnItem_aliases made
    · dsimp only at made
      split at made <;>
      · obtain ⟨_, -, made⟩ := bind_eq_ok.1 made
        obtain ⟨_, -, made⟩ := bind_eq_ok.1 made
        obtain ⟨_, -, made⟩ := bind_eq_ok.1 made
        cases made
        exact List.Subset.refl _
  · unfold groupingItem at made
    split at made
    · exact columnItem_aliases made
    · obtain ⟨_, -, made⟩ := bind_eq_ok.1 made
      obtain ⟨_, -, made⟩ := bind_eq_ok.1 made
      cases made
      exact List.Subset.refl _
  · unfold relabeledItem at made
    split at made
    · obtain ⟨_, -, made⟩ := bind_eq_ok.1 made
      obtain ⟨_, -, made⟩ := bind_eq_ok.1 made
      cases made
      exact List.Subset.refl _
    · exact columnItem_aliases made
  · exact columnItem_aliases made

theorem withItems_aliases {β : Type} {item : String → Except SqlError Item} {names : List String}
    {rest : Except SqlError β} {parts : List Item × β} {l : List Alias}
    (made : withItems item names rest = .ok parts)
    (each : ∀ name i, item name = .ok i → i.aliases ⊆ l) : ∀ i ∈ parts.1, i.aliases ⊆ l := by
  intro i mem
  obtain ⟨name, -, made⟩ := exists_of_forall₂ (withItems_eq_ok.1 made).1 mem
  exact each name i made

theorem joinItem_shift {fromLeft fromRight : NameSet} {la ra : Alias} {name : String} :
    joinItem d fromLeft fromRight (la.shift k) (ra.shift k) name =
      (joinItem d fromLeft fromRight la ra name).map (Item.shift k) := by
  unfold joinItem
  cases d.checkName name with
  | error e => rfl
  | ok name =>
    show Except.ok _ = Except.ok _
    split <;> rfl

theorem joinItem_aliases {fromLeft fromRight : NameSet} {la ra : Alias} {name : String} {i : Item}
    (made : joinItem d fromLeft fromRight la ra name = .ok i) : i.aliases ⊆ [la, ra] := by
  obtain ⟨_, -, rest⟩ := bind_eq_ok.1 made
  cases rest
  split
  · exact List.Subset.refl _
  · exact List.nil_subset _

/-! ### Queries -/

theorem withItems_moved {β : Type} {item : String → Except SqlError Item} {names : List String}
    {rest : Except SqlError β} (each : ∀ name i, item name = .ok i → i.aliases ⊆ []) :
    Moved k (Prod.map (List.map (Item.shift k)) id) (lift (withItems item names rest))
      (lift (withItems item names rest)) := by
  refine .lift (withItems_map fun name => ?_)
  cases made : item name with
  | error e => rfl
  | ok i => exact congrArg Except.ok (Item.shift_of_aliases (each name i made)).symm

theorem nestedQuery_moved (quote : d.settings.nameQuote = '"') {source : Compiling Query}
    (below : Moved k (Query.shift k) source source) :
    Moved k (Query.shift k) (nestedQuery d p u source) (nestedQuery d p u source) := by
  refine below.bind fun q => ?_
  refine (nextAlias_moved quote).bind fun a => ?_
  exact (withItems_moved fun _ _ => stepItem_aliases).bind fun parts => .pure

theorem joinQuery_moved (quote : d.settings.nameQuote = '"') {keys : List String}
    {type : JoinType} {fromLeft fromRight : Compiling Query}
    (belowLeft : Moved k (Query.shift k) fromLeft fromLeft)
    (belowRight : Moved k (Query.shift k) fromRight fromRight) :
    Moved k (Query.shift k) (joinQuery d left right keys type u fromLeft fromRight)
      (joinQuery d left right keys type u fromLeft fromRight) := by
  refine belowLeft.bind fun l => ?_
  refine belowRight.bind fun r => ?_
  refine (nextAlias_moved quote).bind fun la => ?_
  refine (nextAlias_moved quote).bind fun ra => ?_
  exact (Moved.lift (withItems_map fun _ => joinItem_shift)).bind fun parts => .pure

/-- Compilation from another counter gives the same query with other alias numbers, or the
same error. -/
theorem compile_moved (quote : d.settings.nameQuote = '"') (p : Pipeline)
    (wanted : Option NameSet) :
    Moved k (Query.shift k) (compile d p wanted) (compile d p wanted) := by
  refine compile_induction (P := fun x => Moved k (Query.shift k) x x) ?_ ?_
    (fun _ _ _ => nestedQuery_moved quote) (fun _ _ _ _ _ _ _ => joinQuery_moved quote) p wanted
  · intro x f each
    refine Moved.bind (f := id) (.lift ?_) each
    cases x <;> rfl
  · intro t u
    exact (withItems_moved fun _ _ => columnItem_aliases).bind fun parts => .pure

/-! ### Allotment -/

/-- The aliases that the nested queries stand under, in the order of the text. -/
def Query.opened : Query → List Alias
  | table _ _ => []
  | nested _ source sourceAlias _ => source.opened ++ [sourceAlias]
  | join _ left leftAlias _ right rightAlias _ =>
    left.opened ++ leftAlias :: right.opened ++ [rightAlias]

/-- The aliases in front of columns, in the order of the text. -/
def Query.mentioned : Query → List Alias
  | table items _ => items.flatMap Item.aliases
  | nested items source _ _ => items.flatMap Item.aliases ++ source.mentioned
  | join items left _ _ right _ _ =>
    items.flatMap Item.aliases ++ left.mentioned ++ right.mentioned

/-- Only aliases that a nested query stands under are used in front of columns. -/
def Query.Closed (q : Query) : Prop := q.mentioned ⊆ q.opened

def Query.numbers (q : Query) : List Nat := q.opened.map Alias.number

theorem flatMap_aliases {items : List Item} {l : List Alias} (each : ∀ i ∈ items, i.aliases ⊆ l) :
    items.flatMap Item.aliases ⊆ l := by
  intro a mem
  obtain ⟨i, inside, mem⟩ := List.mem_flatMap.1 mem
  exact each i inside mem

theorem tableQuery_allots {t : TableRef} :
    Allots [] (tableQuery d t u) Query.numbers Query.Closed := by
  refine (Allots.lift fun parts made => withItems_aliases made fun _ _ => columnItem_aliases).bind
    fun parts bare => .pure (.refl _) ?_
  exact flatMap_aliases bare

theorem nestedQuery_allots (quote : d.settings.nameQuote = '"') {source : Compiling Query}
    (below : Allots [] source Query.numbers Query.Closed) :
    Allots [] (nestedQuery d p u source) Query.numbers Query.Closed := by
  refine below.bind fun q closed => ?_
  refine (nextAlias_allots quote).bind fun a _ => ?_
  refine (Allots.lift fun parts made => withItems_aliases made fun _ _ => stepItem_aliases).bind
    fun parts bare => .pure ?_ ?_
  · simp [Query.numbers, Query.opened]
  · refine List.append_subset.2 ⟨?_, ?_⟩
    · exact List.Subset.trans (flatMap_aliases bare) (List.nil_subset _)
    · exact List.Subset.trans closed (List.subset_append_left _ _)

theorem joinQuery_allots (quote : d.settings.nameQuote = '"') {keys : List String}
    {type : JoinType} {fromLeft fromRight : Compiling Query}
    (belowLeft : Allots [] fromLeft Query.numbers Query.Closed)
    (belowRight : Allots [] fromRight Query.numbers Query.Closed) :
    Allots [] (joinQuery d left right keys type u fromLeft fromRight) Query.numbers
      Query.Closed := by
  refine belowLeft.bind fun l closedLeft => ?_
  refine belowRight.frame.bind fun r closedRight => ?_
  refine (nextAlias_allots quote).bind fun la _ => ?_
  refine (nextAlias_allots quote).bind fun ra _ => ?_
  refine (Allots.lift fun parts made => withItems_aliases made fun _ _ => joinItem_aliases).bind
    fun parts sides => .pure ?_ ?_
  · simp only [Query.numbers, Query.opened, List.map_append, List.map_cons, List.map_nil,
      List.append_assoc, List.cons_append, List.nil_append]
    -- the text has the left alias before the right side, the counter gives it out behind
    exact List.perm_middle.symm.append_left _
  · have here : [la, ra] ⊆ l.opened ++ la :: r.opened ++ [ra] := by simp
    have fromLeft : l.opened ⊆ l.opened ++ la :: r.opened ++ [ra] := by simp
    have fromRight : r.opened ⊆ l.opened ++ la :: r.opened ++ [ra] := by
      intro a mem
      simp [mem]
    refine List.append_subset.2 ⟨List.append_subset.2 ⟨?_, ?_⟩, ?_⟩
    · exact List.Subset.trans (flatMap_aliases sides) here
    · exact List.Subset.trans closedLeft fromLeft
    · exact List.Subset.trans closedRight fromRight

/-- A compilation takes alias numbers from the counter on, and its query has each of them
once. -/
theorem compile_allots (quote : d.settings.nameQuote = '"') (p : Pipeline)
    (wanted : Option NameSet) :
    Allots [] (compile d p wanted) Query.numbers Query.Closed :=
  compile_induction (P := fun x => Allots [] x Query.numbers Query.Closed)
    (fun _ _ each => (Allots.lift fun _ _ => trivial).bind fun u _ => each u)
    (fun _ _ => tableQuery_allots) (fun _ _ _ => nestedQuery_allots quote)
    (fun _ _ _ _ _ _ _ => joinQuery_allots quote) p wanted

end

/-! ## Slots -/

namespace Template

variable {s : Settings}

theorem filterMap_intercalate {α : Type} {f : Part → Option Nat} {g : α → Template}
    {separator : Template} (plain : separator.filterMap f = []) {l : List α} :
    (List.intercalate separator (l.map g)).filterMap f = l.flatMap fun a => (g a).filterMap f := by
  induction l with
  | nil => rfl
  | cons a l ih =>
    cases l with
    | nil => simp
    | cons b l =>
      rw [List.map_cons] at ih
      rw [List.map_cons, List.map_cons, List.intercalate_cons_cons, List.filterMap_append,
        List.filterMap_append, plain, ih, List.append_nil]
      rfl

theorem opened_select {items : List Item} :
    (selectTemplate s items).filterMap Part.opened? = [] := by
  have none : ∀ i : Item, (i.template s).filterMap Part.opened? = [] := by
    rintro (_ | _ | _ | _) <;> rfl
  have items : (List.intercalate [.fixed ", "] (items.map (Item.template s))).filterMap
      Part.opened? = items.flatMap fun i => (i.template s).filterMap Part.opened? :=
    filterMap_intercalate rfl
  rw [selectTemplate, List.cons_append, List.filterMap_cons_none rfl, List.filterMap_append, items,
    List.flatMap_eq_nil_iff.2 fun i _ => none i]
  rfl

theorem opened_query {q : Query} : (q.template s).opened = q.numbers := by
  unfold opened Query.numbers
  induction q with
  | table items path => simp [Query.template, Query.opened, opened_select, Part.opened?]
  | nested items source a tail ih =>
    simp [Query.template, Query.opened, opened_select, Alias.template, Part.opened?,
      List.filterMap_cons, ih]
  | join items left la type right ra keys ihl ihr =>
    simp [Query.template, Query.opened, opened_select, Alias.template, Part.opened?,
      List.filterMap_cons, ihl, ihr]

theorem mentioned_select {items : List Item} :
    (selectTemplate s items).filterMap Part.mentioned? =
      (items.flatMap Item.aliases).map Alias.number := by
  have each : ∀ i : Item,
      (i.template s).filterMap Part.mentioned? = i.aliases.map Alias.number := by
    rintro (_ | _ | _ | _) <;> rfl
  have items : (List.intercalate [.fixed ", "] (items.map (Item.template s))).filterMap
      Part.mentioned? = items.flatMap fun i => (i.template s).filterMap Part.mentioned? :=
    filterMap_intercalate rfl
  simp only [each] at items
  rw [selectTemplate, List.cons_append, List.filterMap_cons_none rfl, List.filterMap_append, items,
    List.map_flatMap]
  exact List.append_nil _

theorem mentioned_query {q : Query} :
    (q.template s).mentioned = q.mentioned.map Alias.number := by
  unfold mentioned
  induction q with
  | table items path => simp [Query.template, Query.mentioned, mentioned_select, Part.mentioned?]
  | nested items source a tail ih =>
    simp [Query.template, Query.mentioned, mentioned_select, Alias.template, Part.mentioned?,
      List.filterMap_cons, ih]
  | join items left la type right ra keys ihl ihr =>
    simp [Query.template, Query.mentioned, mentioned_select, Alias.template, Part.mentioned?,
      List.filterMap_cons, ihl, ihr]

end Template

/-! ## Calls of one compiler -/

section
variable (d : Dialect)

structure Request where
  pipeline : Pipeline
  wanted : Option NameSet

namespace Request

/-- The text of a request with slots for its alias numbers. -/
def template (r : Request) : Except SqlError Template :=
  ((compile d r.pipeline r.wanted).run 0).1.map (Query.template d.settings)

def slots (r : Request) : Nat := ((compile d r.pipeline r.wanted).run 0).2

def block (r : Request) (first : Nat) : List Nat := List.range' first (r.slots d)

end Request

/-- The texts of requests to one compiler, one after the other. -/
def session : Nat → List Request → List (Except SqlError String)
  | _, [] => []
  | counter, r :: rest =>
    let (text, next) := compileText d r.pipeline r.wanted counter
    text :: session next rest

def starts : Nat → List Request → List Nat
  | _, [] => []
  | counter, r :: rest => counter :: starts (counter + r.slots d) rest

end

section
variable {base : Base}

theorem compileText_eq (r : Request) (counter : Nat) :
    compileText (.ofBase base) r.pipeline r.wanted counter =
      ((r.template (.ofBase base)).map (Template.fill counter),
        counter + r.slots (.ofBase base)) := by
  have moved := compile_moved (d := .ofBase base) (k := counter) rfl r.pipeline r.wanted 0
  rw [Nat.add_zero] at moved
  rw [compileText, moved, Request.template, Request.slots]
  cases ((compile (.ofBase base) r.pipeline r.wanted).run 0).1 with
  | error e => rfl
  | ok q => simp [Except.map, Template.fill_query]

theorem template_slots {r : Request} {t : Template} (made : r.template (.ofBase base) = .ok t) :
    t.opened.Perm (List.range (r.slots (.ofBase base))) ∧ t.mentioned ⊆ t.opened := by
  obtain ⟨steps, next, allots⟩ :=
    compile_allots (d := .ofBase base) rfl r.pipeline r.wanted 0
  rw [Request.template] at made
  rcases run : ((compile (.ofBase base) r.pipeline r.wanted).run 0).1 with e | q
  · rw [run] at made
    cases made
  · rw [run] at made
    cases made
    obtain ⟨each, closed⟩ := allots q run
    rw [Template.opened_query, Template.mentioned_query]
    refine ⟨?_, List.map_subset _ closed⟩
    rwa [List.nil_append, ← List.range_eq_range', ← Nat.zero_add steps, ← next] at each

theorem session_eq (rs : List Request) (counter : Nat) :
    session (.ofBase base) counter rs =
      List.zipWith (fun r first => (r.template (.ofBase base)).map (Template.fill first)) rs
        (starts (.ofBase base) counter rs) := by
  induction rs generalizing counter with
  | nil => rfl
  | cons r rs ih =>
    rw [session, starts, List.zipWith_cons_cons, compileText_eq r counter]
    exact congrArg _ (ih _)

/-- The blocks of requests after one another have no gap between them. -/
theorem blocks_eq (d : Dialect) (rs : List Request) (counter : Nat) :
    ∃ n, (List.zipWith (Request.block d) rs (starts d counter rs)).flatten =
      List.range' counter n := by
  induction rs generalizing counter with
  | nil => exact ⟨0, rfl⟩
  | cons r rs ih =>
    obtain ⟨n, rest⟩ := ih (counter + r.slots d)
    refine ⟨r.slots d + n, ?_⟩
    rw [starts, List.zipWith_cons_cons, List.flatten_cons, rest, Request.block]
    simp

end

/-- The text of a request is its template filled from the counter on, or the error that it has
from every counter; the template opens each of its slots once, and the counter moves by as
many. The requests to one compiler take consecutive blocks of numbers, so none is given twice. -/
theorem aliases_numbered (base : Base) :
    (∀ (r : Request) (counter : Nat), compileText (.ofBase base) r.pipeline r.wanted counter =
      ((r.template (.ofBase base)).map (Template.fill counter),
        counter + r.slots (.ofBase base))) ∧
    (∀ (r : Request) (t : Template), r.template (.ofBase base) = .ok t →
      t.opened.Perm (List.range (r.slots (.ofBase base))) ∧ t.mentioned ⊆ t.opened) ∧
    ∀ (rs : List Request) (counter : Nat),
      session (.ofBase base) counter rs =
        List.zipWith (fun r first => (r.template (.ofBase base)).map (Template.fill first)) rs
          (starts (.ofBase base) counter rs) ∧
      (List.zipWith (Request.block (.ofBase base)) rs
        (starts (.ofBase base) counter rs)).flatten.Nodup := by
  refine ⟨compileText_eq, fun _ _ => template_slots, fun rs counter => ⟨session_eq rs counter, ?_⟩⟩
  obtain ⟨n, blocks⟩ := blocks_eq (.ofBase base) rs counter
  rw [blocks]
  exact List.nodup_range'

theorem aliases_numbered_join :
    let table name := Pipeline.table ⟨name, .empty, ["k", "x"]⟩
    let r : Request := ⟨.join (table "d") (table "e") ["k"] .inner, some (.ofList ["x"])⟩
    ∃ t, r.template (.ofBase .generic) = .ok t ∧ t.opened.Perm (List.range 2) ∧
      t.mentioned ⊆ t.opened ∧
      t.fill 5 = "SELECT COALESCE(\"LQ_5\".\"x\", \"RQ_6\".\"x\") AS \"x\" FROM ( " ++
        "SELECT \"k\", \"x\" FROM \"d\" ) \"LQ_5\" INNER JOIN ( " ++
        "SELECT \"k\", \"x\" FROM \"e\" ) \"RQ_6\" USING ( \"k\" )" := by
  intro table r
  obtain ⟨t, made⟩ : ∃ t, r.template (.ofBase .generic) = .ok t := ⟨_, rfl⟩
  obtain ⟨opened, mentioned⟩ := (aliases_numbered .generic).2.1 r t made
  have text := (aliases_numbered .generic).1 r 5
  rw [made] at text
  refine ⟨t, made, opened, mentioned, ?_⟩
  have fresh : (compileText (.ofBase .generic) r.pipeline r.wanted 5).1 = .ok _ := rfl
  rw [text] at fresh
  exact Except.ok.inj fresh

end TableFlow.Sql
