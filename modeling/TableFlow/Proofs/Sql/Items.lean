import TableFlow.Sql.Compile
import TableFlow.Proofs.Formula.Columns
import TableFlow.Proofs.Lookup
import TableFlow.Proofs.Outcome

/-!
# Parts of a query

One lemma for each function that makes a part of a query in a dialect: which names the
part holds, or why it is refused. Names are read off the pieces of the text (`namesIn`),
so they are those that stand in it between quotes.
-/

namespace TableFlow

namespace Sql

/-! ## Names in a text -/

def Piece.name? : Piece → Option String
  | name s => some s
  | _ => none

/-- The names that stand between quotes in a text. -/
def namesIn (ps : List Piece) : List String := ps.filterMap Piece.name?

@[simp] theorem namesIn_nil : namesIn [] = [] := rfl

@[simp] theorem namesIn_plain {s : String} {ps : List Piece} :
    namesIn (.plain s :: ps) = namesIn ps := rfl

@[simp] theorem namesIn_name {s : String} {ps : List Piece} :
    namesIn (.name s :: ps) = s :: namesIn ps := rfl

@[simp] theorem namesIn_append {ps qs : List Piece} :
    namesIn (ps ++ qs) = namesIn ps ++ namesIn qs := by
  simp [namesIn]

@[simp] theorem namesIn_separated {separator : String} {parts : List (List Piece)} :
    namesIn (separated separator parts) = parts.flatMap namesIn := by
  induction parts with
  | nil => rfl
  | cons part rest ih =>
    cases rest with
    | nil => simp [separated]
    | cons next rest => simp_all [separated]

@[simp] theorem namesIn_namePieces {names : List String} : namesIn (namePieces names) = names := by
  simp [namePieces, List.flatMap_map]

@[simp] theorem OrderTerm.namesIn_pieces {t : OrderTerm} : namesIn t.pieces = [t.column] := by
  cases t with
  | mk column falling nullsLast => cases falling <;> cases nullsLast <;> rfl

@[simp] theorem namesIn_orderPieces {terms : List OrderTerm} :
    namesIn (orderPieces terms) = terms.map (·.column) := by
  rw [orderPieces, namesIn_plain, namesIn_separated, List.flatMap_map, List.map_eq_flatMap]
  simp only [OrderTerm.namesIn_pieces]

theorem Over.namesIn_pieces {w : Over} :
    namesIn w.pieces = w.partitionBy ++ w.orderBy.map (·.column) := by
  rcases w with ⟨_ | ⟨c, cs⟩, _ | ⟨o, os⟩, _ | _⟩ <;> simp [Over.pieces]

/-! ## Refusals -/

variable {d : Dialect}

/-- What a dialect refuses: a name with the quote in it, a qualifier that it does not
write, and a function in a form of its own with a wrong number of arguments. -/
def Refused (d : Dialect) : SqlError → Prop
  | .quoteInName name quote => quote = d.settings.nameQuote ∧ quote ∈ name.toList
  | .unsupportedQualifiers dialect keys =>
    dialect = d.base.name ∧ keys ≠ [] ∧ ∀ k ∈ keys, k ∉ d.settings.qualifiers
  | .argumentCount function expected actual =>
    (d.rename function = "is_null" ∧ expected = 1 ∨ d.rename function = "if_else" ∧ expected = 3) ∧
      actual ≠ expected
  | _ => False

theorem checkName_ends {name : String} :
    Ends (d.checkName name) (fun result => result = name) (Refused d) := by
  unfold Dialect.checkName
  split
  · rename_i h
    exact ⟨rfl, by simpa using h⟩
  · rfl

theorem checkName_eq (quote : d.settings.nameQuote = '"') {name : String} :
    d.checkName name =
      if '"' ∈ name.toList then .error (.quoteInName name '"') else .ok name := by
  simp only [Dialect.checkName, quote, List.contains_iff_mem]

theorem checkNames_ends {names : List String} :
    Ends (names.mapM d.checkName) (fun result => result = names) (Refused d) := by
  have same : Ends (names.mapM d.checkName) (fun r => r.map id = names) (Refused d) :=
    .mapM_map fun _ _ => checkName_ends
  simpa using same

theorem tablePath_ends {t : TableRef} :
    Ends (d.tablePath t) (fun _ => True) (Refused d) := by
  have supported := @List.mem_filter String (!d.settings.qualifiers.contains ·)
  unfold Dialect.tablePath
  split
  · exact checkNames_ends.mono (fun _ _ => trivial) fun _ => id
  · rename_i keys unsupported
    refine ⟨rfl, unsupported, fun k hk => ?_⟩
    simpa using (supported.1 hk).2

/-! ## Order and windows -/

theorem orderTerm_ends {reverse : List String} {column : String} :
    Ends (orderTerm d reverse column) (fun t => t.column = column) (Refused d) :=
  checkName_ends.bind fun _ h => h

theorem orderTerms_ends {reverse columns : List String} :
    Ends (columns.mapM (orderTerm d reverse)) (fun ts => ts.map (·.column) = columns)
      (Refused d) :=
  .mapM_map fun _ _ => orderTerm_ends

theorem overWindow_ends {w : Window} {aggregate : Bool} :
    Ends (overWindow d w aggregate) (fun o => namesIn o.pieces = w.partitionBy ++ w.orderBy)
      (Refused d) := by
  refine checkNames_ends.bind fun partition hp => ?_
  refine orderTerms_ends.bind fun order ho => ?_
  show namesIn (Over.pieces _) = _
  rw [Over.namesIn_pieces, hp, ho]

/-! ## Formulas -/

theorem builtinForms_get? {name : String} :
    builtinForms.get? name =
      if name = "is_null" then some .isNull
      else if name = "if_else" then some .choice
      else none := by
  simp only [builtinForms, NameMap.ofList, NameMap.get?_addAll]
  by_cases isNull : name = "is_null"
  · subst isNull
    rfl
  · by_cases choice : name = "if_else"
    · subst choice
      rfl
    · simp [isNull, choice, Ne.symm isNull, Ne.symm choice]

theorem namesIn_call {function : String} {args : List Term} :
    namesIn (Term.call function args).pieces =
      (Term.piecesOfAll args).flatMap namesIn := by
  simp [Term.pieces]

theorem terms_ends {es : List Formula}
    (h : ∀ e ∈ es, ∀ grouped,
      Ends (d.term grouped e) (fun t => namesIn t.pieces = e.columnList) (Refused d)) :
    Ends (d.terms es)
      (fun ts => (Term.piecesOfAll ts).flatMap namesIn = Formula.columnLists es) (Refused d) := by
  induction es with
  | nil => exact rfl
  | cons e es ih =>
    refine (h e (List.mem_cons_self ..) true).bind fun t ht => ?_
    refine (ih fun a ha => h a (List.mem_cons_of_mem _ ha)).bind fun ts hts => ?_
    show ((Term.piecesOfAll (t :: ts)).flatMap namesIn) = _
    rw [Term.piecesOfAll, List.flatMap_cons, ht, hts, Formula.columnLists]

theorem ofValue_names {v : Value} : namesIn (Term.ofValue v).pieces = [] := by
  unfold Term.ofValue
  split <;> try rfl
  split
  · rfl
  · split <;> rfl

/-- An expression holds the columns of its formula, in their order. -/
theorem term_ends (plain : d.forms = builtinForms) (e : Formula) : ∀ grouped,
    Ends (d.term grouped e) (fun t => namesIn t.pieces = e.columnList) (Refused d) := by
  induction e using Formula.induction with
  | constant v => exact fun _ => ofValue_names
  | column name =>
    intro grouped
    rw [Dialect.term.eq_def]
    refine checkName_ends.bind fun result h => ?_
    rw [h]
    rfl
  | apply function args form ih =>
    intro grouped
    rw [Dialect.term.eq_def]
    simp only [plain, builtinForms_get?]
    split_ifs with isNull choice
    · rcases args with _ | ⟨a, _ | ⟨b, rest⟩⟩
      · exact ⟨.inl ⟨isNull, rfl⟩, by simp⟩
      · refine (ih a (by simp) true).bind fun t ht => ?_
        simpa [Ends, Term.pieces, Formula.columnList, Formula.columnLists] using ht
      · exact ⟨.inl ⟨isNull, rfl⟩, by simp⟩
    · rcases args with _ | ⟨c, _ | ⟨a, _ | ⟨b, _ | ⟨e, rest⟩⟩⟩⟩
      · exact ⟨.inr ⟨choice, rfl⟩, by simp⟩
      · exact ⟨.inr ⟨choice, rfl⟩, by simp⟩
      · exact ⟨.inr ⟨choice, rfl⟩, by simp⟩
      · refine (ih c (by simp) false).bind fun tc hc => ?_
        refine (ih a (by simp) false).bind fun ta ha => ?_
        refine (ih b (by simp) false).bind fun tb hb => ?_
        simp [Ends, Term.pieces, Formula.columnList, Formula.columnLists, hc, ha, hb]
      · exact ⟨.inr ⟨choice, rfl⟩, by simp⟩
    · dsimp only
      split
      · rename_i a b
        refine (ih a (by simp) true).bind fun ta ha => ?_
        refine (ih b (by simp) true).bind fun tb hb => ?_
        cases grouped <;>
          simp [Ends, Term.pieces, Formula.columnList, Formula.columnLists, ha, hb]
      · refine (terms_ends ih).bind fun ts hts => ?_
        show namesIn (Term.call _ ts).pieces = _
        rw [namesIn_call, hts, Formula.columnList]

/-! ## Select lists -/

/-- The column that an item gives out. -/
def Item.label : Item → String
  | column name => name
  | renamed _ new => new
  | computed _ _ name => name
  | coalesced _ _ name => name

/-- The columns that stand before the `AS` of an item, or as the item itself. -/
def Item.reads : Item → List String
  | column name => [name]
  | renamed old _ => [old]
  | computed term placement _ => namesIn (term.pieces ++ (placement.map Over.pieces).getD [])
  | coalesced _ _ name => [name]

/-- The columns that stand behind the nested query. -/
def Tail.reads (tail : Tail) : List String := namesIn tail.pieces

theorem Tail.reads_order {terms : List OrderTerm} {limit : Option Nat} :
    (Tail.order terms limit).reads = terms.map (·.column) := by
  cases terms <;> cases limit <;> simp [Tail.reads, Tail.pieces]

theorem columnItem_ends {name : String} :
    Ends (columnItem d name) (fun item => item = .column name) (Refused d) :=
  checkName_ends.bind fun _ h => congrArg Item.column h

/-- A computed item reads its formula's columns and those of its window. -/
theorem computedItem_ends (plain : d.forms = builtinForms) {e : Formula}
    {placement : Option Over} {name : String} :
    Ends (do
        let term ← d.term false e
        .ok (Item.computed term placement (← d.checkName name)))
      (fun item => item.label = name ∧
        item.reads = e.columnList ++ namesIn ((placement.map Over.pieces).getD []))
      (Refused d) := by
  refine (term_ends plain e false).bind fun term ht => ?_
  refine checkName_ends.bind fun result hr => ⟨hr, ?_⟩
  rw [Item.reads, namesIn_append, ht]

theorem extensionItem_ends (plain : d.forms = builtinForms) {kept : List (String × Formula)}
    {w : Window} {name : String} :
    Ends (extensionItem d kept w name)
      (fun item => item.label = name ∧ ∀ c ∈ item.reads,
        c = name ∧ name ∉ kept.map (·.1) ∨ c ∈ w.partitionBy ++ w.orderBy ∨
          ∃ a ∈ kept, c ∈ a.2.columns)
      (Refused d) := by
  unfold extensionItem
  split
  · rename_i unassigned
    refine columnItem_ends.mono ?_ fun _ => id
    rintro item rfl
    refine ⟨rfl, fun c hc => .inl ⟨?_, find?_key_none.1 unassigned⟩⟩
    simpa [Item.reads] using hc
  · rename_i other e assigned
    have operand : ∀ c ∈ e.columnList, ∃ a ∈ kept, c ∈ a.2.columns := fun c hc =>
      ⟨(other, e), (find?_key_some assigned).1, Formula.mem_columns.2 hc⟩
    dsimp only
    split
    · have placed : Ends (some <$> overWindow d w e.isAggregate)
          (fun placement => namesIn ((placement.map Over.pieces).getD []) =
            w.partitionBy ++ w.orderBy) (Refused d) := .map overWindow_ends
      refine placed.bind fun placement hp => ?_
      refine (computedItem_ends plain).mono ?_ fun _ => id
      rintro item ⟨label, reads⟩
      refine ⟨label, fun c hc => .inr ?_⟩
      rw [reads, List.mem_append] at hc
      exact hc.symm.imp (fun hc => hp ▸ hc) (operand c)
    · refine (computedItem_ends plain).mono ?_ fun _ => id
      rintro item ⟨label, reads⟩
      refine ⟨label, fun c hc => .inr (.inr (operand c ?_))⟩
      simpa [reads] using hc

theorem groupingItem_ends (plain : d.forms = builtinForms)
    {assignments : List (String × Formula)} {name : String} :
    Ends (groupingItem d assignments name)
      (fun item => item.label = name ∧ ∀ c ∈ item.reads,
        c = name ∧ name ∉ assignments.map (·.1) ∨
          ∃ a ∈ assignments, a.1 = name ∧ c ∈ a.2.columns)
      (Refused d) := by
  unfold groupingItem
  split
  · rename_i unassigned
    refine columnItem_ends.mono ?_ fun _ => id
    rintro item rfl
    refine ⟨rfl, fun c hc => .inl ⟨?_, find?_key_none.1 unassigned⟩⟩
    simpa [Item.reads] using hc
  · rename_i other e assigned
    obtain ⟨mem, same⟩ := find?_key_some assigned
    refine (computedItem_ends plain).mono ?_ fun _ => id
    rintro item ⟨label, reads⟩
    refine ⟨label, fun c hc => .inr ⟨(other, e), mem, same, Formula.mem_columns.2 ?_⟩⟩
    simpa [reads] using hc

theorem oldName_of_not_renamed {pairs : List (String × String)} {name : String}
    (h : isRenamed pairs name = false) : oldName pairs name = name := by
  unfold oldName
  cases found : pairs.find? (·.1 = name) with
  | none => rfl
  | some pair =>
    obtain ⟨mem, rfl⟩ := find?_key_some found
    have same : pair.1 = pair.2 := by simpa using List.any_eq_false.1 h pair mem
    exact same.symm

theorem relabeledItem_ends {pairs : List (String × String)} {name : String} :
    Ends (relabeledItem d pairs name)
      (fun item => item.label = name ∧ item.reads = [oldName pairs name]) (Refused d) := by
  unfold relabeledItem
  split
  · refine checkName_ends.bind fun old ho => ?_
    exact checkName_ends.bind fun new hn => ⟨hn, congrArg ([·]) ho⟩
  · rename_i same
    refine columnItem_ends.mono ?_ fun _ => id
    rintro item rfl
    exact ⟨rfl, by rw [Item.reads, oldName_of_not_renamed (by simpa using same)]⟩

theorem joinItem_ends {fromLeft fromRight : NameSet} {left right : Alias} {name : String} :
    Ends (joinItem d fromLeft fromRight left right name)
      (fun item =>
        item = if name ∈ fromLeft ∧ name ∈ fromRight then .coalesced left right name
          else .column name)
      (Refused d) := by
  refine checkName_ends.bind ?_
  rintro result rfl
  rfl

end Sql

end TableFlow
