import TableFlow.Proofs.Formula.Parsed
import TableFlow.Proofs.Sql.Alike

/-!
# Names and data between quotes

Compilation treats names and texts as wholes: a pipeline with other names and other texts
compiles to the same query with those in place of its own (`compile_follows`). All of them
stand between quotes and are read back there as they are, so none becomes SQL
(`data_stays_quoted`).
-/

namespace TableFlow.Sql

open Pipeline Replacement
open Compiling (lift run_lift run_bind)

variable {r : Replacement} {base : Base} {given : Alias → Prop} {p p' : Pipeline} {u u' : NameSet}

/-! ## Steps -/

section
variable {β γ : Type} {S : β → γ → Prop}

/-- A select list with what goes with it, and those of a replaced pipeline. -/
def AlikeParts (r : Replacement) (given : Alias → Prop) (S : β → γ → Prop)
    (x : List Item × β) (y : List Item × γ) : Prop :=
  Alike r given (selectPieces x.1) (selectPieces y.1) ∧ S x.2 y.2

theorem withItems_carries {item item' : String → Except SqlError Item} {names names' : List String}
    {rest : Except SqlError β} {rest' : Except SqlError γ}
    (columns : List.Forall₂ r.column names names')
    (each : ∀ a b, r.column a b → Carries (AlikeItems r given) (item a) (item' b))
    (behind : Carries S rest rest') :
    Carries (AlikeParts r given S) (withItems item names rest) (withItems item' names' rest') := by
  refine (Carries.mapM columns each).bind fun items items' list => ?_
  exact behind.bind fun _ _ same => .ok ⟨alike_select list, same⟩

end

theorem requested_replaced (unique : Relator.BiUnique r.column) (h : p.Replaced r p')
    (wanted : r.Sets u u') :
    List.Forall₂ r.column (p.columns.filter (· ∈ u)) (p'.columns.filter (· ∈ u')) :=
  forall₂_filter (fun _ _ related => decide_eq_decide.2 (wanted.mem_iff unique related))
    (h.columns unique)

theorem wantedColumns_carries (unique : Relator.BiUnique r.column) (h : p.Replaced r p')
    {wanted wanted' : Option NameSet} (asked : Option.Rel r.Sets wanted wanted') :
    Carries r.Sets (wantedColumns p wanted) (wantedColumns p' wanted') := by
  cases asked with
  | none =>
    have all : r.Sets p.columnSet p'.columnSet := (Covers.of_forall₂ (h.columns unique)).ofList
    have empty : p.columnSet.isEmpty = p'.columnSet.isEmpty := all.isEmpty
    simp only [wantedColumns, ← empty]
    split
    · exact .error
    · exact .ok all
  | @some u u' asked =>
    have unknown : r.Covers (u.names.filter (!p.hasColumn ·)) (u'.names.filter (!p'.hasColumn ·)) :=
      Covers.filter (fun _ _ related => congrArg _ (h.hasColumn unique related)) asked
    have none := unknown.isEmpty
    have empty : u.isEmpty = u'.isEmpty := asked.isEmpty
    simp only [wantedColumns, ← empty]
    generalize u.names.filter (!p.hasColumn ·) = l, u'.names.filter (!p'.hasColumn ·) = l' at none
    cases l with
    | cons => exact .error
    | nil =>
      cases l' with
      | cons => cases none
      | nil =>
        dsimp only
        split
        · exact .error
        · exact .ok asked

theorem stepItem_carries (fair : r.Fair) (unquoted : ∀ e ∈ p.allFormulas, e.Unquoted)
    (h : p.Replaced r p') (wanted : r.Sets u u') {a b : String} (related : r.column a b) :
    Carries (AlikeItems r given) (stepItem (.ofBase base) p u a)
      (stepItem (.ofBase base) p' u' b) := by
  cases h with
  | extension below assigned placed =>
    have kept := retained_replaced fair.unique wanted assigned
    refine extensionItem_carries fair kept (fun e mem => ?_) placed related
    obtain ⟨entry, inside, rfl⟩ := List.mem_map.1 mem
    exact unquoted _ (List.mem_append_right _ (List.mem_map_of_mem (List.mem_filter.1 inside).1))
  | grouping below assigned names =>
    exact groupingItem_carries fair assigned (fun e mem => unquoted e (List.mem_append_right _ mem))
      related
  | relabeling below names => exact relabeledItem_carries fair names related
  | _ => exact columnItem_carries fair related

theorem stepTail_carries (fair : r.Fair) (unquoted : ∀ e ∈ p.allFormulas, e.Unquoted)
    (h : p.Replaced r p') :
    Carries (fun t t' : Tail => Alike r given t.pieces t'.pieces) (stepTail (.ofBase base) p)
      (stepTail (.ofBase base) p') := by
  cases h with
  | @filter source source' condition condition' below h =>
    have plain : condition.Unquoted :=
      unquoted _ (List.mem_append_right _ (List.mem_singleton.2 rfl))
    refine Carries.bind (R := AlikeTerms r given) (term_carries fair plain h false)
      fun t t' same => .ok ?_
    exact Alike.plain (by decide) same
  | grouping below assigned names =>
    refine (checkNames_carries fair names).bind fun columns columns' shown => .ok ?_
    simp only [Tail.pieces, ← isEmpty_forall₂ shown]
    split
    · exact .nil
    · exact .plain (by decide) (alike_names shown)
  | @ordering source source' order order' below h =>
    refine (orderTerms_carries fair h.reverse h.orderBy).bind fun terms terms' same => .ok ?_
    simp only [Tail.pieces, ← isEmpty_forall₂ same, ← h.limit]
    refine Alike.append ?_ ?_
    · split
      · exact .nil
      · exact .plain (by decide) (alike_order same)
    · cases order.limit with
      | none => exact .nil
      | some n =>
        have digits : Unquoted (toString n) := fun c mem =>
          isQuote_digit ((Number.digits_toString n).each c mem)
        have mark : Unquoted " LIMIT " := by decide
        exact .plain ⟨by simp, mark.append digits⟩ .nil
  | _ => exact .ok .nil

def AlikePaths (r : Replacement) (given : Alias → Prop) (path path' : List String) : Prop :=
  Alike r given (separated "." (path.map fun n => [.name n]))
    (separated "." (path'.map fun n => [.name n]))

theorem tablePath_carries (fair : r.Fair) {t t' : TableRef} (h : t.Replaced r t') :
    Carries (AlikePaths r given)
      ((Dialect.ofBase base).tablePath t) ((Dialect.ofBase base).tablePath t') := by
  have names : t.qualifiers.names = t'.qualifiers.names :=
    (map_eq_map_of_forall₂ (h.qualifiers.imp fun _ _ same => same.1.symm)).symm
  have value : ∀ key, Option.Rel r.qualifier (t.qualifiers.get? key) (t'.qualifiers.get? key) := by
    intro key
    have found := rel_find (p := (·.1 = key)) (q := (·.1 = key))
      (fun _ _ same => by rw [same.1]) h.qualifiers
    unfold NameMap.get?
    generalize t.qualifiers.entries.find? (·.1 = key) = x,
      t'.qualifiers.entries.find? (·.1 = key) = y at found
    cases found with
    | none => exact .none
    | some same => exact .some same.2
  have values : ∀ keys : List String, List.Forall₂ r.qualifier
      (keys.filterMap t.qualifiers.get?) (keys.filterMap t'.qualifiers.get?) := by
    intro keys
    exact List.rel_filterMap (fun _ _ same => same ▸ value _) (List.forall₂_same.2 fun _ _ => rfl)
  unfold Dialect.tablePath
  rw [← names]
  split
  · have path := List.rel_append
      ((values (Dialect.ofBase base).settings.qualifiers).imp
        (S := fun a b => r.table a b ∨ r.qualifier a b) fun _ _ => .inr)
      (.cons (.inl h.name) .nil)
    refine (Carries.mapM path fun _ _ => checkName_carries fair fun _ _ => .inr).mono ?_
    intro _ _ shown
    refine .separated (by decide) (List.rel_map (fun _ _ name => ?_) shown)
    exact .cons (.name (.inr name.1) name.2.1 name.2.2) .nil
  · exact .error

theorem tableParts_carries (fair : r.Fair) {t t' : TableRef} (h : t.Replaced r t')
    (wanted : r.Sets u u') :
    Carries (AlikeParts r given (AlikePaths r given)) (tableParts (.ofBase base) t u)
      (tableParts (.ofBase base) t' u') :=
  withItems_carries (requested_replaced fair.unique (.table h) wanted)
    (fun _ _ => columnItem_carries fair) (tablePath_carries fair h)

theorem stepParts_carries (fair : r.Fair) (unquoted : ∀ e ∈ p.allFormulas, e.Unquoted)
    (h : p.Replaced r p') (wanted : r.Sets u u') :
    Carries (AlikeParts r given fun t t' => Alike r given t.pieces t'.pieces)
      (stepParts (.ofBase base) p u) (stepParts (.ofBase base) p' u') :=
  withItems_carries (requested_replaced fair.unique h wanted)
    (fun _ _ => stepItem_carries fair unquoted h wanted) (stepTail_carries fair unquoted h)

theorem joinParts_carries (fair : r.Fair) {left left' right right' : Pipeline}
    {keys keys' : List String} (type : JoinType) (h : left.Replaced r left')
    (h' : right.Replaced r right') (names : List.Forall₂ r.column keys keys')
    (wanted : r.Sets u u') {la ra : Alias} (opened : given la ∧ given ra) :
    Carries (AlikeParts r given (List.Forall₂ (Shown r.column)))
      (joinParts (.ofBase base) left right keys type u la ra)
      (joinParts (.ofBase base) left' right' keys' type u' la ra) := by
  have keyed : r.Sets (u.addAll keys) (u'.addAll keys') := wanted.addAll (.of_forall₂ names)
  have fromLeft := keyed.filter fun _ _ => h.hasColumn fair.unique
  have fromRight := keyed.filter fun _ _ => h'.hasColumn fair.unique
  have whole : (join left right keys type).Replaced r (join left' right' keys' type) :=
    .join h h' names
  exact withItems_carries (requested_replaced fair.unique whole wanted)
    (fun _ _ => joinItem_carries fair fromLeft fromRight opened) (checkNames_carries fair names)

/-! ## Compilations -/

namespace Compiling

variable {α β γ δ : Type} {R : α → β → Prop} {x : Compiling α} {y : Compiling β}

/-- From every counter, if one compilation has a result, so has the other, and they are related;
both go on to the same counter. -/
def Follows (R : α → β → Prop) (x : Compiling α) (y : Compiling β) : Prop :=
  ∀ counter a next, x.run counter = (.ok a, next) → ∃ b, y.run counter = (.ok b, next) ∧ R a b

namespace Follows

theorem pure {a : α} {b : β} (h : R a b) :
    Follows R (Pure.pure a : Compiling α) (Pure.pure b : Compiling β) := by
  rintro counter _ _ ⟨⟩
  exact ⟨b, rfl, h⟩

theorem refl {x : Compiling α} : Follows Eq x x := fun _ a _ run => ⟨a, run, rfl⟩

theorem lift {x : Except SqlError α} {y : Except SqlError β} (h : Carries R x y) :
    Follows R (lift x) (lift y) := by
  intro counter a next run
  rw [run_lift] at run
  cases run
  obtain ⟨b, there, related⟩ := h a rfl
  exact ⟨b, by rw [run_lift, there], related⟩

theorem bind {S : γ → δ → Prop} {f : α → Compiling γ} {g : β → Compiling δ}
    (first : Follows R x y) (rest : ∀ a b, R a b → Follows S (f a) (g b)) :
    Follows S (x >>= f) (y >>= g) := by
  intro counter c next run
  rw [run_bind] at run
  rcases here : x.run counter with ⟨_ | a, middle⟩
  · rw [here] at run
    cases run
  · rw [here] at run
    obtain ⟨b, there, related⟩ := first counter a middle here
    obtain ⟨d, run', related⟩ := rest a b related middle c next run
    exact ⟨d, by rw [run_bind, there]; exact run', related⟩

end Follows

end Compiling

open Compiling (Follows)

theorem tableQuery_follows (fair : r.Fair) {t t' : TableRef} (h : t.Replaced r t')
    (wanted : r.Sets u u') :
    Follows (AlikeQueries r) (tableQuery (.ofBase base) t u) (tableQuery (.ofBase base) t' u') := by
  refine Follows.bind (R := AlikeParts r (· ∈ []) (AlikePaths r (· ∈ [])))
    (.lift (tableParts_carries fair h wanted)) ?_
  rintro ⟨items, path⟩ ⟨items', path'⟩ ⟨list, names⟩
  exact .pure (list.append names)

theorem nestedQuery_follows (fair : r.Fair) (unquoted : ∀ e ∈ p.allFormulas, e.Unquoted)
    (h : p.Replaced r p') (wanted : r.Sets u u') {source source' : Compiling Query}
    (below : Follows (AlikeQueries r) source source') :
    Follows (AlikeQueries r) (nestedQuery (.ofBase base) p u source)
      (nestedQuery (.ofBase base) p' u' source') := by
  refine below.bind fun q q' inner => ?_
  refine Follows.refl.bind fun a _ same => ?_
  subst same
  refine Follows.bind (R := AlikeParts r (· ∈ q.opened ++ [a]) _)
    (.lift (stepParts_carries fair unquoted h wanted)) ?_
  rintro ⟨items, tail⟩ ⟨items', tail'⟩ ⟨list, behind⟩
  exact .pure (alike_nested list inner behind)

theorem joinQuery_follows (fair : r.Fair) {left left' right right' : Pipeline}
    {keys keys' : List String} {type : JoinType} (h : left.Replaced r left')
    (h' : right.Replaced r right') (names : List.Forall₂ r.column keys keys')
    (wanted : r.Sets u u') {fromLeft fromLeft' fromRight fromRight' : Compiling Query}
    (belowLeft : Follows (AlikeQueries r) fromLeft fromLeft')
    (belowRight : Follows (AlikeQueries r) fromRight fromRight') :
    Follows (AlikeQueries r)
      (joinQuery (.ofBase base) left right keys type u fromLeft fromRight)
      (joinQuery (.ofBase base) left' right' keys' type u' fromLeft' fromRight') := by
  refine belowLeft.bind fun q q' first => ?_
  refine belowRight.bind fun s s' second => ?_
  refine Follows.refl.bind fun la _ same => ?_
  subst same
  refine Follows.refl.bind fun ra _ same => ?_
  subst same
  refine Follows.bind (R := AlikeParts r (· ∈ q.opened ++ la :: s.opened ++ [ra]) _)
    (.lift (joinParts_carries fair type h h' names wanted (by simp))) ?_
  rintro ⟨items, columns⟩ ⟨items', columns'⟩ ⟨list, shown⟩
  exact .pure (alike_join list first second shown)

theorem checked_follows (fair : r.Fair) (h : p.Replaced r p') {wanted wanted' : Option NameSet}
    (asked : Option.Rel r.Sets wanted wanted')
    (step : ∀ u u', r.Sets u u' → Follows (AlikeQueries r) (stepQuery (.ofBase base) p u)
      (stepQuery (.ofBase base) p' u')) :
    Follows (AlikeQueries r) (compile (.ofBase base) p wanted)
      (compile (.ofBase base) p' wanted') := by
  rw [compile_eq, compile_eq]
  exact (Follows.lift (wantedColumns_carries fair.unique h asked)).bind step

/-- A step with one source that puts its query around that of the source. -/
theorem nested_follows (fair : r.Fair) (unquoted : ∀ e ∈ p.allFormulas, e.Unquoted)
    (h : p.Replaced r p') {source source' : Pipeline}
    (step : ∀ u, stepQuery (.ofBase base) p u =
      nestedQuery (.ofBase base) p u (compile (.ofBase base) source (p.demand u).head?))
    (step' : ∀ u, stepQuery (.ofBase base) p' u =
      nestedQuery (.ofBase base) p' u (compile (.ofBase base) source' (p'.demand u).head?))
    (below : ∀ {wanted wanted'}, Option.Rel r.Sets wanted wanted' →
      Follows (AlikeQueries r) (compile (.ofBase base) source wanted)
        (compile (.ofBase base) source' wanted'))
    {wanted wanted' : Option NameSet} (asked : Option.Rel r.Sets wanted wanted') :
    Follows (AlikeQueries r) (compile (.ofBase base) p wanted)
      (compile (.ofBase base) p' wanted') := by
  refine checked_follows fair h asked fun u u' asked => ?_
  rw [step, step']
  exact nestedQuery_follows fair unquoted h asked
    (below (rel_head? (h.demand fair.unique asked)))

/-- A replaced pipeline compiles where the pipeline does, to a query that is alike. -/
theorem compile_follows (fair : r.Fair) (unquoted : ∀ e ∈ p.allFormulas, e.Unquoted)
    (h : p.Replaced r p') {wanted wanted' : Option NameSet}
    (asked : Option.Rel r.Sets wanted wanted') :
    Follows (AlikeQueries r) (compile (.ofBase base) p wanted)
      (compile (.ofBase base) p' wanted') := by
  induction p generalizing p' wanted wanted' with
  | table t =>
    refine checked_follows fair h asked fun u u' asked => ?_
    cases h with
    | table h => exact tableQuery_follows fair h asked
  | extension source assignments window ih =>
    refine checked_follows fair h asked fun u u' asked => ?_
    have whole := h
    cases h with
    | extension below assigned placed =>
    have kept := retained_replaced fair.unique asked assigned
    have plain : ∀ e ∈ source.allFormulas, e.Unquoted :=
      fun e mem => unquoted e (List.mem_append_left _ mem)
    -- an extension of which nothing is kept is its source
    simp only [stepQuery, ← isEmpty_forall₂ kept]
    split
    · exact ih plain below (.some asked)
    · exact nestedQuery_follows fair unquoted whole asked
        (ih plain below (rel_head? (whole.demand fair.unique asked)))
  | filter source _ ih =>
    have plain : ∀ e ∈ source.allFormulas, e.Unquoted :=
      fun e mem => unquoted e (List.mem_append_left _ mem)
    have whole := h
    cases h with
    | filter below =>
    exact nested_follows fair unquoted whole (fun _ => rfl) (fun _ => rfl) (ih plain below) asked
  | selection source _ ih =>
    have whole := h
    cases h with
    | selection below =>
    exact nested_follows fair unquoted whole (fun _ => rfl) (fun _ => rfl) (ih unquoted below) asked
  | removal source _ ih =>
    have whole := h
    cases h with
    | removal below =>
    exact nested_follows fair unquoted whole (fun _ => rfl) (fun _ => rfl) (ih unquoted below) asked
  | grouping source _ _ ih =>
    have plain : ∀ e ∈ source.allFormulas, e.Unquoted :=
      fun e mem => unquoted e (List.mem_append_left _ mem)
    have whole := h
    cases h with
    | grouping below =>
    exact nested_follows fair unquoted whole (fun _ => rfl) (fun _ => rfl) (ih plain below) asked
  | ordering source _ ih =>
    have whole := h
    cases h with
    | ordering below =>
    exact nested_follows fair unquoted whole (fun _ => rfl) (fun _ => rfl) (ih unquoted below) asked
  | relabeling source _ ih =>
    have whole := h
    cases h with
    | relabeling below =>
    exact nested_follows fair unquoted whole (fun _ => rfl) (fun _ => rfl) (ih unquoted below) asked
  | join left right keys type ihl ihr =>
    refine checked_follows fair h asked fun u u' asked => ?_
    cases h with
    | join belowLeft belowRight names =>
    have keyed := asked.addAll (.of_forall₂ names)
    have inLeft : ∀ e ∈ left.allFormulas, e.Unquoted :=
      fun e mem => unquoted e (List.mem_append_left _ mem)
    have inRight : ∀ e ∈ right.allFormulas, e.Unquoted :=
      fun e mem => unquoted e (List.mem_append_right _ mem)
    exact joinQuery_follows fair belowLeft belowRight names asked
      (ihl inLeft belowLeft (.some (keyed.filter fun _ _ => belowLeft.hasColumn fair.unique)))
      (ihr inRight belowRight (.some (keyed.filter fun _ _ => belowRight.hasColumn fair.unique)))

/-! ## What stands between the quotes -/

theorem compileText_eq_ok {d : Dialect} {wanted : Option NameSet} {counter next : Nat}
    {text : String} :
    compileText d p wanted counter = (.ok text, next) ↔
      ∃ q, (compile d p wanted).run counter = (.ok q, next) ∧ text = q.text d.settings := by
  rw [compileText]
  rcases (compile d p wanted).run counter with ⟨e | q, n⟩
  · constructor
    · rintro ⟨⟩
    · rintro ⟨q, ⟨⟩, -⟩
  · constructor
    · rintro ⟨⟩
      exact ⟨q, rfl, rfl⟩
    · rintro ⟨q, ⟨⟩, rfl⟩
      rfl

section
variable {ps qs : List Piece}

theorem Alike.sound (h : Alike r given ps qs) : (∀ p ∈ ps, p.Sound) ∧ ∀ q ∈ qs, q.Sound := by
  constructor
  · intro p mem
    obtain ⟨q, -, same⟩ := exists_left h mem
    exact same.sound.1
  · intro q mem
    obtain ⟨p, -, same⟩ := exists_of_forall₂ h mem
    exact same.sound.2

theorem Alike.blank (h : Alike r given ps qs) :
    (qs.flatMap Piece.lexemes).map Lexeme.blank = (ps.flatMap Piece.lexemes).map Lexeme.blank := by
  induction h with
  | nil => rfl
  | cons first _ ih =>
    rw [List.flatMap_cons, List.flatMap_cons, List.map_append, List.map_append, first.blank, ih]

end

/-- A query is cut by its quotes where it was put together. -/
theorem lexemes_query {q q' : Query} (h : AlikeQueries r q q') (twice : Bool) :
    lexemes? twice (q.text (Dialect.ofBase base).settings) = some (q.pieces.flatMap Piece.lexemes) ∧
    lexemes? twice (q'.text (Dialect.ofBase base).settings) =
      some (q'.pieces.flatMap Piece.lexemes) :=
  have sound := Alike.sound h
  ⟨lexemes_render q.apart_pieces sound.1, lexemes_render q'.apart_pieces sound.2⟩

def own (p : Pipeline) : Replacement where
  column a b := a = b ∧ a ∈ p.columnNames
  table a b := a = b ∧ a ∈ p.allNames
  qualifier a b := a = b ∧ a ∈ p.allNames
  constant v w := v = w ∧ v ∈ p.constants

theorem own_fair : (own p).Fair where
  unique := ⟨fun _ _ _ first second => first.1.trans second.1.symm,
    fun _ _ _ first second => first.1.symm.trans second.1⟩
  quotable := by
    rintro a _ (⟨rfl, -⟩ | ⟨rfl, -⟩ | ⟨rfl, -⟩) free <;> exact free
  constant _ _ h := .inl h.1

theorem own_replaced : p.Replaced (own p) p := by
  refine replaced_self (fun n mem => ⟨rfl, List.mem_append_left _ mem⟩) (fun e inside => ?_)
    fun t mem => ?_
  · refine Formula.replaced_self (fun n mem => ⟨rfl, ?_⟩) fun v mem => ⟨rfl, ?_⟩
    · exact List.mem_append_right _ (List.mem_flatMap.2 ⟨e, inside, mem⟩)
    · exact List.mem_flatMap.2 ⟨e, inside, mem⟩
  · have named : ∀ n ∈ t.name :: t.qualifiers.entries.map (·.2), n ∈ p.allNames := fun n here =>
      List.mem_append_right _ (List.mem_flatMap.2 ⟨t, mem, here⟩)
    refine ⟨⟨rfl, named _ (List.mem_cons_self ..)⟩, List.forall₂_same.2 fun entry here => ?_,
      List.forall₂_same.2 fun n here => ?_⟩
    · exact ⟨rfl, rfl, named _ (List.mem_cons_of_mem _ (List.mem_map_of_mem here))⟩
    · exact ⟨rfl, List.mem_append_left _ (leaf_stepNames mem here)⟩

/-- A compiled request asks for columns of the pipeline. -/
theorem known_of_compile {wanted : Option NameSet} {counter next : Nat} {q : Query}
    (run : (compile (.ofBase base) p wanted).run counter = (.ok q, next)) :
    ∀ u ∈ wanted, ∀ a ∈ u, a ∈ p.columns := by
  rintro u ⟨⟩ a mem
  rw [compile_eq, run_bind, run_lift, wantedColumns] at run
  have checked : u.names.filter (!p.hasColumn ·) = [] := by
    cases unknown : u.names.filter (!p.hasColumn ·) with
    | nil => rfl
    | cons n l =>
      rw [unknown] at run
      cases run
  simpa [hasColumn] using List.filter_eq_nil_iff.1 checked a mem

/-- The pieces of a query are fixed text, names and texts of the pipeline, and aliases. -/
theorem own_queries (unquoted : ∀ e ∈ p.allFormulas, e.Unquoted) {wanted : Option NameSet}
    {counter next : Nat} {q : Query}
    (run : (compile (.ofBase base) p wanted).run counter = (.ok q, next)) :
    AlikeQueries (own p) q q := by
  have columns := own_replaced.columns (p := p) own_fair.unique
  have asked : Option.Rel (own p).Sets wanted wanted := by
    cases wanted with
    | none => exact .none
    | some u =>
      have each : List.Forall₂ (own p).column u.names u.names :=
        List.forall₂_same.2 fun a mem =>
          List.forall₂_same.1 columns a (known_of_compile run u rfl a mem)
      exact .some (Covers.of_forall₂ each)
  obtain ⟨q', run', same⟩ := compile_follows own_fair unquoted own_replaced asked counter q next run
  obtain rfl : q = q' := by
    rw [run] at run'
    cases run'
    rfl
  exact same

/-- The quoted parts of a query that is alike with itself by the names and texts of a pipeline. -/
theorem lexemes_own {q : Query} (h : AlikeQueries (own p) q q) :
    (∀ n, .name n ∈ q.pieces.flatMap Piece.lexemes →
      n ∈ p.allNames ∨ ∃ a ∈ q.opened, n = a.name) ∧
    ∀ s, .text s ∈ q.pieces.flatMap Piece.lexemes → ∃ v ∈ p.constants, v.quoted? = some s := by
  have each : ∀ x ∈ q.pieces, x.Replaced (own p) (· ∈ q.opened) x := List.forall₂_same.1 h
  constructor
  · intro n mem
    obtain ⟨x, inside, mem⟩ := List.mem_flatMap.1 mem
    cases each x inside with
    | plain => simp [Piece.lexemes] at mem
    | text => simp [Piece.lexemes] at mem
    | numbered opened =>
      cases List.mem_singleton.1 mem
      exact .inr ⟨_, opened, rfl⟩
    | name known =>
      cases List.mem_singleton.1 mem
      obtain column | table | qualifier := known
      · exact .inl (List.mem_append_left _ column.2)
      · exact .inl table.2
      · exact .inl qualifier.2
  · intro s mem
    obtain ⟨x, inside, mem⟩ := List.mem_flatMap.1 mem
    cases each x inside with
    | plain => simp [Piece.lexemes] at mem
    | numbered => simp [Piece.lexemes] at mem
    | name => simp [Piece.lexemes] at mem
    | text known first =>
      cases List.mem_singleton.1 mem
      exact ⟨_, known.2, first⟩

/-! ## Parsed formulas -/

theorem unquoted_word {name : String} (h : Formula.IsWord name) : Unquoted name := by
  have letter : ∀ {c}, startsWord c = true → isQuote c = false := fun first =>
    isQuote_eq_false.2 ⟨(startsWord_apart first).1, (startsWord_apart first).2.1⟩
  unfold Formula.IsWord at h
  intro c mem
  cases text : name.toList with
  | nil =>
    rw [text] at mem
    cases mem
  | cons first rest =>
    rw [text] at h mem
    obtain ⟨starts, goes⟩ := h
    obtain rfl | mem := List.mem_cons.1 mem
    · exact letter (startsWord_of_formula starts)
    · have next := continuesWord_of_formula (goes c mem)
      simp only [continuesWord, Bool.or_eq_true, beq_iff_eq] at next
      obtain (starts | digit) | rfl := next
      · exact letter starts
      · exact isQuote_digit digit
      · rfl

/-- No operator or function of a parsed formula has a quote in its name. -/
theorem unquoted_of_parse {source : String} {scope : Formula.Scope} {e : Formula}
    (h : Formula.parse source scope = .ok e) : e.Unquoted := by
  have spelled := Formula.parse_spelled h
  clear h
  induction spelled with
  | constant => exact .constant
  | column => exact .column
  | binary known _ _ left right =>
    have all : ∀ name ∈ Formula.operatorNames, Unquoted name := by decide
    refine .apply (all _ known) fun a mem => ?_
    obtain rfl | rfl := List.mem_pair.1 mem
    · exact left
    · exact right
  | call word _ each => exact .apply (unquoted_word word) each

/-! ## Texts -/

/-- A compiled text ends outside quotes, and between them are names of the pipeline and of its
aliases, and texts of its constants. With other names and texts in their place the pipeline
compiles too, and the text is the same but for what stands between the quotes. Formulas with a
quote in a function's name are left out, and no parsed formula is one. -/
theorem data_stays_quoted (base : Base) :
    (∀ (source : String) (scope : Formula.Scope) (e : Formula),
      Formula.parse source scope = .ok e → e.Unquoted) ∧
    ∀ (p : Pipeline) (wanted : Option NameSet) (counter next : Nat) (text : String),
      (∀ e ∈ p.allFormulas, e.Unquoted) →
      compileText (.ofBase base) p wanted counter = (.ok text, next) →
      ∃ q, (compile (.ofBase base) p wanted).run counter = (.ok q, next) ∧
        text = q.text (Dialect.ofBase base).settings ∧
        ∀ twice, ∃ lexemes, lexemes? twice text = some lexemes ∧
          (∀ n, .name n ∈ lexemes → n ∈ p.allNames ∨ ∃ a ∈ q.opened, n = a.name) ∧
          (∀ s, .text s ∈ lexemes → ∃ v ∈ p.constants, v.quoted? = some s) ∧
          ∀ (r : Replacement) (p' : Pipeline) (wanted' : Option NameSet),
            r.Fair → p.Replaced r p' → Option.Rel r.Sets wanted wanted' →
            ∃ text' lexemes', compileText (.ofBase base) p' wanted' counter = (.ok text', next) ∧
              lexemes? twice text' = some lexemes' ∧
              lexemes'.map Lexeme.blank = lexemes.map Lexeme.blank := by
  refine ⟨fun _ _ _ => unquoted_of_parse, fun p wanted counter next text unquoted made => ?_⟩
  obtain ⟨q, run, rfl⟩ := compileText_eq_ok.1 made
  have own := own_queries unquoted run
  refine ⟨q, run, rfl, fun twice => ⟨_, (lexemes_query own twice).1, (lexemes_own own).1,
    (lexemes_own own).2, fun r p' wanted' fair h asked => ?_⟩⟩
  obtain ⟨q', run', same⟩ := compile_follows fair unquoted h asked counter q next run
  exact ⟨_, _, compileText_eq_ok.2 ⟨q', run', rfl⟩, (lexemes_query same twice).2, same.blank⟩

theorem data_stays_quoted_filter :
    let p := Pipeline.filter (.table ⟨"d", .empty, ["x"]⟩)
      (.binary "==" (.column "x") (.constant (.text "it's")))
    let p' := Pipeline.filter (.table ⟨"e; --", .empty, ["y'"]⟩)
      (.binary "==" (.column "y'") (.constant (.text "' OR \"y\" --")))
    let text := "SELECT \"x\" FROM ( SELECT \"x\" FROM \"d\" ) \"SQ_0\" WHERE \"x\" = 'it''s'"
    let text' := "SELECT \"y'\" FROM ( SELECT \"y'\" FROM \"e; --\" ) \"SQ_0\" " ++
      "WHERE \"y'\" = ''' OR \"y\" --'"
    compileText (.ofBase .generic) p none 0 = (.ok text, 1) ∧
      compileText (.ofBase .generic) p' none 0 = (.ok text', 1) ∧
      ∃ lexemes lexemes', lexemes? true text = some lexemes ∧ lexemes? true text' = some lexemes' ∧
        lexemes'.map Lexeme.blank = lexemes.map Lexeme.blank := by
  intro p p' text text'
  have made : compileText (.ofBase .generic) p none 0 = (.ok text, 1) := rfl
  have made' : compileText (.ofBase .generic) p' none 0 = (.ok text', 1) := rfl
  have unquoted : ∀ e ∈ p.allFormulas, e.Unquoted := by
    intro e mem
    obtain rfl := List.mem_singleton.1 mem
    refine .apply (by decide) fun a mem => ?_
    obtain rfl | rfl := List.mem_pair.1 mem
    · exact .column
    · exact .constant
  let r : Replacement :=
    { column := fun a b => a = "x" ∧ b = "y'"
      table := fun a b => a = "d" ∧ b = "e; --"
      qualifier := fun _ _ => False
      constant := fun v w => v = .text "it's" ∧ w = .text "' OR \"y\" --" }
  have fair : r.Fair := by
    refine ⟨⟨?_, ?_⟩, ?_, ?_⟩
    · rintro _ _ _ ⟨rfl, rfl⟩ ⟨rfl, -⟩
      rfl
    · rintro _ _ _ ⟨rfl, rfl⟩ ⟨-, rfl⟩
      rfl
    · rintro _ _ (⟨rfl, rfl⟩ | ⟨rfl, rfl⟩ | ⟨⟨⟩⟩) - <;> decide
    · rintro _ _ ⟨rfl, rfl⟩
      exact .inr ⟨_, _, rfl, rfl⟩
  have table : TableRef.Replaced r ⟨"d", .empty, ["x"]⟩ ⟨"e; --", .empty, ["y'"]⟩ :=
    ⟨⟨rfl, rfl⟩, .nil, .cons ⟨rfl, rfl⟩ .nil⟩
  have replaced : p.Replaced r p' := by
    refine .filter (.table table) (.apply (.cons (.column ⟨rfl, rfl⟩) (.cons ?_ .nil)))
    exact .constant ⟨rfl, rfl⟩
  obtain ⟨q, run, -, cut⟩ := (data_stays_quoted .generic).2 p none 0 1 text unquoted made
  obtain ⟨lexemes, here, -, -, stays⟩ := cut true
  obtain ⟨other, lexemes', again, there, same⟩ := stays r p' none fair replaced .none
  obtain rfl : text' = other := by
    rw [made'] at again
    cases again
    rfl
  exact ⟨made, made', lexemes, lexemes', here, there, same⟩

end TableFlow.Sql
