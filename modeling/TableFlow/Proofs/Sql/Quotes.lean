import TableFlow.Sql.Query
import TableFlow.Proofs.Sql.Spelling
import Mathlib.Data.List.Chain

/-!
# Quotes in SQL text

`lexemes?` cuts a text by SQL's rules of quoting alone: a name stands between double quotes, a
text between single ones, where a quote written twice is one of the content. Pieces are cut
where they were put together (`lexemes_render`) if names and plain pieces have no quotes of
their own and no two quoted pieces touch, and in a query none do (`Query.apart_pieces`).
-/

namespace TableFlow.Sql

/-! ## Cutting a text -/

/-- A part of a text, by its quotes. -/
inductive Lexeme where
  /-- A character outside quotes. -/
  | plain (c : Char)
  | name (s : String)
  | text (s : String)
  deriving DecidableEq, Repr

/-- What is left of a part without what stands between quotes. -/
def Lexeme.blank : Lexeme → Lexeme
  | plain c => plain c
  | name _ => name ""
  | text _ => text ""

def isQuote (c : Char) : Bool := c = '"' || c = '\''

theorem isQuote_eq_false {c : Char} : isQuote c = false ↔ c ≠ '"' ∧ c ≠ '\'' := by
  simp [isQuote]

def Lexeme.quoted (quote : Char) (content : List Char) : Lexeme :=
  if quote = '"' then name (String.ofList content) else text (String.ofList content)

inductive Mode where
  | outside
  /-- Behind a quote and some content. -/
  | inside (quote : Char) (content : List Char)
  /-- Behind a second quote, which ends the part unless another one follows. -/
  | behind (quote : Char) (content : List Char)

/-- The parts of a text, if it ends outside quotes. SQL reads a quote written twice in a name as
one of the name; `twice` says whether to do so. -/
def cutQuotes (twice : Bool) : Mode → List Char → Option (List Lexeme)
  | .outside, [] => some []
  | .outside, c :: rest =>
    if isQuote c then cutQuotes twice (.inside c []) rest
    else (cutQuotes twice .outside rest).map (.plain c :: ·)
  | .inside _ _, [] => none
  | .inside quote content, c :: rest =>
    if c = quote then cutQuotes twice (.behind quote content) rest
    else cutQuotes twice (.inside quote (content ++ [c])) rest
  | .behind quote content, [] => some [.quoted quote content]
  | .behind quote content, c :: rest =>
    if c = quote ∧ (twice ∨ quote ≠ '"') then
      cutQuotes twice (.inside quote (content ++ [quote])) rest
    else if isQuote c then
      (cutQuotes twice (.inside c []) rest).map (.quoted quote content :: ·)
    else (cutQuotes twice .outside rest).map fun more => .quoted quote content :: .plain c :: more

def lexemes? (twice : Bool) (text : String) : Option (List Lexeme) :=
  cutQuotes twice .outside text.toList

def Unquoted (s : String) : Prop := ∀ c ∈ s.toList, isQuote c = false

instance : DecidablePred Unquoted := fun s =>
  decidable_of_iff (s.toList.all (!isQuote ·) = true) (by simp [Unquoted])

/-- Text that can stand between two quoted parts: there is some, and it has no quotes. -/
def Fixed (s : String) : Prop := s ≠ "" ∧ Unquoted s

instance : DecidablePred Fixed := fun s =>
  inferInstanceAs (Decidable (s ≠ "" ∧ Unquoted s))

section
variable {twice : Bool} {quote : Char} {content l tail : List Char}

theorem cut_unquoted (plain : ∀ c ∈ l, isQuote c = false) :
    cutQuotes twice .outside (l ++ tail) =
      (cutQuotes twice .outside tail).map (l.map Lexeme.plain ++ ·) := by
  induction l with
  | nil => simp
  | cons c l ih =>
    rw [List.cons_append, cutQuotes, plain c (List.mem_cons_self ..),
      ih fun d mem => plain d (List.mem_cons_of_mem _ mem)]
    simp [Option.map_map, Function.comp_def]

/-- Behind a part that no quote of its kind follows, the text goes on outside. -/
theorem cut_behind (apart : ∀ c ∈ tail.head?, c ≠ quote) :
    cutQuotes twice (.behind quote content) tail =
      (cutQuotes twice .outside tail).map (.quoted quote content :: ·) := by
  cases tail with
  | nil => rfl
  | cons c tail =>
    have ne : c ≠ quote := apart c rfl
    rw [cutQuotes, cutQuotes, if_neg fun both => ne both.1]
    split <;> simp [Option.map_map, Function.comp_def]

theorem cut_inside (free : quote ∉ l) (apart : ∀ c ∈ tail.head?, c ≠ quote) :
    cutQuotes twice (.inside quote content) (l ++ quote :: tail) =
      (cutQuotes twice .outside tail).map (.quoted quote (content ++ l) :: ·) := by
  induction l generalizing content with
  | nil =>
    rw [List.nil_append, cutQuotes, if_pos rfl, cut_behind apart, List.append_nil]
  | cons c l ih =>
    have ne : c ≠ quote := fun same => free (same ▸ List.mem_cons_self ..)
    rw [List.cons_append, cutQuotes, if_neg ne, ih fun mem => free (List.mem_cons_of_mem _ mem),
      List.append_assoc, List.singleton_append]

/-- A name without a double quote, between double quotes. -/
theorem cut_quoted_name {s : String} (free : '"' ∉ s.toList) (apart : ∀ c ∈ tail.head?, c ≠ '"') :
    cutQuotes twice .outside ('"' :: (s.toList ++ '"' :: tail)) =
      (cutQuotes twice .outside tail).map (.name s :: ·) := by
  rw [cutQuotes, if_pos (by decide), cut_inside free apart]
  simp [Lexeme.quoted]

theorem cut_doubled (apart : ∀ c ∈ tail.head?, c ≠ '\'') :
    cutQuotes twice (.inside '\'' content)
      ((l.flatMap fun c => if c = '\'' then ['\'', '\''] else [c]) ++ '\'' :: tail) =
      (cutQuotes twice .outside tail).map (.text (String.ofList (content ++ l)) :: ·) := by
  induction l generalizing content with
  | nil =>
    rw [List.flatMap_nil, List.nil_append, cutQuotes, if_pos rfl, cut_behind apart,
      List.append_nil]
    rfl
  | cons c l ih =>
    rw [List.flatMap_cons, List.append_assoc]
    by_cases same : c = '\''
    · subst same
      rw [if_pos rfl, List.cons_append, List.cons_append, List.nil_append, cutQuotes, if_pos rfl,
        cutQuotes, if_pos ⟨rfl, .inr (by decide)⟩, ih, List.append_assoc, List.singleton_append]
    · rw [if_neg same, List.singleton_append, cutQuotes, if_neg same, ih, List.append_assoc,
        List.singleton_append]

/-- Any text, between single quotes with its own written twice. -/
theorem cut_quoted_text {s : String} (apart : ∀ c ∈ tail.head?, c ≠ '\'') :
    cutQuotes twice .outside ('\'' :: ((Formula.doubled '\'' s).toList ++ '\'' :: tail)) =
      (cutQuotes twice .outside tail).map (.text s :: ·) := by
  rw [cutQuotes, if_pos (by decide), Formula.doubled, String.toList_ofList, cut_doubled apart,
    List.nil_append, String.ofList_toList]

end

/-! ## Pieces -/

def Piece.isPlain : Piece → Bool
  | plain _ => true
  | _ => false

/-- A piece that keeps its quotes: plain text has none, and a name has no double quote. -/
def Piece.Sound : Piece → Prop
  | plain s => Fixed s
  | name s => '"' ∉ s.toList
  | text _ => True

/-- The parts that a piece is cut into. -/
def Piece.lexemes : Piece → List Lexeme
  | plain s => s.toList.map Lexeme.plain
  | name s => [.name s]
  | text s => [.text s]

/-- No two quoted pieces touch. -/
def Apart (ps : List Piece) : Prop := List.IsChain (fun p q => p.isPlain ∨ q.isPlain) ps

section
variable {base : Base} {twice : Bool} {ps qs : List Piece}

/-- What stands behind a quoted piece does not start with a quote. -/
theorem head_behind {p : Piece} (quoted : p.isPlain = false) (apart : Apart (p :: ps))
    (sound : ∀ q ∈ ps, q.Sound) : ∀ c ∈ (ps.flatMap Piece.chars).head?, isQuote c = false := by
  cases ps with
  | nil => simp
  | cons q ps =>
    have plain := (List.isChain_cons_cons.1 apart).1
    cases q with
    | plain s =>
      obtain ⟨some, free⟩ := sound _ (List.mem_cons_self ..)
      obtain ⟨c, rest, text⟩ : ∃ c rest, s.toList = c :: rest :=
        List.exists_cons_of_ne_nil (by simpa using some)
      rw [List.flatMap_cons, Piece.chars, text]
      rintro d ⟨⟩
      exact free c (text ▸ List.mem_cons_self ..)
    | name | text =>
      rw [quoted] at plain
      exact absurd plain (by simp [Piece.isPlain])

/-- Pieces are cut where they were put together. -/
theorem lexemes_render (apart : Apart ps) (sound : ∀ p ∈ ps, p.Sound) :
    lexemes? twice (render (Dialect.ofBase base).settings ps) =
      some (ps.flatMap Piece.lexemes) := by
  rw [lexemes?, render_ofBase]
  induction ps with
  | nil => rfl
  | cons p ps ih =>
    have rest := ih apart.tail fun q mem => sound q (List.mem_cons_of_mem _ mem)
    have behind := fun quoted => head_behind (p := p) quoted apart fun q mem =>
      sound q (List.mem_cons_of_mem _ mem)
    have here := sound p (List.mem_cons_self ..)
    rw [List.flatMap_cons, List.flatMap_cons]
    cases p with
    | plain s => rw [Piece.chars, cut_unquoted here.2, rest]; rfl
    | name s =>
      rw [Piece.chars, List.cons_append, List.append_assoc, List.singleton_append,
        cut_quoted_name here fun c mem => (isQuote_eq_false.1 (behind rfl c mem)).1, rest]
      rfl
    | text s =>
      rw [Piece.chars, List.cons_append, List.append_assoc, List.singleton_append,
        cut_quoted_text fun c mem => (isQuote_eq_false.1 (behind rfl c mem)).2, rest]
      rfl

/-! ## No quoted pieces touch -/

theorem apart_nil : Apart [] := .nil

theorem apart_one {p : Piece} : Apart [p] := .singleton p

theorem Apart.plain {s : String} (h : Apart ps) : Apart (.plain s :: ps) := by
  cases ps with
  | nil => exact apart_one
  | cons q ps => exact .cons_cons (.inl rfl) h

theorem Apart.append {s : String} (first : Apart ps) (second : Apart (.plain s :: qs)) :
    Apart (ps ++ .plain s :: qs) := by
  refine List.isChain_append.2 ⟨first, second, ?_⟩
  rintro p - _ ⟨⟩
  exact .inr rfl

theorem apart_separated {separator : String} {parts : List (List Piece)}
    (each : ∀ part ∈ parts, Apart part) : Apart (separated separator parts) := by
  induction parts with
  | nil => exact apart_nil
  | cons part parts ih =>
    have rest := ih fun q mem => each q (List.mem_cons_of_mem _ mem)
    cases parts with
    | nil => exact each part (List.mem_cons_self ..)
    | cons next parts => exact (each part (List.mem_cons_self ..)).append rest.plain

namespace Term

mutual

theorem apart_pieces : ∀ t : Term, Apart t.pieces
  | plain _ | name _ | text _ => apart_one
  | double _ => .plain (Apart.append apart_one apart_one)
  | operation grouped op a b => by
    have body := a.apart_pieces.append (b.apart_pieces.plain (s := " " ++ op ++ " "))
    rw [pieces]
    split
    · exact .plain (body.append apart_one)
    · exact body
  | call function args => by
    have inside : Apart (separated ", " (piecesOfAll args)) :=
      apart_separated (apart_piecesOfAll args)
    exact .plain (inside.append apart_one)
  | isNull a => .plain (a.apart_pieces.append apart_one)
  | choice c a b => by
    have whenTrue := c.apart_pieces.append (a.apart_pieces.plain (s := " THEN "))
    have whenFalse := whenTrue.append (b.apart_pieces.plain (s := " ELSE "))
    rw [pieces]
    simpa using (whenFalse.append apart_one).plain (s := "CASE WHEN ")

theorem apart_piecesOfAll : ∀ ts : List Term, ∀ ps ∈ piecesOfAll ts, Apart ps
  | [], _, mem => by cases mem
  | t :: rest, ps, mem => by
    rcases List.mem_cons.1 mem with rfl | mem
    · exact t.apart_pieces
    · exact apart_piecesOfAll rest ps mem

end

end Term

theorem apart_names {separator : String} {names : List String} :
    Apart (separated separator (names.map fun n => [.name n])) := by
  refine apart_separated fun part mem => ?_
  obtain ⟨n, -, rfl⟩ := List.mem_map.1 mem
  exact apart_one

theorem OrderTerm.apart_pieces {t : OrderTerm} : Apart t.pieces := by
  rcases t with ⟨column, _ | _, _ | _⟩
  · exact apart_one
  · exact apart_one.append apart_one
  · exact apart_one.append apart_one
  · exact apart_one.append apart_one.plain

theorem apart_order {terms : List OrderTerm} : Apart (orderPieces terms) := by
  refine Apart.plain (apart_separated fun part mem => ?_)
  obtain ⟨t, -, rfl⟩ := List.mem_map.1 mem
  exact t.apart_pieces

theorem Over.apart_pieces {w : Over} : Apart w.pieces := by
  refine Apart.plain (Apart.append (apart_separated fun part mem => ?_) apart_one)
  obtain mem | frame := List.mem_append.1 mem
  · obtain partition | order := List.mem_append.1 mem
    · split at partition
      · cases partition
      · obtain rfl := List.mem_singleton.1 partition
        exact .plain apart_names
    · split at order
      · cases order
      · obtain rfl := List.mem_singleton.1 order
        exact apart_order
  · split at frame
    · obtain rfl := List.mem_singleton.1 frame
      exact apart_one
    · cases frame

theorem Item.apart_pieces {i : Item} : Apart i.pieces := by
  cases i with
  | column name => exact apart_one
  | renamed old new => exact Apart.append apart_one apart_one.plain
  | computed term placement name =>
    have named : Apart [.plain " AS ", .name name] := apart_one.plain
    cases placement with
    | none =>
      rw [pieces, Option.map_none, Option.getD_none, List.append_nil]
      exact term.apart_pieces.append named
    | some w => exact Apart.append (term.apart_pieces.append w.apart_pieces) named
  | coalesced left right name =>
    simp [pieces, Apart, Piece.isPlain]

theorem apart_select {items : List Item} (rest : Apart ps) :
    Apart (selectPieces items ++ ps) := by
  have list : Apart (separated ", " (items.map Item.pieces)) := by
    refine apart_separated fun part mem => ?_
    obtain ⟨i, -, rfl⟩ := List.mem_map.1 mem
    exact i.apart_pieces
  simpa [selectPieces] using (list.append (rest.plain (s := " FROM "))).plain (s := "SELECT ")

theorem Tail.apart_behind {tail : Tail} {p : Piece} : Apart (p :: tail.pieces) := by
  cases tail with
  | nothing => exact apart_one
  | condition term => exact apart_one.append term.apart_pieces.plain
  | groups columns =>
    rw [pieces]
    split
    · exact apart_one
    · exact apart_one.append apart_names.plain
  | order terms limit =>
    have limited : ∀ {ps}, Apart ps →
        Apart (ps ++ (limit.map fun n => [Piece.plain (" LIMIT " ++ toString n)]).getD []) := by
      intro ps apart
      cases limit with
      | none => simpa using apart
      | some n => exact apart.append apart_one
    rw [pieces]
    split
    · exact limited apart_one
    · exact limited (apart_one.append apart_order.plain)

/-- In the text of a query no two quoted pieces touch. -/
theorem Query.apart_pieces (q : Query) : Apart q.pieces := by
  induction q with
  | table items path => exact apart_select apart_names
  | nested items source a tail ih =>
    have behind : Apart (.plain " ) " :: .name a.name :: tail.pieces) := tail.apart_behind.plain
    simpa [pieces] using apart_select (ih.append behind).plain
  | join items left la type right ra keys ihl ihr =>
    have columns : Apart (namePieces keys ++ [.plain " )"]) := apart_names.append apart_one
    have behind : Apart (.plain " ) " :: .name ra.name :: .plain " USING ( " ::
        (namePieces keys ++ [.plain " )"])) :=
      .plain (apart_one.append columns.plain)
    have second := (ihr.append behind).plain (s := " " ++ type.name ++ " JOIN ( ")
    have middle : Apart (.plain " ) " :: ([.name la.name] ++ _)) :=
      .plain (apart_one.append second)
    simpa [pieces] using apart_select (ihl.append middle).plain

end

end TableFlow.Sql
