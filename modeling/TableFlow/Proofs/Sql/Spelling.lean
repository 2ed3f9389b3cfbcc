import TableFlow.Sql.Term
import TableFlow.Proofs.Formula.Scanning
import TableFlow.Proofs.Sql.Reader

/-!
# The tokens of SQL text

`Term.tokens` are the tokens that an SQL expression is meant to be written in. The text of a
readable term (`Term.Readable`) is cut into just these (`scan_pieces`): no two tokens run into
each other, and nothing inside quotes ends them.
-/

namespace TableFlow.Sql

open Formula (Break)

/-! ## Words and numbers -/

/-- A word that may stand without quotes. -/
def IsWord (s : String) : Prop :=
  ∃ c rest, s.toList = c :: rest ∧ startsWord c = true ∧ ∀ d ∈ rest, continuesWord d = true

instance : DecidablePred IsWord := fun s =>
  match h : s.toList with
  | [] => .isFalse (by simp [IsWord, h])
  | c :: rest => decidable_of_iff ((startsWord c && rest.all continuesWord) = true)
      (by simp [IsWord, h])

/-- A number without a sign: digits, perhaps with a point or an exponent. -/
def Unsigned (l : List Char) : Prop := Number.Digits l ∨ Number.DecimalText l

theorem Unsigned.head {l : List Char} (h : Unsigned l) :
    ∃ c rest, l = c :: rest ∧ c.isDigit = true := by
  obtain digits | decimal := h
  · obtain ⟨c, rest, rfl⟩ := List.exists_cons_of_ne_nil digits.some
    exact ⟨c, rest, rfl, digits.each c (List.mem_cons_self ..)⟩
  · exact decimal.head

/-! ## The tokens of a term -/

def operators : List String :=
  ["OR", "AND", "=", "<>", "<", "<=", ">", ">=", "+", "-", "*", "/", "%"]

def operatorToken (op : String) : Token :=
  if op = "OR" ∨ op = "AND" then .word op else .symbol op

/-- What a literal is, by its head: a number behind a sign, a number, or a word. -/
def ofLiteral {α : Type} (negative number word : String → α) (s : String) : α :=
  match s.toList with
  | '-' :: rest => negative (String.ofList rest)
  | c :: _ => if c.isDigit then number s else word s
  | [] => word s

section
variable {α : Type} {negative number word : String → α} {s : String}

theorem ofLiteral_unsigned (h : Unsigned s.toList) :
    ofLiteral negative number word s = number s := by
  obtain ⟨c, rest, text, digit⟩ := h.head
  have plain : c ≠ '-' := by
    rintro rfl
    cases digit
  unfold ofLiteral
  rw [text]
  split
  · rename_i same
    cases same
    exact absurd rfl plain
  · rename_i same
    cases same
    rw [if_pos digit]
  · rename_i none
    cases none

theorem ofLiteral_negative {l : List Char} (h : s.toList = '-' :: l) :
    ofLiteral negative number word s = negative (String.ofList l) := by
  unfold ofLiteral
  rw [h]
  rfl

end

def plainTokens : String → List Token :=
  ofLiteral (fun digits => [.symbol "-", .number digits]) (fun s => [.number s])
    (fun s => [.word s])

namespace Term

mutual

def tokens : Term → List Token
  | plain s => plainTokens s
  | name s => [.name s]
  | text s => [.text s]
  | double s =>
    [.word "CAST", .symbol "(", .text s, .word "AS", .word "DOUBLE", .word "PRECISION",
      .symbol ")"]
  | operation grouped op a b =>
    if grouped then .symbol "(" :: (tokens a ++ operatorToken op :: (tokens b ++ [.symbol ")"]))
    else tokens a ++ operatorToken op :: tokens b
  | call function args => .word (folded function) :: .symbol "(" :: argumentTokens args
  | isNull a => .symbol "(" :: (tokens a ++ [.word "IS", .word "NULL", .symbol ")"])
  | choice c a b =>
    .word "CASE" :: .word "WHEN" :: (tokens c ++ .word "THEN" :: (tokens a
      ++ .word "ELSE" :: (tokens b ++ [.word "END"])))

def argumentTokens : List Term → List Token
  | [] => [.symbol ")"]
  | a :: rest => tokens a ++ moreTokens rest

def moreTokens : List Term → List Token
  | [] => [.symbol ")"]
  | a :: rest => .symbol "," :: (tokens a ++ moreTokens rest)

end

theorem moreTokens_cons {a : Term} {rest : List Term} :
    moreTokens (a :: rest) = .symbol "," :: argumentTokens (a :: rest) := by
  rw [moreTokens, argumentTokens]

/-- An operation in an operand stands in parentheses. -/
def Grouped : Term → Prop
  | operation grouped _ _ _ => grouped = true
  | _ => True

def isNot : Term → Bool
  | call function _ => function = "NOT"
  | _ => false

/-- A term whose text can be read: names hold no quote, literals are numbers or words of their
own, and functions are words of no other use, but for `NOT`. -/
inductive Readable : Term → Prop where
  | literal {s : String} : s ∈ literals → Readable (.plain s)
  | number {s : String} {l : List Char} : Unsigned l → s.toList = l ∨ s.toList = '-' :: l →
      Readable (.plain s)
  | name {s : String} : '"' ∉ s.toList → Readable (.name s)
  | text {s : String} : Readable (.text s)
  | double {s : String} : Readable (.double s)
  | operation {grouped : Bool} {op : String} {a b : Term} : op ∈ operators →
      Readable a → a.Grouped → Readable b → b.Grouped → Readable (.operation grouped op a b)
  | call {function : String} {args : List Term} : IsWord function →
      function = "NOT" ∨ folded function ∉ reserved → (∀ a ∈ args, Readable a) →
      (∀ a ∈ args, a.Grouped) → Readable (.call function args)
  | isNull {a : Term} : Readable a → a.Grouped → Readable (.isNull a)
  | choice {c a b : Term} : Readable c → Readable a → Readable b → Readable (.choice c a b)

end Term

/-! ## Characters -/

theorem startsWord_digit {c : Char} (h : c.isDigit = true) : startsWord c = false := by
  have bounds := Formula.isDigit_bounds h
  have all : ∀ n < 58, 48 ≤ n → startsWord (Char.ofNat n) = false := by decide
  have := all c.toNat (by omega) bounds.1
  rwa [Char.ofNat_toNat] at this

/-- What starts a word starts nothing else. -/
theorem startsWord_apart {c : Char} (h : startsWord c = true) :
    c ≠ '"' ∧ c ≠ '\'' ∧ c.isDigit = false ∧ c.isWhitespace = false := by
  refine ⟨?_, ?_, ?_, ?_⟩
  · rintro rfl
    cases h
  · rintro rfl
    cases h
  · rw [Bool.eq_false_iff]
    intro digit
    rw [startsWord_digit digit] at h
    cases h
  · rw [Bool.eq_false_iff]
    intro blank
    simp only [Char.isWhitespace, Bool.or_eq_true, decide_eq_true_eq] at blank
    rcases blank with ((rfl | rfl) | rfl) | rfl <;> cases h

theorem isDigit_apart {c : Char} (h : c.isDigit = true) :
    c ≠ '"' ∧ c ≠ '\'' ∧ c.isWhitespace = false := by
  refine ⟨?_, ?_, ?_⟩
  · rintro rfl
    cases h
  · rintro rfl
    cases h
  · rw [Bool.eq_false_iff]
    intro blank
    simp only [Char.isWhitespace, Bool.or_eq_true, decide_eq_true_eq] at blank
    rcases blank with ((rfl | rfl) | rfl) | rfl <;> cases h

theorem break_continuesWord {tail : List Char} (h : Break tail) :
    ∀ c ∈ tail.head?, continuesWord c = false := by
  intro c hc
  rcases h c hc with rfl | rfl | rfl | rfl <;> decide

/-! ## Texts put together -/

/-- A text is cut into tokens in front of what follows it. Each token has a character of its
own. -/
structure Cut (text : List Char) (tokens : List Token) (tail : List Char) : Prop where
  enough : tokens.length ≤ text.length
  scans : ∀ steps, scanFrom (steps + tokens.length) (text ++ tail) =
    (scanFrom steps tail).map (tokens ++ ·)

namespace Cut

variable {text a b tail : List Char} {token : Token} {tokens s t : List Token}

theorem append (ha : Cut a s (b ++ tail)) (hb : Cut b t tail) : Cut (a ++ b) (s ++ t) tail := by
  refine ⟨?_, fun steps => ?_⟩
  · have := ha.enough
    have := hb.enough
    simp only [List.length_append]
    omega
  · have count : steps + (s ++ t).length = steps + t.length + s.length := by
      rw [List.length_append]
      omega
    rw [count, List.append_assoc, ha.scans, hb.scans, Option.map_map]
    congr 1
    funext rest
    exact (List.append_assoc ..).symm

/-- A text that is one token. -/
theorem one {c : Char} (visible : c.isWhitespace = false)
    (next : nextToken? (c :: (text ++ tail)) = some (token, tail)) :
    Cut (c :: text) [token] tail := by
  refine ⟨by simp, fun steps => ?_⟩
  rw [List.length_singleton, scanFrom, List.cons_append,
    List.dropWhile_cons_of_neg (by simp [visible])]
  simp only [next, Option.bind_eq_bind, Option.bind_some]
  cases scanFrom steps tail <;> rfl

/-- Spaces before a token are dropped. -/
theorem space (h : Cut text tokens tail) (some : tokens ≠ []) : Cut (' ' :: text) tokens tail := by
  refine ⟨Nat.le_succ_of_le h.enough, fun steps => ?_⟩
  obtain ⟨n, count⟩ : ∃ n, steps + tokens.length = n + 1 := by
    obtain ⟨_, _, rfl⟩ := List.exists_cons_of_ne_nil some
    exact ⟨_, rfl⟩
  rw [← h.scans, count, scanFrom, scanFrom, List.cons_append,
    List.dropWhile_cons_of_pos (by decide)]

end Cut

/-- A text that is cut as a whole scans to its tokens. -/
theorem scan_of_cut {source : String} {tokens : List Token} (h : Cut source.toList tokens []) :
    scan source = some tokens := by
  have scans := h.scans (source.toList.length - tokens.length)
  rw [Nat.sub_add_cancel h.enough, List.append_nil] at scans
  have ended : scanFrom (source.toList.length - tokens.length) [] = some [] := by
    cases source.toList.length - tokens.length <;> rfl
  rw [ended] at scans
  simpa [scan] using scans

/-! ## Single tokens -/

section
variable {tail : List Char}

theorem cut_word {s : String} (word : IsWord s) (stop : Break tail) :
    Cut s.toList [.word (folded s)] tail := by
  obtain ⟨c, rest, text, first, others⟩ := word
  obtain ⟨name, quote, digit, visible⟩ := startsWord_apart first
  obtain ⟨take, drop⟩ := Formula.takeWhile_break others (break_continuesWord stop)
  rw [text]
  refine .one visible ?_
  rw [nextToken?]
  simp only [name, quote, digit, first, take, drop, if_true, if_false, Bool.false_eq_true]
  rw [← text, String.ofList_toList]

/-- A word in upper case. -/
theorem cut_keyword {s : String} (word : IsWord s) (upper : folded s = s) (stop : Break tail) :
    Cut s.toList [.word s] tail := by
  have cut := cut_word word stop
  rwa [upper] at cut

/-- A word, and what stands behind a space. -/
theorem Cut.keyword {s : String} {text : List Char} {tokens : List Token}
    (h : Cut text tokens tail) (some : tokens ≠ []) (word : IsWord s) (upper : folded s = s) :
    Cut (s.toList ++ ' ' :: text) (.word s :: tokens) tail :=
  (cut_keyword word upper (.cons (.inl rfl))).append (h.space some)

theorem cut_quoted {c : Char} (text : List Char) (apart : ∀ d ∈ tail.head?, d ≠ c)
    (kind : c = '"' ∨ c = '\'') :
    Cut (c :: ((text.flatMap fun d => if d = c then [c, c] else [d]) ++ [c]))
      [if c = '"' then .name (String.ofList text) else .text (String.ofList text)] tail := by
  have closed : Formula.closeQuote c
      ((text.flatMap fun d => if d = c then [c, c] else [d]) ++ c :: tail) = some (text, tail) :=
    Formula.closeQuote_doubled apart
  have visible : c.isWhitespace = false := by rcases kind with rfl | rfl <;> decide
  refine .one visible ?_
  rw [List.append_assoc, List.singleton_append, nextToken?]
  rcases kind with rfl | rfl <;> simp [closed]

theorem break_ne {c : Char} (stop : Break tail) (kind : c = '"' ∨ c = '\'') :
    ∀ d ∈ tail.head?, d ≠ c := by
  intro d hd
  rcases kind with rfl | rfl <;> rcases stop d hd with rfl | rfl | rfl | rfl <;> decide

/-- A name without a quote needs no doubling. -/
theorem cut_name {s : String} (plain : '"' ∉ s.toList) (stop : Break tail) :
    Cut ('"' :: (s.toList ++ ['"'])) [.name s] tail := by
  have same : ∀ {l : List Char}, '"' ∉ l →
      (l.flatMap fun d => if d = '"' then ['"', '"'] else [d]) = l := by
    intro l none
    induction l with
    | nil => rfl
    | cons d l ih =>
      rw [List.mem_cons, not_or] at none
      rw [List.flatMap_cons, if_neg (Ne.symm none.1), ih none.2, List.singleton_append]
  have cut := cut_quoted s.toList (break_ne stop (.inl rfl)) (.inl rfl)
  rwa [same plain, if_pos rfl, String.ofList_toList] at cut

theorem cut_text {s : String} (stop : Break tail) :
    Cut ('\'' :: ((Formula.doubled '\'' s).toList ++ ['\''])) [.text s] tail := by
  have cut := cut_quoted s.toList (break_ne stop (.inr rfl)) (.inr rfl)
  rw [if_neg (by decide), String.ofList_toList] at cut
  rwa [Formula.doubled, String.toList_ofList]

theorem numberRun_unsigned {l : List Char} (h : Unsigned l) (stop : Break tail) :
    ∃ fractional, Formula.numberRun false (l ++ tail) = (l, fractional, tail) := by
  have ends := stop.numberEnds
  obtain digits | decimal := h
  · exact ⟨false, Formula.numberRun_numberText (.digits digits) ends⟩
  · exact ⟨true, Formula.numberRun_numberText (Formula.numberText_of_decimal decimal) ends⟩

theorem cut_number {l : List Char} (h : Unsigned l) (stop : Break tail) :
    Cut l [.number (String.ofList l)] tail := by
  obtain ⟨fractional, run⟩ := numberRun_unsigned h stop
  obtain ⟨c, rest, rfl, digit⟩ := h.head
  obtain ⟨name, quote, visible⟩ := isDigit_apart digit
  refine .one visible ?_
  rw [List.cons_append] at run
  rw [nextToken?]
  simp only [name, quote, digit, run, if_true, if_false]

/-- A sign before a number is no comment. -/
theorem cut_minus {l : List Char} (h : Unsigned l) (stop : Break tail) :
    Cut ('-' :: l) [.symbol "-", .number (String.ofList l)] tail := by
  have number := cut_number h stop
  obtain ⟨c, rest, rfl, digit⟩ := h.head
  have apart : c ≠ '-' := by
    rintro rfl
    cases digit
  have sign : Cut ['-'] [.symbol "-"] (c :: rest ++ tail) := by
    refine .one (by decide) ?_
    have symbol : symbolAt? ('-' :: (c :: rest ++ tail)) = some ("-", c :: rest ++ tail) := by
      simp [symbolAt?, apart]
    have first : nextToken? ('-' :: (c :: rest ++ tail)) =
        (symbolAt? ('-' :: (c :: rest ++ tail))).map (Prod.map .symbol id) := rfl
    rw [List.nil_append, first, symbol]
    rfl
  exact sign.append number

theorem cut_open : Cut ['('] [.symbol "("] tail := .one (by decide) rfl

theorem cut_close : Cut [')'] [.symbol ")"] tail := .one (by decide) rfl

theorem cut_comma : Cut [','] [.symbol ","] tail := .one (by decide) rfl

theorem cut_operator {op : String} (known : op ∈ operators) :
    Cut op.toList [operatorToken op] (' ' :: tail) := by
  simp only [operators, List.mem_cons, List.not_mem_nil, or_false] at known
  rcases known with rfl | rfl | rfl | rfl | rfl | rfl | rfl | rfl | rfl | rfl | rfl | rfl | rfl
  · exact cut_keyword (by decide) rfl (.cons (.inl rfl))
  · exact cut_keyword (by decide) rfl (.cons (.inl rfl))
  all_goals exact .one (by decide) rfl

/-! ## Terms -/

def Piece.chars : Piece → List Char
  | plain s => s.toList
  | name s => '"' :: (s.toList ++ ['"'])
  | text s => '\'' :: ((Formula.doubled '\'' s).toList ++ ['\''])

theorem render_ofBase {base : Base} {ps : List Piece} :
    (render (Dialect.ofBase base).settings ps).toList = ps.flatMap Piece.chars := by
  have each : ∀ p : Piece, (p.render (Dialect.ofBase base).settings).toList = p.chars := by
    intro p
    cases p <;> simp [Piece.render, Piece.chars, Dialect.quoteName, Dialect.quoteText,
      Dialect.ofBase, Settings.default]
  rw [render, String.toList_join, List.flatMap_map]
  simp only [each]

namespace Term

theorem plainTokens_literal {s : String} (h : s ∈ literals) : plainTokens s = [.word s] := by
  simp only [literals, List.mem_cons, List.not_mem_nil, or_false] at h
  rcases h with rfl | rfl | rfl <;> rfl

theorem plainTokens_unsigned {s : String} (h : Unsigned s.toList) : plainTokens s = [.number s] :=
  ofLiteral_unsigned h

theorem plainTokens_negative {s : String} {l : List Char} (h : s.toList = '-' :: l) :
    plainTokens s = [.symbol "-", .number (String.ofList l)] :=
  ofLiteral_negative h

theorem plainTokens_ne_nil {s : String} (h : Readable (.plain s)) : plainTokens s ≠ [] := by
  cases h with
  | literal known => simp [plainTokens_literal known]
  | number unsigned text =>
    obtain plain | negative := text
    · simp [plainTokens_unsigned (plain ▸ unsigned)]
    · simp [plainTokens_negative negative]

theorem tokens_ne_nil {t : Term} (h : t.Readable) : t.tokens ≠ [] := by
  induction h with
  | literal known => exact plainTokens_ne_nil (.literal known)
  | number unsigned text => exact plainTokens_ne_nil (.number unsigned text)
  | @operation grouped =>
    cases grouped <;> simp [tokens]
  | _ => simp [tokens]

theorem cut_plain {s : String} (h : Readable (.plain s)) (stop : Break tail) :
    Cut s.toList (plainTokens s) tail := by
  cases h with
  | literal known =>
    rw [plainTokens_literal known]
    simp only [literals, List.mem_cons, List.not_mem_nil, or_false] at known
    rcases known with rfl | rfl | rfl <;> exact cut_keyword (by decide) rfl stop
  | number unsigned text =>
    obtain plain | negative := text
    · rw [plainTokens_unsigned (plain ▸ unsigned), plain]
      have cut := cut_number unsigned stop
      rwa [← plain, String.ofList_toList, plain] at cut
    · rw [plainTokens_negative negative, negative]
      exact cut_minus unsigned stop

theorem argumentTokens_ne_nil {args : List Term} : argumentTokens args ≠ [] := by
  cases args with
  | nil => simp [argumentTokens]
  | cons a rest => cases rest <;> simp [argumentTokens, moreTokens]

theorem cut_arguments {first : Term} {rest : List Term}
    (each : ∀ a ∈ first :: rest, ∀ tail, Break tail →
      Cut (a.pieces.flatMap Piece.chars) a.tokens tail) :
    Cut ((separated ", " (piecesOfAll (first :: rest))).flatMap Piece.chars ++ [')'])
      (argumentTokens (first :: rest)) tail := by
  have read := each first (List.mem_cons_self ..)
  induction rest generalizing first with
  | nil =>
    rw [piecesOfAll, piecesOfAll, separated, argumentTokens, moreTokens]
    exact (read _ (.cons (by simp))).append cut_close
  | cons next rest ih =>
    have others := ih (fun a ha => each a (List.mem_cons_of_mem _ ha)) (each next (by simp))
    have more := (read _ (.cons (by simp))).append
      (cut_comma.append (others.space argumentTokens_ne_nil))
    have mark : (Piece.plain ", ").chars = [',', ' '] := rfl
    rw [argumentTokens, moreTokens_cons, piecesOfAll, piecesOfAll, separated, List.flatMap_append,
      List.flatMap_cons, mark]
    · rw [piecesOfAll] at more
      simpa using more
    · simp

/-- The text of a readable term is cut into its tokens. -/
theorem cut_pieces {t : Term} (h : t.Readable) (stop : Break tail) :
    Cut (t.pieces.flatMap Piece.chars) t.tokens tail := by
  have space : ∀ text, Break (' ' :: text) := fun _ => .cons (.inl rfl)
  have close : ∀ text, Break (')' :: text) := fun _ => .cons (.inr (.inl rfl))
  induction h generalizing tail with
  | literal known =>
    rw [tokens]
    simpa [pieces, Piece.chars] using cut_plain (.literal known) stop
  | number unsigned text =>
    rw [tokens]
    simpa [pieces, Piece.chars] using cut_plain (.number unsigned text) stop
  | name plain => simpa [pieces, Piece.chars, tokens] using cut_name plain stop
  | text => simpa [pieces, Piece.chars, tokens] using cut_text stop
  | @double s =>
    have precision : Cut ("PRECISION".toList ++ [')']) [.word "PRECISION", .symbol ")"] tail :=
      (cut_keyword (by decide) rfl (close _)).append cut_close
    have converted := (precision.keyword (s := "DOUBLE") (by simp) (by decide) rfl).keyword
      (s := "AS") (by simp) (by decide) rfl
    have inside := (cut_text (s := s) (space _)).append (converted.space (by simp))
    have whole := (cut_keyword (s := "CAST") (by decide) rfl
      (.cons (by simp))).append (cut_open.append inside)
    simpa [pieces, Piece.chars, tokens] using whole
  | @operation grouped op a b known readl _ readr _ left right =>
    cases grouped with
    | false =>
      have second := (cut_operator known).append ((right stop).space (tokens_ne_nil readr))
      have whole := (left (space _)).append (second.space (by simp))
      simpa [pieces, Piece.chars, tokens] using whole
    | true =>
      have last : Cut (b.pieces.flatMap Piece.chars ++ [')']) (b.tokens ++ [.symbol ")"]) tail :=
        (right (close _)).append cut_close
      have second := (cut_operator known).append (last.space (by simp))
      have whole := cut_open.append ((left (space _)).append (second.space (by simp)))
      simpa [pieces, Piece.chars, tokens] using whole
  | @call function args word _ _ _ each =>
    have inside : Cut ((separated ", " (piecesOfAll args)).flatMap Piece.chars ++ [')'])
        (argumentTokens args) tail := by
      cases args with
      | nil => exact cut_close
      | cons first rest => exact cut_arguments fun a mem tail stop => each a mem stop
    have whole := (cut_word word (.cons (by simp))).append (cut_open.append inside)
    simpa [pieces, Piece.chars, tokens] using whole
  | @isNull a _ _ operand =>
    have null : Cut ("NULL".toList ++ [')']) [.word "NULL", .symbol ")"] tail :=
      (cut_keyword (by decide) rfl (close _)).append cut_close
    have test := null.keyword (s := "IS") (by simp) (by decide) rfl
    have whole := cut_open.append ((operand (space _)).append (test.space (by simp)))
    simpa [pieces, Piece.chars, tokens] using whole
  | @choice c a b readc reada readb condition whenTrue whenFalse =>
    have last : Cut (' ' :: "END".toList) [.word "END"] tail :=
      (cut_keyword (by decide) rfl stop).space (by simp)
    have second := ((whenFalse (space _)).append last).keyword (s := "ELSE") (by simp)
      (by decide) rfl
    have first := ((whenTrue (space _)).append (second.space (by simp))).keyword (s := "THEN")
      (by simp) (by decide) rfl
    have test := ((condition (space _)).append (first.space (by simp))).keyword (s := "WHEN")
      (by simp) (by decide) rfl
    have whole := test.keyword (s := "CASE") (by simp) (by decide) rfl
    simpa [pieces, Piece.chars, tokens] using whole

/-- The text of a readable term scans to its tokens. -/
theorem scan_pieces {base : Base} {t : Term} (h : t.Readable) :
    scan (render (Dialect.ofBase base).settings t.pieces) = some t.tokens := by
  have cut := cut_pieces h Break.nil
  rw [← render_ofBase] at cut
  exact scan_of_cut cut

end Term

end

end TableFlow.Sql
