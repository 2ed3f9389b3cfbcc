import TableFlow.Proofs.Formula.Rereading
import TableFlow.Proofs.Formula.Writing

/-!
# What the precedence of operators means

`Spells columns l e tokens` is the grammar of formulas as one writes them: parentheses stand
around an operand that binds looser than its place asks for, and may stand around any other. The
reader gives every text of this grammar the formula that it spells (`written_parses`).

A level reads its left operand first and then goes on with what it finds behind it. So a formula
that is the left operand of others is not read on its own: reading it comes to going on behind it
(`resume`), and this is what the induction shows (`Reaches`).
-/

namespace TableFlow.Formula

open Number

/-! ## The grammar -/

/-- The token of a constant without a sign. -/
inductive Denotes : Token → Value → Prop where
  | int {n : Nat} {i : Int64} : i.toInt = n → Denotes (.whole n) (.int i)
  | large {n : Nat} : 0x8000000000000000 ≤ n → Denotes (.whole n) (.float (ofDecimal n 0))
  | decimal {x} : Denotes (.decimal x) (.float x)
  | text {s} : Denotes (.text s) (.text s)
  | yes : Denotes (.word "true") (.bool true)
  | no : Denotes (.word "false") (.bool false)
  | null {word} : word = "null" ∨ word = "None" → Denotes (.word word) .null
  | nan {x : Float} : x.isNaN = true → Denotes (.word "nan") (.float x)
  | inf {x : Float} : x.isInf = true → x > 0.0 → Denotes (.word "inf") (.float x)

/-- The token of a constant behind its minus sign. -/
inductive DenotesNegative : Token → Value → Prop where
  | int {n : Nat} {i : Int64} : i.toInt = -n → DenotesNegative (.whole n) (.int i)
  | large {n : Nat} : 0x8000000000000000 < n →
      DenotesNegative (.whole n) (.float (-ofDecimal n 0))
  | decimal {x : Float} : DenotesNegative (.decimal x) (.float (-x))
  | inf {x : Float} : x.isInf = true → ¬x > 0.0 → DenotesNegative (.word "inf") (.float x)

/-- The tokens of a formula whose operators outside parentheses bind at least as tightly as a
level. Operators of one level group from the left. -/
inductive Spells (columns : List String) : Level → Formula → List Token → Prop where
  | looser {l e tokens} : Spells columns l.tighter e tokens → Spells columns l e tokens
  | paren {e tokens} : Spells columns .or e tokens →
      Spells columns .call e (.leftParen :: (tokens ++ [.rightParen]))
  | operator {l s token a b left right} : token.symbol? = some s → s.level? = some l →
      Spells columns l a left → Spells columns l.tighter b right →
      Spells columns l (binary s.text a b) (left ++ token :: right)
  | not {token e tokens} : token.symbol? = some .not → Spells columns .not e tokens →
      Spells columns .not (call "not" [e]) (token :: tokens)
  | constant {token v} : Denotes token v → Spells columns .call (constant v) [token]
  | negative {token v} : DenotesNegative token v →
      Spells columns .sign (constant v) [.op .minus, token]
  | column {name token} : name ∈ columns →
      token = .name name ∨ token = .word name ∧ name ∉ keywords →
      Spells columns .call (column name) [token]
  | call {name} {parts : List (List Token × Formula)} : name ≠ "not" →
      (∀ p ∈ parts, Spells columns .or p.2 p.1) →
      Spells columns .call (call name (parts.map (·.2)))
        (.word name :: .leftParen :: argumentList (parts.map (·.1)))
  | method {name a receiver} {parts : List (List Token × Formula)} : name ≠ "not" →
      Spells columns .call a receiver → (∀ p ∈ parts, Spells columns .or p.2 p.1) →
      Spells columns .call (call name (a :: parts.map (·.2)))
        (receiver ++ .dot :: .word name :: .leftParen :: argumentList (parts.map (·.1)))

variable {columns : List String} {scope : Scope} {l : Level} {e : Formula} {tokens : List Token}
  {token : Token} {v : Value} {ts rest : Tokens} {n i : Nat}

/-! ## First tokens -/

theorem Denotes.plain (h : Denotes token v) : token ≠ .rightParen ∧ token.symbol? = none := by
  cases h with
  | null word => rcases word with rfl | rfl <;> exact ⟨by simp, rfl⟩
  | _ => exact ⟨by simp, rfl⟩

/-- Only operators that bind looser than a level start with the operator `not`, and what can be
called starts with no sign. -/
theorem Spells.head (h : Spells columns l e tokens) : ∃ t more, tokens = t :: more ∧
    t ≠ .rightParen ∧ (l.height < 6 → t.symbol? ≠ some .not) ∧
      (l = .call → t.symbol? ≠ some .minus ∧ t.symbol? ≠ some .plus) := by
  induction h with
  | @looser l _ _ _ ih =>
    obtain ⟨t, more, same, paren, not, sign⟩ := ih
    refine ⟨t, more, same, paren, fun low => not ?_, ?_⟩
    · cases l <;> simp_all [Level.height, Level.tighter]
    · rintro rfl
      exact sign rfl
  | paren => exact ⟨_, _, rfl, by simp, by simp [Token.symbol?], by simp [Token.symbol?]⟩
  | operator _ level _ _ left =>
    obtain ⟨t, more, rfl, paren, not, -⟩ := left
    exact ⟨t, _, rfl, paren, not, fun same => absurd same (Symbol.level_ne level).2.2⟩
  | not symbol =>
    refine ⟨_, _, rfl, ?_, fun low => absurd low (by decide), fun same => by cases same⟩
    rintro rfl
    cases symbol
  | constant denotes =>
    obtain ⟨paren, none⟩ := denotes.plain
    exact ⟨_, _, rfl, paren, by simp [none], by simp [none]⟩
  | negative =>
    exact ⟨_, _, rfl, by simp, by simp [Token.symbol?], fun same => by cases same⟩
  | column _ word =>
    obtain rfl | ⟨rfl, free⟩ := word
    · exact ⟨_, _, rfl, by simp, by simp [Token.symbol?], by simp [Token.symbol?]⟩
    · refine ⟨_, _, rfl, by simp, fun _ symbol => ?_, fun _ => word_sign⟩
      obtain rfl := word_symbol.1 symbol
      exact free (by decide)
  | call name =>
    exact ⟨_, _, rfl, by simp, fun _ symbol => name (word_symbol.1 symbol), fun _ => word_sign⟩
  | method _ _ _ receiver =>
    obtain ⟨t, more, rfl, head⟩ := receiver
    exact ⟨t, _, rfl, head⟩

theorem Spells.length_pos (h : Spells columns l e tokens) : 0 < tokens.length := by
  obtain ⟨t, more, rfl, -⟩ := h.head
  exact Nat.succ_pos _

/-! ## Going on behind a formula -/

/-- Goes on at a level behind a formula that was read there. -/
def resume (scope : Scope) (steps : Nat) (l : Level) (e : Formula) (ts : Tokens) :
    Except Error (Formula × Tokens) :=
  match l with
  | .not | .sign => .ok (e, ts)
  | .call => readMethods scope steps e ts
  | l => readOperators scope steps l e ts

/-- A token behind a formula of a level with which the level may go on. -/
def Follows : Level → Token → Prop
  | .call, token => token ≠ .leftParen
  | .not, token => Stops .not token
  | .sign, token => Stops .sign token
  | l, token => Stops l.tighter token

theorem Stops.follows (h : Stops l token) : Follows l token := by
  cases l with
  | call => exact h.paren
  | not => exact h
  | sign => exact h
  | _ => exact h.mono (by decide)

/-- At the level of an operator between operands. -/
theorem follows_operator (h : l ≠ .not ∧ l ≠ .sign ∧ l ≠ .call) :
    Follows l token ↔ Stops l.tighter token := by
  obtain ⟨not, sign, call⟩ := h
  cases l <;> first | contradiction | exact Iff.rfl

theorem resume_operator (h : l ≠ .not ∧ l ≠ .sign ∧ l ≠ .call) :
    resume scope i l e ts = readOperators scope i l e ts := by
  obtain ⟨not, sign, call⟩ := h
  cases l <;> first | contradiction | rfl

theorem resume_stop (h : Stops l (peek ts)) : resume scope (i + 1) l e ts = .ok (e, ts) := by
  cases l with
  | call => exact readMethods_stop h.dot
  | not => rfl
  | sign => rfl
  | _ => exact readOperators_stop h

/-- Reading a formula's tokens at a level comes to going on behind them, with a step less for
each token at most. -/
def Reaches (scope : Scope) (l : Level) (e : Formula) (tokens : List Token) : Prop :=
  ∀ n ts rest, 12 * tokens.length + l.height ≤ n → Starts ts tokens rest →
    Follows l (peek rest) →
      ∃ i, n ≤ i + tokens.length ∧ readAt scope n l ts = resume scope i l e rest

/-- A formula behind which its level does not go on is read as it is. -/
theorem Reaches.reads (h : Reaches scope l e tokens) (starts : Starts ts tokens rest)
    (stop : Stops l (peek rest)) : Reads scope l (12 * tokens.length) ts (some e) rest := by
  intro n hn
  have positive := l.height_pos
  obtain ⟨i, le, read⟩ := h n ts rest hn starts stop.follows
  obtain ⟨i, rfl⟩ := steps_succ (show 0 < i by omega)
  rw [read]
  exact resume_stop stop

/-! ## Steps -/

/-- What may be called is read first, and then the calls behind it. -/
theorem ReadsPrimary.resumes {k : Nat} (h : ReadsPrimary scope k ts (some e) rest) (le : k < n) :
    ∃ i, n ≤ i + 1 ∧ readAt scope n .call ts = resume scope i .call e rest := by
  obtain ⟨n, rfl⟩ := steps_succ (show 0 < n by omega)
  refine ⟨n, Nat.le_refl _, ?_⟩
  have read : readPrimary scope n ts = .ok (e, rest) := h n (by omega)
  rw [readAt, read]
  rfl

theorem reaches_looser (inner : Spells columns l.tighter e tokens)
    (reaches : Reaches scope l.tighter e tokens) : Reaches scope l e tokens := by
  by_cases call : l = .call
  · subst call
    exact reaches
  intro n ts rest hn starts follows
  have some := inner.length_pos
  have height := Level.height_tighter call
  obtain ⟨t, more, rfl, -, not, sign⟩ := inner.head
  have head : peek ts = t := starts.1
  -- the operator `not` and signs stand in front of an operand, the other operators behind one
  by_cases before : l = .not ∨ l = .sign
  · have stop : Stops l (peek rest) := by
      obtain rfl | rfl := before
      · exact follows
      · exact follows
    have read : Reads scope l (12 * (t :: more).length) ts (.some e) rest := by
      refine (reaches.reads starts (stop.mono (by omega))).looser (by omega) call stop ?_ ?_
      · rintro rfl
        exact head ▸ not (by decide)
      · rintro rfl
        exact head ▸ sign rfl
    refine ⟨n, by omega, (read n hn).trans ?_⟩
    obtain rfl | rfl := before <;> rfl
  · rw [not_or] at before
    have between : l ≠ .not ∧ l ≠ .sign ∧ l ≠ .call := ⟨before.1, before.2, call⟩
    have stop : Stops l.tighter (peek rest) := (follows_operator between).1 follows
    obtain ⟨m, rfl⟩ := steps_succ (show 0 < n by omega)
    have read : readAt scope m l.tighter ts = .ok (e, rest) :=
      reaches.reads starts stop m (by omega)
    refine ⟨m, by omega, ?_⟩
    rw [readAt_operators between, read, resume_operator between]
    rfl

theorem reaches_operator {s : Symbol} {a b : Formula} {left right : List Token}
    (symbol : token.symbol? = some s) (level : s.level? = some l) (first : Reaches scope l a left)
    (second : Reaches scope l.tighter b right) :
    Reaches scope l (binary s.text a b) (left ++ token :: right) := by
  intro n ts rest hn starts follows
  have between := Symbol.level_ne level
  have height := Level.height_tighter between.2.2
  have positive := l.tighter.height_pos
  rw [List.length_append, List.length_cons] at hn ⊢
  obtain ⟨mid, before, rfl, after⟩ := starts_append.1 starts
  have tighter : Stops l.tighter (peek mid) := .operator symbol level (by omega)
  have stop : Stops l.tighter (peek rest) := (follows_operator between).1 follows
  obtain ⟨i, le, read⟩ := first n ts mid (by omega) before ((follows_operator between).2 tighter)
  obtain ⟨i, rfl⟩ := steps_succ (show 0 < i by omega)
  have operand : readAt scope i l.tighter mid.tail = .ok (b, rest) :=
    second.reads after stop i (by omega)
  have found : operatorAt? l mid = some s := by
    unfold operatorAt?
    rw [Option.filter_eq_some_iff]
    exact ⟨symbol, by simpa using level⟩
  refine ⟨i, by omega, ?_⟩
  rw [read, resume_operator between, readOperators, found]
  simp only [operand, resume_operator between]
  rfl

theorem reaches_not (symbol : token.symbol? = some .not)
    (operand : Reaches scope .not e tokens) :
    Reaches scope .not (call "not" [e]) (token :: tokens) := by
  rintro n ts rest hn ⟨rfl, starts⟩ follows
  rw [List.length_cons] at hn
  have read : Reads scope .not (12 * tokens.length + 1) ts (some (call "not" [e])) rest :=
    Reads.negation symbol (operand.reads starts follows)
  refine ⟨n, by omega, (read n (by omega)).trans rfl⟩

/-! ## Constants -/

theorem wholeConstant_large (large : 0x8000000000000000 ≤ n) :
    wholeConstant n = constant (.float (ofDecimal n 0)) := by
  have high : Int64.maxValue.toInt = 2 ^ 63 - 1 := Int64.toInt_maxValue
  rw [wholeConstant, Value.ofInt?, if_neg (by omega)]
  rfl

theorem reads_denotes (denotes : Denotes token v) (starts : Starts ts [token] rest)
    (plain : peek rest ≠ .leftParen) : ReadsPrimary scope 1 ts (some (constant v)) rest := by
  obtain ⟨same, rfl⟩ := starts
  cases denotes with
  | @int n i value =>
    have high := i.toInt_le
    rw [Int64.toInt_maxValue] at high
    have whole : wholeConstant n = constant (.int i) := by
      rw [wholeConstant_eq (by omega), ← value, Int64.ofInt_toInt]
      rfl
    rw [← whole]
    exact .whole same
  | large large =>
    rw [← wholeConstant_large large]
    exact .whole same
  | decimal => exact .decimal same
  | text => exact .text same
  | yes => exact .literal same plain rfl
  | no => exact .literal same plain rfl
  | null word =>
    rcases word with rfl | rfl
    · exact .literal same plain rfl
    · exact .literal same plain rfl
  | nan nan =>
    rw [eq_nan nan]
    exact .literal same plain rfl
  | inf infinite positive =>
    rw [eq_infinity infinite, if_pos positive]
    exact .literal same plain rfl

/-- A sign in front of a constant makes another constant. The least integer has no opposite, so
its digits are read together with the sign. -/
theorem reads_negative (denotes : DenotesNegative token v)
    (starts : Starts ts [.op .minus, token] rest) (stop : Stops .sign (peek rest)) :
    Reads scope .sign 2 ts (some (constant v)) rest := by
  obtain ⟨minus, operand⟩ := starts
  have opposite : ∀ {w}, Denotes token w → token ≠ .whole 0x8000000000000000 →
      Reads scope .sign 2 ts (some (negate (constant w))) rest := by
    intro w denotes other
    have positive : Reads scope .sign 1 ts.tail (some (constant w)) rest := by
      refine (reads_denotes denotes operand stop.paren).climb_plain Nat.one_pos stop ?_
      rw [operand.1]
      exact denotes.plain.2
    exact Reads.negative minus (fun least => other (operand.1.symm.trans least.1)) positive
  cases denotes with
  | @int n i value =>
    have low := i.minValue_le_toInt
    rw [Int64.toInt_minValue] at low
    obtain ⟨whole, rfl⟩ := operand
    by_cases least : n = 0x8000000000000000
    · have same : i = Int64.minValue := by
        rw [← Int64.toInt_inj, value, Int64.toInt_minValue, least]
        rfl
      rw [same]
      exact .least minus ⟨by rw [whole, least], stop.dot⟩
    · have small : n < 0x8000000000000000 := by omega
      have magnitude : Denotes (.whole n) (.int (Int64.ofInt n)) :=
        .int (Int64.toInt_ofInt_of_le (by omega) (by omega))
      have negated : negate (constant (.int (Int64.ofInt n))) = constant (.int i) :=
        (congrArg negate (wholeConstant_eq small)).symm.trans (negate_whole small value)
      rw [← negated]
      exact opposite magnitude (by simpa using least)
  | @large n large =>
    have other : n ≠ 0x8000000000000000 := Nat.ne_of_gt large
    exact opposite (.large (Nat.le_of_lt large)) (by simpa using other)
  | decimal => exact opposite .decimal (by simp)
  | inf infinite negative =>
    have infinity : Denotes (.word "inf") (.float (1.0 / 0.0)) :=
      .inf (by decide) (by decide)
    rw [eq_infinity infinite, if_neg negative]
    exact opposite infinity (by simp)

/-! ## Calls -/

theorem reads_parts {parts : List (List Token × Formula)}
    (spelled : ∀ p ∈ parts, Spells columns .or p.2 p.1)
    (each : ∀ p ∈ parts, Reaches scope .or p.2 p.1)
    (starts : Starts ts (argumentList (parts.map (·.1))) rest) :
    ReadsArguments scope (12 * (argumentList (parts.map (·.1))).length) ts
      (some (parts.map (·.2))) rest := by
  have arguments : ∀ p ∈ parts.map fun p => (p.1, some p.2), ReadsArgument scope p.1 p.2 := by
    intro p mem
    obtain ⟨p, part, rfl⟩ := List.mem_map.1 mem
    obtain ⟨t, more, same, paren, -⟩ := (spelled p part).head
    exact ⟨⟨t, more, same, paren⟩, fun ts rest starts stop => (each p part).reads starts stop⟩
  have lists : (parts.map fun p => (p.1, some p.2)).map (·.1) = parts.map (·.1) := by
    rw [List.map_map]
    rfl
  have values : (parts.map fun p => (p.1, some p.2)).mapM (·.2) = some (parts.map (·.2)) := by
    rw [mapM_eq_some, List.forall₂_map_left_iff, List.forall₂_map_right_iff, List.forall₂_same]
    exact fun _ _ => rfl
  rw [← lists] at starts ⊢
  rw [← values]
  exact reads_argumentList arguments starts

theorem reaches_method {name : String} {a : Formula} {receiver : List Token}
    {parts : List (List Token × Formula)} (first : Reaches scope .call a receiver)
    (spelled : ∀ p ∈ parts, Spells columns .or p.2 p.1)
    (each : ∀ p ∈ parts, Reaches scope .or p.2 p.1) :
    Reaches scope .call (call name (a :: parts.map (·.2)))
      (receiver ++ .dot :: .word name :: .leftParen :: argumentList (parts.map (·.1))) := by
  intro n ts rest hn starts follows
  rw [List.length_append, List.length_cons, List.length_cons, List.length_cons] at hn ⊢
  have height : Level.call.height = 1 := rfl
  obtain ⟨mid, before, dot, word, opened, after⟩ := starts_append.1 starts
  have plain : Follows .call (peek mid) := by
    rw [dot]
    exact Token.noConfusion
  obtain ⟨i, le, read⟩ := first n ts mid (by omega) before plain
  obtain ⟨i, rfl⟩ := steps_succ (show 0 < i by omega)
  have arguments : readArguments scope i mid.tail.tail.tail = .ok (parts.map (·.2), rest) :=
    reads_parts spelled each after i (by omega)
  refine ⟨i, by omega, ?_⟩
  rw [read]
  show readMethods scope (i + 1) a mid = _
  rw [readMethods, if_pos dot, word]
  simp only [expect, opened, if_true]
  show (readArguments scope i mid.tail.tail.tail >>= _) = _
  rw [arguments]
  rfl

/-! ## Formulas -/

/-- The tokens of a formula are read as it, and the reader goes on behind them. -/
theorem reaches (spells : Spells scope.columns l e tokens) : Reaches scope l e tokens := by
  induction spells with
  | looser inner ih => exact reaches_looser inner ih
  | @paren e tokens inner ih =>
    rintro n ts rest hn ⟨opened, starts⟩ follows
    obtain ⟨mid, inside, closed, rfl⟩ := starts_append.1 starts
    rw [List.length_cons, List.length_append, List.length_singleton] at hn ⊢
    have read : ReadsPrimary scope (12 * tokens.length + 9) ts (some e) mid.tail :=
      .paren opened (ih.reads inside (closed ▸ Stops.close)) closed
    obtain ⟨i, le, resumed⟩ := read.resumes (show _ < n by omega)
    exact ⟨i, by omega, resumed⟩
  | operator symbol level _ _ first second => exact reaches_operator symbol level first second
  | not symbol _ operand => exact reaches_not symbol operand
  | constant denotes =>
    intro n ts rest hn starts follows
    rw [List.length_singleton] at hn
    exact (reads_denotes denotes starts follows).resumes (by omega)
  | negative denotes =>
    intro n ts rest hn starts follows
    rw [List.length_cons, List.length_singleton] at hn
    have read : Reads scope .sign 2 ts (some (.constant _)) rest :=
      reads_negative denotes starts follows
    exact ⟨n, Nat.le_add_right _ _, (read n (by omega)).trans rfl⟩
  | @column name token known word =>
    rintro n ts rest hn ⟨same, rfl⟩ follows
    rw [List.length_singleton] at hn
    have read : ReadsPrimary scope 1 ts (some (.column name)) ts.tail := by
      refine .column known ?_
      rw [same]
      exact word.imp_right fun h => ⟨h.1, follows, literal?_eq_none h.2⟩
    exact read.resumes (by omega)
  | @call name parts _ spelled each =>
    rintro n ts rest hn ⟨word, opened, starts⟩ follows
    rw [List.length_cons, List.length_cons] at hn ⊢
    have read := ReadsPrimary.call word opened (reads_parts spelled each starts)
    obtain ⟨i, le, resumed⟩ := read.resumes (show _ < n by omega)
    exact ⟨i, by omega, resumed⟩
  | method _ _ spelled first each => exact reaches_method first spelled each

/-- A text is parsed to the formula that it spells. -/
theorem written_parses {text : String} (spells : Spells scope.columns .or e tokens)
    (written : Written tokens text.toList) : parse text scope = .ok e :=
  (parse_of_reads (scan_written written) fun _ _ starts eof =>
    (reaches spells).reads starts (eof ▸ Stops.eof)).2 rfl

/-- A sign instead of a word, needless parentheses and a call behind its first argument. -/
theorem written_parses_signs :
    parse "!a<>(b).f( -1)" ⟨["a", "b"], .empty⟩ =
      .ok (call "not" [binary "!=" (column "a") (call "f" [column "b", int (-1)])]) := by
  have a : Spells ["a", "b"] .call (column "a") [.word "a"] :=
    .column (by decide) (.inr ⟨rfl, by decide⟩)
  have b : Spells ["a", "b"] .call (column "b") [.word "b"] :=
    .column (by decide) (.inr ⟨rfl, by decide⟩)
  have minus : Spells ["a", "b"] .sign (int (-1)) [.op .minus, .whole 1] := .negative (.int rfl)
  have called : Spells ["a", "b"] .call (call "f" [column "b", int (-1)])
      [.leftParen, .word "b", .rightParen, .dot, .word "f", .leftParen, .op .minus, .whole 1,
        .rightParen] := by
    refine @Spells.method _ "f" _ _ [([.op .minus, .whole 1], int (-1))] (by decide)
      (.paren (.looser (.looser (.looser (.looser (.looser (.looser (.looser b)))))))) ?_
    rintro _ (- | ⟨_, ⟨⟩⟩)
    exact .looser (.looser (.looser (.looser (.looser (.looser minus)))))
  have differs : Spells ["a", "b"] .comparison
      (binary Symbol.ne.text (column "a") (call "f" [column "b", int (-1)]))
      ([.word "a"] ++ .op .ne :: [.leftParen, .word "b", .rightParen, .dot, .word "f",
        .leftParen, .op .minus, .whole 1, .rightParen]) :=
    .operator rfl rfl (.looser (.looser (.looser (.looser a))))
      (.looser (.looser (.looser called)))
  have bare : ∀ c ∈ [], Text.isBlank c = true := List.forall_mem_nil _
  have written : Written [.op .not, .word "a", .op .ne, .leftParen, .word "b", .rightParen, .dot,
      .word "f", .leftParen, .op .minus, .whole 1, .rightParen]
      ['!', 'a', '<', '>', '(', 'b', ')', '.', 'f', '(', ' ', '-', '1', ')'] := by
    refine @Written.cons [] (.op .not) ['!'] _ _ bare
      (@Token.Written.op .not "!" (by decide)) (by rintro _ ⟨⟩ s; cases s <;> decide) ?_
    refine @Written.cons [] (.word "a") ['a'] _ _ bare
      (.word (by decide +kernel)) (by rintro _ ⟨⟩; decide) ?_
    refine @Written.cons [] (.op .ne) ['<', '>'] _ _ bare
      (@Token.Written.op .ne "<>" (by decide)) (by rintro _ ⟨⟩ s; cases s <;> decide) ?_
    refine @Written.cons [] .leftParen _ _ _ bare .leftParen trivial ?_
    refine @Written.cons [] (.word "b") ['b'] _ _ bare
      (.word (by decide +kernel)) (by rintro _ ⟨⟩; decide) ?_
    refine @Written.cons [] .rightParen _ _ _ bare .rightParen trivial ?_
    refine @Written.cons [] .dot _ _ _ bare .dot (by rintro _ ⟨⟩; decide) ?_
    refine @Written.cons [] (.word "f") ['f'] _ _ bare
      (.word (by decide +kernel)) (by rintro _ ⟨⟩; decide) ?_
    refine @Written.cons [] .leftParen _ _ _ bare .leftParen trivial ?_
    refine @Written.cons [' '] (.op .minus) ['-'] _ _ (List.forall_mem_singleton.2 rfl)
      (@Token.Written.op .minus "-" (by decide)) (by rintro _ ⟨⟩ s; cases s <;> decide) ?_
    refine @Written.cons [] (.whole 1) ['1'] _ _ bare
      (.whole ⟨by decide, List.forall_mem_singleton.2 rfl⟩ (by decide) (by decide))
      (Break.numberEnds (by rintro _ ⟨⟩; decide)) ?_
    exact @Written.cons [] .rightParen _ _ _ bare .rightParen trivial (@Written.nil [] bare)
  have spells : Spells ["a", "b"] .or _ (.op .not :: _) :=
    .looser (.looser (.not rfl (.looser differs)))
  exact written_parses spells written

end TableFlow.Formula
