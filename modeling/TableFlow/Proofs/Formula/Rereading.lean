import TableFlow.Proofs.Formula.Printing
import TableFlow.Proofs.Formula.Reading

/-!
# What a printed formula is read as

`Formula.reread` says what the text of a formula comes to when it is parsed
(`parse_source`). Text and tree differ at calls of `not` alone, where the reader finds the
operator `not` instead: it takes one argument, and as a left operand it takes the operator
to its right with it.
-/

namespace TableFlow.Formula

open Number

def tightNames : List String :=
  ["+", "-", "*", "/", "%", "==", "!=", "<", "<=", ">", ">="]

def isNot : Formula → Bool
  | apply name _ .call => name == "not"
  | _ => false

theorem eq_call_of_isNot {e : Formula} (h : isNot e = true) : ∃ args, e = call "not" args := by
  unfold isNot at h
  split at h
  · rw [beq_iff_eq.1 h]
    exact ⟨_, rfl⟩
  · cases h

/-- An operator applied under the `not` of its left operand. -/
def underNot (name : String) (right : Formula) : Formula → Formula
  | apply _ [operand] _ => call "not" [binary name operand right]
  | left => binary name left right

mutual

/-- What the text of a formula is read as; `direct` where the reader looks for the operand
of a tight operator and not for the operator `not`. -/
def reread (direct : Bool) : Formula → Option Formula
  | constant v => some (constant v)
  | column name => some (column name)
  | apply name [a, b] .operator => do
    let left ← reread false a
    let right ← reread (tightNames.contains name) b
    some (if tightNames.contains name && isNot a then underNot name right left
      else binary name left right)
  | apply name args _ =>
    if name = "not" ∧ direct = false ∧ args.length ≠ 1 then none
    else do
      let args ← rereadAll args
      some (call name args)

def rereadAll : List Formula → Option (List Formula)
  | [] => some []
  | e :: rest => do
    let e ← reread false e
    let rest ← rereadAll rest
    some (e :: rest)

end

variable {direct : Bool} {name : String} {a b : Formula} {args : List Formula}

theorem reread_binary : reread direct (binary name a b) = (do
    let left ← reread false a
    let right ← reread (tightNames.contains name) b
    some (if tightNames.contains name && isNot a then underNot name right left
      else binary name left right)) := by
  rw [binary, reread]

theorem reread_call : reread direct (call name args) =
    (if name = "not" ∧ direct = false ∧ args.length ≠ 1 then none
    else do
      let args ← rereadAll args
      some (call name args)) := by
  rw [call, reread]
  simp

/-- Only calls of `not` are read in two ways. -/
theorem reread_direct {columns : List String} (spelled : Spelled columns a)
    (h : isNot a = false) (d : Bool) : reread direct a = reread d a := by
  cases spelled with
  | constant => simp only [reread]
  | column => simp only [reread]
  | binary => rw [reread_binary, reread_binary]
  | call =>
    rw [call, isNot, beq_eq_false_iff_ne] at h
    rw [reread_call, reread_call, if_neg (by simp [h]), if_neg (by simp [h])]

/-! ## Tokens in front -/

/-- Tokens and what follows them. -/
def Starts : Tokens → List Token → Tokens → Prop
  | ts, [], rest => ts = rest
  | ts, token :: more, rest => peek ts = token ∧ Starts ts.tail more rest

theorem starts_append {ts rest : Tokens} {s t : List Token} :
    Starts ts (s ++ t) rest ↔ ∃ mid, Starts ts s mid ∧ Starts mid t rest := by
  induction s generalizing ts with
  | nil => simp [Starts]
  | cons token s ih => simp [Starts, ih, and_assoc]

theorem starts_of_map {located : List Located} {tokens : List Token}
    (h : located.map (·.token) = tokens ++ [.eof]) :
    ∃ rest, Starts located tokens rest ∧ peek rest = .eof := by
  induction tokens generalizing located with
  | nil =>
    obtain ⟨last, rfl, eof⟩ := List.map_eq_singleton_iff.1 h
    exact ⟨_, rfl, eof⟩
  | cons token tokens ih =>
    obtain ⟨first, more, rfl, same, others⟩ := List.map_eq_cons_iff.1 h
    obtain ⟨rest, starts, eof⟩ := ih others
    exact ⟨rest, ⟨same, starts⟩, eof⟩

theorem word_symbol {s : String} : (Token.word s).symbol? = some .not ↔ s = "not" := by
  unfold Token.symbol?
  split <;> simp_all

theorem word_sign {s : String} :
    (Token.word s).symbol? ≠ some .minus ∧ (Token.word s).symbol? ≠ some .plus := by
  unfold Token.symbol?
  split <;> simp_all

theorem valueTokens_head {v : Value} :
    ∃ t more, valueTokens v = t :: more ∧ t ≠ .rightParen ∧ t.symbol? ≠ some .not := by
  unfold valueTokens intTokens decimalTokens
  repeat' split
  all_goals exact ⟨_, _, rfl, by simp, by simp [Token.symbol?]⟩

theorem nameToken_head : nameToken name ≠ .rightParen ∧ (nameToken name).symbol? ≠ some .not := by
  unfold nameToken
  split
  · rename_i plain
    refine ⟨by simp, fun symbol => ?_⟩
    obtain rfl := word_symbol.1 symbol
    exact (word_of_isPlainName plain).2 (by decide)
  · exact ⟨by simp, by simp [Token.symbol?]⟩

/-- No formula starts with a closing parenthesis, and only calls of `not` with a `not`. -/
theorem tokens_head {columns : List String} (spelled : Spelled columns a) :
    ∃ t more, a.tokens = t :: more ∧ t ≠ .rightParen ∧
      (t.symbol? = some .not → isNot a = true) := by
  cases spelled with
  | constant =>
    obtain ⟨t, more, tokens, paren, not⟩ := valueTokens_head
    exact ⟨t, more, tokens, paren, fun symbol => absurd symbol not⟩
  | column => exact ⟨_, _, rfl, nameToken_head.1, fun symbol => absurd symbol nameToken_head.2⟩
  | binary => exact ⟨_, _, tokens_binary, by simp, by simp [Token.symbol?]⟩
  | call =>
    refine ⟨_, _, tokens_call, by simp, fun symbol => ?_⟩
    rw [word_symbol.1 symbol]
    rfl

/-! ## Constants -/

section

variable {scope : Scope} {l : Level} {k : Nat} {ts rest : Tokens} {o : Option Formula}

theorem wholeConstant_eq {n : Nat} (small : n < 0x8000000000000000) :
    wholeConstant n = int (Int64.ofInt n) := by
  have low : Int64.minValue.toInt = -2 ^ 63 := Int64.toInt_minValue
  have high : Int64.maxValue.toInt = 2 ^ 63 - 1 := Int64.toInt_maxValue
  rw [wholeConstant, Value.ofInt?, if_pos (by omega)]
  rfl

theorem negate_whole {n : Nat} {i : Int64} (small : n < 0x8000000000000000)
    (opposite : i.toInt = -n) : negate (wholeConstant n) = int i := by
  have value : (Int64.ofInt n).toInt = n := Int64.toInt_ofInt_of_le (by omega) (by omega)
  rw [wholeConstant_eq small, int, negate, value, ← opposite, Value.ofInt?_toInt]
  rfl

theorem reads_int {i : Int64} (starts : Starts ts (intTokens i.toInt) rest)
    (stop : Stops .sign (peek rest)) : Reads scope .sign 12 ts (some (int i)) rest := by
  have low := i.minValue_le_toInt
  have high := i.toInt_le
  rw [Int64.toInt_minValue] at low
  rw [Int64.toInt_maxValue] at high
  have reads_whole : ∀ {ts : Tokens} {n : Nat}, peek ts = .whole n → ts.tail = rest →
      Reads scope .sign 11 ts (some (wholeConstant n)) rest := by
    rintro ts n whole rfl
    exact (ReadsPrimary.whole whole).climb_plain (Nat.succ_pos 10) stop (by rw [whole]; rfl)
  cases sign : i.toInt with
  | ofNat n =>
    rw [sign] at starts high
    obtain ⟨whole, rfl⟩ := starts
    have small : n < 0x8000000000000000 := by
      rw [Int.ofNat_eq_natCast] at high
      omega
    have same : Int64.ofInt n = i := by
      rw [← Int.ofNat_eq_natCast, ← sign, Int64.ofInt_toInt]
    rw [← same, ← wholeConstant_eq small]
    exact (reads_whole whole rfl).more (by omega)
  | negSucc n =>
    rw [sign] at starts low
    obtain ⟨minus, whole, rfl⟩ := starts
    by_cases least : n + 1 = 0x8000000000000000
    · have same : i = Int64.minValue := by
        rw [← Int64.toInt_inj, sign, Int64.toInt_minValue]
        omega
      rw [same]
      exact .least minus ⟨by rw [whole, least], stop.dot⟩
    · have fits : ¬(peek ts.tail = .whole 0x8000000000000000 ∧ peek ts.tail.tail ≠ .dot) := by
        rintro ⟨same, -⟩
        rw [whole] at same
        cases same
        exact least rfl
      have read := Reads.negative minus fits (reads_whole whole rfl)
      have opposite : i.toInt = -(n + 1 : Nat) := sign
      rw [← negate_whole (by omega) opposite]
      exact read

theorem reads_decimal {x : Float} {text : List Char}
    (body : DecimalText text ∨ ∃ digits, text = '-' :: digits ∧ DecimalText digits)
    (value : readFloat? text = some x) (starts : Starts ts (decimalTokens text) rest)
    (stop : Stops .sign (peek rest)) :
    Reads scope .sign 12 ts (some (constant (.float x))) rest := by
  have reads_body : ∀ {ts : Tokens} {y : Float}, peek ts = .decimal y → ts.tail = rest →
      Reads scope .sign 11 ts (some (constant (.float y))) rest := by
    rintro ts y decimal rfl
    exact (ReadsPrimary.decimal decimal).climb_plain (Nat.succ_pos 10) stop
      (by rw [decimal]; rfl)
  rcases body with plain | ⟨digits, rfl, plain⟩
  · rw [decimalTokens_plain plain, value] at starts
    exact (reads_body starts.1 starts.2).more (by omega)
  · rw [readFloat?_minus plain] at value
    obtain ⟨y, read, rfl⟩ := Option.map_eq_some_iff.1 value
    rw [decimalTokens, read] at starts
    obtain ⟨minus, decimal, rfl⟩ := starts
    refine Reads.negative minus ?_ (reads_body decimal rfl)
    simp [decimal]

theorem reads_word {word : String} {v : Value} (starts : Starts ts [.word word] rest)
    (stop : Stops .sign (peek rest)) (meaning : literal? word = some v) :
    Reads scope .sign 11 ts (some (constant v)) rest := by
  obtain ⟨same, rfl⟩ := starts
  refine (ReadsPrimary.literal same stop.paren meaning).climb (Nat.succ_pos 10) stop ?_ ?_
  · rw [same, word_symbol.ne]
    rintro - rfl
    cases meaning
  · rw [same]
    exact word_sign

theorem reads_float {x : Float} (reads : ReadsBack (constant (.float x)))
    (starts : Starts ts (valueTokens (.float x)) rest) (stop : Stops .sign (peek rest)) :
    Reads scope .sign 12 ts (some (constant (.float x))) rest := by
  have infinity : literal? "inf" = some (.float (1.0 / 0.0)) := rfl
  by_cases nan : x.isNaN = true
  · rw [valueTokens, if_pos nan] at starts
    rw [eq_nan nan]
    exact (reads_word starts stop rfl).more (by omega)
  · by_cases infinite : x.isInf = true
    · have value := eq_infinity infinite
      rw [valueTokens, if_neg nan, if_pos infinite] at starts
      by_cases positive : x > 0.0
      · rw [if_pos positive] at starts value
        rw [value]
        exact (reads_word starts stop infinity).more (by omega)
      · rw [if_neg positive] at starts value
        obtain ⟨minus, word⟩ := starts
        rw [value]
        refine Reads.negative minus ?_ (reads_word word stop infinity)
        simp [word.1]
    · rw [valueTokens, if_neg nan, if_neg infinite] at starts
      have value := reads x (by simp [constants]) (by simpa using nan) (by simpa using infinite)
      obtain ⟨body, decimal, plain | negative⟩ := finite_text x
      · exact reads_decimal (.inl (plain ▸ decimal)) value starts stop
      · exact reads_decimal (.inr ⟨body, negative, decimal⟩) value starts stop

/-- A constant is read at every level where a sign may stand. -/
theorem reads_value {v : Value} (reads : ReadsBack (constant v))
    (starts : Starts ts (valueTokens v) rest) (stop : Stops .sign (peek rest)) :
    Reads scope .sign 12 ts (some (constant v)) rest := by
  cases v with
  | null => exact (reads_word starts stop rfl).more (by omega)
  | bool b =>
    cases b
    · exact (reads_word starts stop rfl).more (by omega)
    · exact (reads_word starts stop rfl).more (by omega)
  | int i => exact reads_int starts stop
  | float x => exact reads_float reads starts stop
  | text s =>
    obtain ⟨text, rfl⟩ := starts
    have plain : (peek ts).symbol? = none := by rw [text]; rfl
    exact ((ReadsPrimary.text text).climb_plain (Nat.succ_pos 10) stop plain).more (by omega)

theorem literal?_eq_none {name : String} (free : name ∉ keywords) : literal? name = none := by
  unfold literal?
  split <;> first | rfl | exact absurd (by decide) free

theorem reads_column {name : String} (known : name ∈ scope.columns)
    (starts : Starts ts [nameToken name] rest) (stop : Stops l (peek rest)) :
    Reads scope l 12 ts (some (column name)) rest := by
  obtain ⟨same, rfl⟩ := starts
  refine ReadsPrimary.climb (ReadsPrimary.column known ?_) (Nat.succ_pos 11) stop ?_ ?_
  · rw [same, nameToken]
    split
    · rename_i plain
      exact .inr ⟨rfl, stop.paren, literal?_eq_none (word_of_isPlainName plain).2⟩
    · exact .inl rfl
  · rw [same]
    exact fun _ => nameToken_head.2
  · rw [same, nameToken]
    split
    · exact word_sign
    · simp [Token.symbol?]

/-! ## Arguments -/

def argumentList : List (List Token) → List Token
  | [] => [.rightParen]
  | [s] => s ++ [.rightParen]
  | s :: t :: rest => s ++ .comma :: argumentList (t :: rest)

/-- An argument that is read from its tokens, whatever ends it. -/
structure ReadsArgument (scope : Scope) (tokens : List Token) (o : Option Formula) : Prop where
  head : ∃ t more, tokens = t :: more ∧ t ≠ .rightParen
  reads : ∀ ts rest : Tokens, Starts ts tokens rest → Stops .or (peek rest) →
    Reads scope .or (12 * tokens.length) ts o rest

theorem reads_list {first : List Token × Option Formula}
    {others : List (List Token × Option Formula)}
    (each : ∀ p ∈ first :: others, ReadsArgument scope p.1 p.2)
    (starts : Starts ts (argumentList ((first :: others).map (·.1))) rest) :
    ReadsMore scope (12 * (argumentList ((first :: others).map (·.1))).length - 3) ts
      ((first :: others).mapM (·.2)) rest := by
  induction others generalizing first ts with
  | nil =>
    obtain ⟨mid, read, closed, rfl⟩ := starts_append.1 starts
    have head := (each first (List.mem_cons_self ..)).reads ts mid read (closed ▸ Stops.close)
    have last := ReadsMore.last head closed
    intro n hn
    rw [List.map_singleton, argumentList, List.length_append, List.length_singleton] at hn
    simpa using last n (by omega)
  | cons second others ih =>
    obtain ⟨mid, read, comma, after⟩ := starts_append.1 starts
    have head := (each first (List.mem_cons_self ..)).reads ts mid read (comma ▸ Stops.comma)
    have tail := ih (fun p mem => each p (List.mem_cons_of_mem _ mem)) after
    intro n hn
    have count : (argumentList ((first :: second :: others).map (·.1))).length =
        first.1.length + (argumentList ((second :: others).map (·.1))).length + 1 := by
      simp [argumentList, Nat.add_assoc]
    rw [count] at hn
    obtain ⟨n, rfl⟩ := steps_succ (show 0 < n by omega)
    have more : ReadsMore scope n mid.tail ((second :: others).mapM (·.2)) rest :=
      fun i hi => tail i (by omega)
    have both := ReadsMore.cons head comma more (by omega)
    simpa using both (n + 1) (Nat.le_refl _)

/-- Arguments are read from their tokens one by one. -/
theorem reads_argumentList {parts : List (List Token × Option Formula)}
    (each : ∀ p ∈ parts, ReadsArgument scope p.1 p.2)
    (starts : Starts ts (argumentList (parts.map (·.1))) rest) :
    ReadsArguments scope (12 * (argumentList (parts.map (·.1))).length) ts (parts.mapM (·.2))
      rest := by
  cases parts with
  | nil =>
    obtain ⟨closed, rfl⟩ := starts
    exact .nothing closed
  | cons first others =>
    obtain ⟨t, more, tokens, paren⟩ := (each first (List.mem_cons_self ..)).head
    obtain ⟨after, list⟩ : ∃ after, argumentList ((first :: others).map (·.1)) = t :: after := by
      rw [List.map_cons, tokens]
      cases others with
      | nil => exact ⟨_, rfl⟩
      | cons second others => exact ⟨_, rfl⟩
    have head : peek ts = t := by
      rw [list] at starts
      exact starts.1
    have long : 0 < (argumentList ((first :: others).map (·.1))).length := by
      rw [list]
      exact Nat.succ_pos _
    intro n hn
    exact (reads_list each starts).arguments (head ▸ paren) n (by omega)

/-- A formula's tokens are read at every level as `reread` says; the levels below the
height of `not`, which is 6, look for no operator `not`. -/
def Rereads (scope : Scope) (e : Formula) : Prop :=
  ∀ (l : Level) (ts rest : Tokens), 2 ≤ l.height → Starts ts e.tokens rest →
    Stops l (peek rest) → Reads scope l (12 * e.tokens.length) ts (reread (l.height < 6) e) rest

theorem Rereads.argument {e : Formula} (h : Rereads scope e) (starts : Starts ts e.tokens rest)
    (stop : Stops .or (peek rest)) :
    Reads scope .or (12 * e.tokens.length) ts (reread false e) rest :=
  h .or ts rest (by decide) starts stop

theorem argumentTokens_eq : argumentTokens args = argumentList (args.map tokens) := by
  cases args with
  | nil => rfl
  | cons first others =>
    induction others generalizing first with
    | nil => rfl
    | cons second others ih =>
      rw [argumentTokens, moreTokens_cons, ih]
      rfl

theorem rereadAll_eq : rereadAll args = args.mapM (reread false) := by
  induction args with
  | nil => rfl
  | cons e args ih =>
    rw [rereadAll, List.mapM_cons, ih]
    rfl

theorem reads_arguments (each : ∀ a ∈ args, Rereads scope a)
    (spelled : ∀ a ∈ args, Spelled scope.columns a)
    (starts : Starts ts (argumentTokens args) rest) :
    ReadsArguments scope (12 * (argumentTokens args).length) ts (rereadAll args) rest := by
  have parts : ∀ p ∈ args.map fun a => (a.tokens, reread false a), ReadsArgument scope p.1 p.2 := by
    intro p mem
    obtain ⟨a, ha, rfl⟩ := List.mem_map.1 mem
    obtain ⟨t, more, tokens, paren, -⟩ := tokens_head (spelled a ha)
    exact ⟨⟨t, more, tokens, paren⟩, fun ts rest starts stop => (each a ha).argument starts stop⟩
  have lists : (args.map fun a => (a.tokens, reread false a)).map (·.1) = args.map tokens := by
    rw [List.map_map]
    rfl
  have values : (args.map fun a => (a.tokens, reread false a)).mapM (·.2) =
      args.mapM (reread false) := by
    rw [List.mapM_map]
    rfl
  rw [argumentTokens_eq, ← lists] at starts ⊢
  rw [rereadAll_eq, ← values]
  exact reads_argumentList parts starts

/-- The operand of the operator `not` in front of the arguments of a call. -/
def notOperand : List Formula → Option Formula
  | [operand] => reread false operand
  | _ => none

theorem reread_not : reread false (call "not" args) = (do
    let operand ← notOperand args
    some (call "not" [operand])) := by
  rw [reread_call]
  rcases args with _ | ⟨operand, _ | ⟨second, others⟩⟩
  · rfl
  · simp only [notOperand, rereadAll]
    cases reread false operand <;> rfl
  · simp [notOperand]

/-- Arguments in parentheses are an operand if there is just one. -/
theorem reads_operand (each : ∀ a ∈ args, Rereads scope a)
    (starts : Starts ts (.leftParen :: argumentTokens args) rest) :
    ReadsPrimary scope (12 * (argumentTokens args).length + 9) ts (notOperand args) rest := by
  obtain ⟨opened, inner⟩ := starts
  rcases args with _ | ⟨first, _ | ⟨second, others⟩⟩
  · obtain ⟨closed, rfl⟩ := inner
    have nothing : Reads scope .or 12 ts.tail none ts.tail :=
      (ReadsPrimary.missing closed).climb_plain (Nat.succ_pos 11) (closed ▸ Stops.close)
        (by rw [closed]; rfl)
    exact .paren opened nothing closed
  · rw [argumentTokens, moreTokens] at inner ⊢
    obtain ⟨mid, read, closed, rfl⟩ := starts_append.1 inner
    have head := (each first (List.mem_cons_self ..)).argument read (closed ▸ Stops.close)
    intro n hn
    rw [List.length_append] at hn
    exact ReadsPrimary.paren opened head closed n (by omega)
  · rw [argumentTokens, moreTokens_cons] at inner ⊢
    obtain ⟨mid, read, comma, -⟩ := starts_append.1 inner
    have head := (each first (List.mem_cons_self ..)).argument read (comma ▸ Stops.comma)
    intro n hn
    rw [List.length_append] at hn
    exact ReadsPrimary.unclosed opened head (by simp [comma]) n (by omega)

/-! ## Operators -/

theorem operator_level (h : name ∈ operatorNames) :
    ∃ s m, s.text = name ∧ s.level? = some m ∧ (operatorToken name).symbol? = some s ∧
      tightNames.contains name = decide (m.height < 6) := by
  have all : ∀ name ∈ operatorNames, ∃ s ∈ [Symbol.and, .or] ++ signs, s.text = name ∧
      (operatorToken name).symbol? = some s ∧
      s.level?.any (fun m => tightNames.contains name == decide (m.height < 6)) = true := by
    decide
  obtain ⟨s, -, text, symbol, level⟩ := all name h
  obtain ⟨m, hm, tight⟩ := (Option.any_eq_true _ _).1 level
  exact ⟨s, m, text, hm, symbol, beq_iff_eq.1 tight⟩

variable {mid : Tokens}

/-- The operands of an operator in parentheses, if the left one does not start with the
operator `not`. -/
theorem reads_between (operator : name ∈ operatorNames) (left : Rereads scope a)
    (right : Rereads scope b) (spelled : Spelled scope.columns a)
    (plain : tightNames.contains name = true → isNot a = false)
    (first : Starts ts a.tokens mid) (between : peek mid = operatorToken name)
    (second : Starts mid.tail b.tokens rest) (closed : peek rest = .rightParen) :
    Reads scope .or (12 * (a.tokens.length + b.tokens.length) + 1) ts (do
      let left ← reread false a
      let right ← reread (tightNames.contains name) b
      some (binary name left right)) rest := by
  obtain ⟨s, m, rfl, level, symbol, tight⟩ := operator_level operator
  obtain ⟨prefixed, -, inner⟩ := Symbol.level_ne level
  have height := Level.height_tighter inner
  have high := Symbol.level_height level
  have other : m.height ≠ 6 := fun six => prefixed (Level.eq_of_height six)
  have same : decide (m.tighter.height < 6) = tightNames.contains s.text := by
    rw [tight, decide_eq_decide]
    omega
  have alike : reread (tightNames.contains s.text) a = reread false a := by
    cases h : tightNames.contains s.text with
    | false => rfl
    | true => exact reread_direct spelled (plain h) false
  have head : Reads scope m.tighter (12 * (a.tokens.length + b.tokens.length)) ts
      (reread false a) mid := by
    rw [← alike, ← same]
    exact (left m.tighter ts mid high first
      (between ▸ Stops.operator symbol level (by omega))).more (by omega)
  have tail : Reads scope m.tighter (12 * (a.tokens.length + b.tokens.length)) mid.tail
      (reread (tightNames.contains s.text) b) rest := by
    rw [← same]
    exact (right m.tighter mid.tail rest high second (closed ▸ Stops.close)).more (by omega)
  have read := Reads.operator (between ▸ symbol) level head tail (closed ▸ Stops.close)
  -- on the way up a tight operator passes the level of `not`, which must not see one here
  refine read.climb (Nat.succ_pos _) Level.height_le (closed ▸ Stops.close) (fun low _ => ?_)
    fun call => absurd call inner
  obtain ⟨t, more, tokens, -, not⟩ := tokens_head spelled
  rw [tokens] at first
  rw [first.1]
  intro negation
  have direct : tightNames.contains s.text = true := by rw [tight, decide_eq_true low]
  rw [plain direct] at not
  cases not negation

/-- A left operand that starts with the operator `not` takes the right one with it. -/
theorem reads_under (operator : name ∈ operatorNames) (tight : tightNames.contains name = true)
    (each : ∀ a ∈ args, Rereads scope a) (right : Rereads scope b)
    (first : Starts ts (call "not" args).tokens mid) (between : peek mid = operatorToken name)
    (second : Starts mid.tail b.tokens rest) (closed : peek rest = .rightParen) :
    Reads scope .or (12 * ((call "not" args).tokens.length + b.tokens.length) + 2) ts (do
      let left ← reread false (call "not" args)
      let right ← reread true b
      some (underNot name right left)) rest := by
  obtain ⟨s, m, rfl, level, symbol, direct⟩ := operator_level operator
  obtain ⟨prefixed, -, inner⟩ := Symbol.level_ne level
  have height := Level.height_tighter inner
  have low : m.height < 6 := by
    rw [tight] at direct
    exact of_decide_eq_true direct.symm
  rw [tokens_call] at first ⊢
  obtain ⟨negation, operand⟩ := first
  have plain : (peek ts.tail).symbol? = none := by rw [operand.1]; rfl
  simp only [List.length_cons]
  -- behind the `not` stands an operand in parentheses, and the operator goes on with it
  have head : Reads scope m.tighter
      (12 * ((argumentTokens args).length + 2 + b.tokens.length)) ts.tail (notOperand args) mid :=
    ((reads_operand each operand).climb_plain (Nat.succ_pos _)
      (between ▸ Stops.operator symbol level (by omega)) plain).more (by omega)
  have tail : Reads scope m.tighter
      (12 * ((argumentTokens args).length + 2 + b.tokens.length)) mid.tail (reread true b)
        rest := by
    have same : true = decide (m.tighter.height < 6) := by
      rw [eq_comm, decide_eq_true_eq]
      omega
    rw [same]
    exact (right m.tighter mid.tail rest (Symbol.level_height level) second
      (closed ▸ Stops.close)).more (by omega)
  have read := Reads.operator (between ▸ symbol) level head tail (closed ▸ Stops.close)
  have under : Reads scope .not
      (12 * ((argumentTokens args).length + 2 + b.tokens.length) + 1) ts.tail _ rest :=
    read.climb (Nat.succ_pos _) (Nat.le_of_lt low) (closed ▸ Stops.close)
      (by simp [plain]) fun call => absurd call inner
  have symbol : (peek ts).symbol? = some .not := by rw [negation]; rfl
  have whole : Reads scope .or _ ts _ rest :=
    (Reads.negation symbol under).climb (Nat.succ_pos _) (by decide) (closed ▸ Stops.close)
      (fun low => absurd low (by decide)) (fun call => absurd call (by decide))
  have same : (do
      let left ← reread false (call "not" args)
      let right ← reread true b
      some (underNot s.text right left)) = (do
      let operand ← (do
        let operand ← notOperand args
        let right ← reread true b
        some (binary s.text operand right))
      some (call "not" [operand])) := by
    rw [reread_not]
    cases notOperand args <;> cases reread true b <;> rfl
  rw [same]
  exact whole

/-! ## Formulas -/

theorem rereads_binary (operator : name ∈ operatorNames) (left : Rereads scope a)
    (inside : ∀ x ∈ a.args, Rereads scope x) (right : Rereads scope b)
    (spelled : Spelled scope.columns a) : Rereads scope (binary name a b) := by
  intro l ts rest _ starts stop
  rw [tokens_binary] at starts ⊢
  obtain ⟨opened, inner⟩ := starts
  obtain ⟨mid, first, between, inner⟩ := starts_append.1 inner
  obtain ⟨last, second, closed, rfl⟩ := starts_append.1 inner
  have read : Reads scope .or (12 * (a.tokens.length + b.tokens.length) + 2) ts.tail
      (reread (l.height < 6) (binary name a b)) last := by
    rw [reread_binary]
    by_cases under : tightNames.contains name = true ∧ isNot a = true
    · obtain ⟨tight, not⟩ := under
      obtain ⟨args, rfl⟩ := eq_call_of_isNot not
      rw [tight, not]
      exact reads_under operator tight inside right first between second closed
    · have plain : tightNames.contains name = true → isNot a = false := by simpa using under
      have apart : (tightNames.contains name && isNot a) = false := by simpa using under
      simp only [apart, Bool.false_eq_true, if_false]
      exact (reads_between operator left right spelled plain first between second
        closed).more (Nat.le_succ _)
  have plain : (peek ts).symbol? = none := by rw [opened]; rfl
  refine ((ReadsPrimary.paren opened read closed).climb_plain (Nat.succ_pos _) stop plain).more ?_
  simp only [List.length_append, List.length_cons]
  omega

theorem rereads_call (word : IsWord name) (each : ∀ x ∈ args, Rereads scope x)
    (spelled : ∀ x ∈ args, Spelled scope.columns x) : Rereads scope (call name args) := by
  intro l ts rest high starts stop
  rw [tokens_call] at starts ⊢
  obtain ⟨first, after⟩ := starts
  have opened : peek ts.tail = .leftParen := after.1
  -- at the level of `not` and above, the word is the operator before the call is looked at
  by_cases prefixed : name = "not" ∧ 6 ≤ l.height
  · obtain ⟨rfl, loose⟩ := prefixed
    have symbol : (peek ts).symbol? = some .not := by rw [first]; rfl
    have loose : Level.not.height ≤ l.height := loose
    have operand := (reads_operand each after).climb_plain (Nat.succ_pos _) (stop.mono loose)
      (by rw [opened]; rfl)
    have read := (Reads.negation symbol operand).climb (Nat.succ_pos _) loose stop
      (fun low => absurd low (by decide)) (fun call => absurd call (by decide))
    rw [← reread_not] at read
    have same : decide (l.height < 6) = false := decide_eq_false (Nat.not_lt.2 loose)
    rw [same]
    refine read.more ?_
    simp only [List.length_cons]
    omega
  · have arguments := ReadsPrimary.call first opened (reads_arguments each spelled after.2)
    have same : reread (l.height < 6) (call name args) = (do
        let args ← rereadAll args
        some (call name args)) := by
      rw [reread_call, if_neg]
      rintro ⟨same, loose, -⟩
      exact prefixed ⟨same, by simpa using loose⟩
    rw [same]
    refine (arguments.climb (Nat.succ_pos _) stop ?_ ?_).more ?_
    · rw [first]
      exact fun loose symbol => prefixed ⟨word_symbol.1 symbol, loose⟩
    · rw [first]
      exact word_sign
    · simp only [List.length_cons]
      omega

/-- Every formula is read from its tokens as `reread` says, and so are its arguments. -/
theorem rereads {e : Formula} (spelled : Spelled scope.columns e) (reads : ReadsBack e) :
    Rereads scope e ∧ ∀ x ∈ e.args, Rereads scope x := by
  -- an operator needs the arguments of a `not` on its left, so the induction carries them
  induction spelled with
  | @constant v =>
    refine ⟨fun l ts rest high starts stop => ?_, by simp [Formula.args]⟩
    rw [tokens] at starts ⊢
    obtain ⟨t, more, tokens, -, not⟩ := valueTokens_head
    have head : peek ts = t := by
      rw [tokens] at starts
      exact starts.1
    have read : Reads scope l 12 ts (some (.constant v)) rest :=
      (reads_value reads starts (stop.mono high)).climb (Nat.succ_pos 11) high stop
        (fun _ _ => head ▸ not) (fun call => absurd call (by decide))
    rw [reread]
    refine read.more ?_
    rw [tokens, List.length_cons]
    omega
  | column known =>
    refine ⟨fun l ts rest high starts stop => ?_, by simp [Formula.args]⟩
    rw [reread]
    exact reads_column known starts stop
  | @binary name a b operator spelled _ left right =>
    obtain ⟨first, inside⟩ := left (reads.argument (by simp))
    obtain ⟨second, -⟩ := right (reads.argument (by simp))
    refine ⟨rereads_binary operator first inside second spelled, ?_⟩
    simp [binary, Formula.args, first, second]
  | @call name args word spelled each =>
    have all : ∀ x ∈ args, Rereads scope x := fun x hx => (each x hx (reads.argument hx)).1
    exact ⟨rereads_call word all spelled, all⟩

/-- A text is parsed to what its tokens are read as. -/
theorem parse_of_reads {source : String} {tokens : List Token} {o : Option Formula} {r : Formula}
    (scanned : ∃ located, scan source = .ok located ∧
      located.map (·.token) = tokens ++ [.eof])
    (reads : ∀ ts rest : Tokens, Starts ts tokens rest → peek rest = .eof →
      Reads scope .or (12 * tokens.length) ts o rest) :
    parse source scope = .ok r ↔ o = some r := by
  obtain ⟨located, scanned, same⟩ := scanned
  obtain ⟨rest, starts, eof⟩ := starts_of_map same
  have steps : 12 * tokens.length + Level.or.height ≤ 12 * located.length + 12 := by
    have height : Level.or.height = 8 := rfl
    have count := congrArg List.length same
    rw [List.length_map, List.length_append] at count
    omega
  have read : Yields (readAt scope (12 * located.length + 12) .or located) o rest :=
    reads located rest starts eof _ steps
  have whole : parse source scope = ofTokens scope located := by rw [parse, scanned]; rfl
  rw [whole, ofTokens]
  cases o with
  | none =>
    obtain ⟨fault, failed⟩ := read
    rw [failed]
    constructor <;> rintro ⟨⟩
  | some f =>
    have ended : readAt scope (12 * located.length + 12) .or located = .ok (f, rest) := read
    rw [ended]
    show (if peek rest = .eof then Except.ok f else failAt rest .trailing) = .ok r ↔ _
    rw [if_pos eof, Except.ok.injEq, Option.some.injEq]

/-- What the text of a formula is parsed to. -/
theorem parse_source {e r : Formula} (spelled : Spelled scope.columns e) (reads : ReadsBack e) :
    parse e.source scope = .ok r ↔ reread false e = some r :=
  parse_of_reads (scan_of_cut (cut_source spelled reads .nil)) fun ts rest starts eof =>
    (rereads spelled reads).1 .or ts rest (by decide) starts (eof ▸ Stops.eof)

end

end TableFlow.Formula
