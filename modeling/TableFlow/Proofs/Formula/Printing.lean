import TableFlow.Formula.Parse
import TableFlow.Proofs.Formula.Columns
import TableFlow.Proofs.Formula.Scanning
import TableFlow.Proofs.Number.Special

/-!
# The tokens of a printed formula

`Formula.tokens` writes a formula as the tokens of its text (`cut_source`): what the text
of a formula can be misread as is decided by its tokens alone.
-/

namespace TableFlow.Formula

open Number

/-! ## Formulas that can be written -/

/-- A formula over columns whose operators stand between two arguments and whose functions
have names that read as one word. -/
inductive Spelled (columns : List String) : Formula → Prop where
  | constant {v} : Spelled columns (.constant v)
  | column {name} : name ∈ columns → Spelled columns (.column name)
  | binary {name a b} : name ∈ operatorNames → Spelled columns a → Spelled columns b →
      Spelled columns (binary name a b)
  | call {name args} : IsWord name → (∀ a ∈ args, Spelled columns a) →
      Spelled columns (call name args)

mutual

def constants : Formula → List Value
  | constant v => [v]
  | column _ => []
  | apply _ args _ => constantsOfAll args

def constantsOfAll : List Formula → List Value
  | [] => []
  | e :: rest => constants e ++ constantsOfAll rest

end

theorem mem_constantsOfAll {es : List Formula} {v : Value} :
    v ∈ constantsOfAll es ↔ ∃ e ∈ es, v ∈ e.constants := by
  induction es with
  | nil => simp [constantsOfAll]
  | cons e es ih => simp [constantsOfAll, ih]

/-- The text of every finite double in a formula reads back as that double. -/
def ReadsBack (e : Formula) : Prop :=
  ∀ x, .float x ∈ e.constants → x.isNaN = false → x.isInf = false →
    readFloat? (Value.layout.finite x).toList = some x

theorem ReadsBack.argument {name : String} {args : List Formula} {form : Form} {a : Formula}
    (h : ReadsBack (apply name args form)) (ha : a ∈ args) : ReadsBack a :=
  fun x hx => h x (by simpa [constants] using mem_constantsOfAll.2 ⟨a, ha, hx⟩)

/-! ## Tokens -/

def signs : List Symbol :=
  [.plus, .minus, .times, .divide, .percent, .eq, .ne, .lt, .le, .gt, .ge]

def operatorToken (name : String) : Token :=
  match signs.find? (·.text == name) with
  | some s => .op s
  | none => .word name

def decimalTokens : List Char → List Token
  | '-' :: body => [.op .minus, .decimal ((readFloat? body).getD 0.0)]
  | body => [.decimal ((readFloat? body).getD 0.0)]

def intTokens : Int → List Token
  | .ofNat n => [.whole n]
  | .negSucc n => [.op .minus, .whole (n + 1)]

def valueTokens : Value → List Token
  | .null => [.word "null"]
  | .bool b => [.word (if b then "true" else "false")]
  | .int i => intTokens i.toInt
  | .float x =>
    if x.isNaN then [.word "nan"]
    else if x.isInf then (if x > 0.0 then [.word "inf"] else [.op .minus, .word "inf"])
    else decimalTokens (Value.layout.finite x).toList
  | .text s => [.text s]

def nameToken (name : String) : Token :=
  if isPlainName name then .word name else .name name

mutual

def tokens : Formula → List Token
  | constant v => valueTokens v
  | column name => [nameToken name]
  | apply name [a, b] .operator =>
    .leftParen :: (tokens a ++ operatorToken name :: (tokens b ++ [.rightParen]))
  | apply name args _ => .word name :: .leftParen :: argumentTokens args

def argumentTokens : List Formula → List Token
  | [] => [.rightParen]
  | e :: rest => tokens e ++ moreTokens rest

def moreTokens : List Formula → List Token
  | [] => [.rightParen]
  | e :: rest => .comma :: (tokens e ++ moreTokens rest)

end

theorem tokens_binary {name : String} {a b : Formula} : (binary name a b).tokens =
    .leftParen :: (a.tokens ++ operatorToken name :: (b.tokens ++ [.rightParen])) := by
  rw [binary, tokens]

theorem tokens_call {name : String} {args : List Formula} :
    (call name args).tokens = .word name :: .leftParen :: argumentTokens args := by
  rw [call, tokens]
  simp

theorem moreTokens_cons {e : Formula} {rest : List Formula} :
    moreTokens (e :: rest) = .comma :: argumentTokens (e :: rest) := by
  rw [moreTokens, argumentTokens]

/-! ## Single tokens -/

section

variable {tail : List Char}

theorem cut_word {name : String} (word : IsWord name)
    (stop : ∀ c ∈ tail.head?, continuesWord c = false) : Cut name.toList [.word name] tail := by
  have next := nextToken_word word stop
  obtain ⟨c, rest, text, first, -⟩ := word.letters
  rw [text] at next ⊢
  exact .one (isBlank_of_startsWord first) next

theorem small_of_isAlphanum {c : Char} (h : c.isAlphanum = true) : c.toNat < 128 := by
  unfold Char.isAlphanum Char.isAlpha Char.isUpper Char.isLower Char.isDigit at h
  simp only [ge_iff_le, Bool.or_eq_true, Bool.and_eq_true, decide_eq_true_eq,
    UInt32.le_iff_toNat_le] at h
  have code : c.val.toNat = c.toNat := rfl
  have ends : 'Z'.val.toNat = 90 ∧ 'z'.val.toNat = 122 ∧ '9'.val.toNat = 57 := ⟨rfl, rfl, rfl⟩
  omega

/-- ASCII letters and digits are letters and numerals. -/
theorem word_of_ascii {c : Char} (h : c.isAlphanum = true) :
    continuesWord c = true ∧ (c.isAlpha = true → startsWord c = true) := by
  have all : ∀ n < 128, (Char.ofNat n).isAlphanum = true →
      continuesWord (Char.ofNat n) = true ∧
        ((Char.ofNat n).isAlpha = true → startsWord (Char.ofNat n) = true) := by
    decide
  have := all c.toNat (small_of_isAlphanum h)
  rw [Char.ofNat_toNat] at this
  exact this h

theorem word_of_isPlainName {name : String} (h : isPlainName name = true) :
    IsWord name ∧ name ∉ keywords := by
  unfold isPlainName at h
  split at h
  · cases h
  · rename_i c rest text
    simp only [Bool.and_eq_true, Bool.or_eq_true, beq_iff_eq, List.all_eq_true,
      Bool.not_eq_true', List.contains_eq_mem, decide_eq_false_iff_not] at h
    obtain ⟨⟨first, others⟩, free⟩ := h
    refine ⟨(isWord_iff text).2 ⟨?_, fun d hd => ?_⟩, free⟩
    · rcases first with letter | rfl
      · have part : c.isAlphanum = true := Bool.or_eq_true_iff.2 (.inl letter)
        exact (word_of_ascii part).2 letter
      · decide
    · rcases others d hd with part | rfl
      · exact (word_of_ascii part).1
      · decide

theorem cut_quoted {quote : Char} {text : String}
    (kind : quote = '\'' ∨ quote = '"' ∨ quote = '`') (stop : ∀ c ∈ tail.head?, c ≠ quote) :
    Cut (quote :: ((doubled quote text).toList ++ [quote]))
      [if quote = '`' then .name text else .text text] tail := by
  have visible : Text.isBlank quote = false := by rcases kind with rfl | rfl | rfl <;> decide
  refine .one visible ?_
  rw [List.append_assoc, List.singleton_append]
  exact nextToken_quoted kind stop

theorem cut_name {name : String} (stop : Break tail) :
    Cut (nameSource name).toList [nameToken name] tail := by
  unfold nameSource nameToken
  by_cases plain : isPlainName name = true
  · rw [if_pos plain, if_pos plain]
    exact cut_word (word_of_isPlainName plain).1 stop.continuesWord
  · rw [if_neg plain, if_neg plain]
    have mark : "`".toList = ['`'] := rfl
    rw [String.toList_append, String.toList_append, mark]
    exact cut_quoted (.inr (.inr rfl)) (stop.apart (.inr (.inr rfl)))

theorem cut_operator {name : String} (h : name ∈ operatorNames) :
    Cut name.toList [operatorToken name] (' ' :: tail) := by
  simp only [operatorNames, List.mem_cons, List.not_mem_nil, or_false] at h
  rcases h with rfl | rfl | rfl | rfl | rfl | rfl | rfl | rfl | rfl | rfl | rfl | rfl | rfl <;>
    exact .one (by decide) rfl

theorem isBlank_digit {c : Char} (h : c.isDigit = true) : Text.isBlank c = false := by
  rw [Bool.eq_false_iff]
  intro blank
  have codes := isBlank_iff.1 blank
  have bounds := isDigit_bounds h
  simp only [List.mem_cons, List.not_mem_nil, or_false] at codes
  omega

theorem cut_whole {text : List Char} {n : Nat} (digits : Digits text)
    (value : readNat? text = some n) (small : n < UInt64.size) (stop : NumberEnds tail) :
    Cut text [.whole n] tail := by
  have next := nextToken_whole digits value small stop
  obtain ⟨c, rest, rfl⟩ := List.exists_cons_of_ne_nil digits.some
  exact .one (isBlank_digit (digits.each c (List.mem_cons_self ..))) next

theorem cut_decimal {text : List Char} {x : Float} (h : DecimalText text)
    (value : readFloat? text = some x) (stop : Break tail) : Cut text [.decimal x] tail := by
  have next := nextToken_decimal h value stop
  obtain ⟨c, rest, rfl, digit⟩ := h.head
  exact .one (isBlank_digit digit) next

theorem cut_minus {text : List Char} {tokens : List Token} (h : Cut text tokens tail) :
    Cut ('-' :: text) (.op .minus :: tokens) tail := by
  have sign : Cut ['-'] [.op .minus] (text ++ tail) := .one (by decide) rfl
  exact sign.append h

/-! ## Constants -/

theorem decimal_head {text : List Char} (h : DecimalText text) : ∀ rest, text ≠ '-' :: rest := by
  rintro rest rfl
  obtain ⟨c, more, same, digit⟩ := h.head
  cases same
  cases digit

theorem readFloat?_minus {text : List Char} (h : DecimalText text) :
    readFloat? ('-' :: text) = (readFloat? text).map (-·) := by
  have unsigned : splitSign text = (false, text) := by
    obtain ⟨c, rest, rfl, digit⟩ := h.head
    have minus : c ≠ '-' := by rintro rfl; cases digit
    have plus : c ≠ '+' := by rintro rfl; cases digit
    unfold splitSign
    split <;> simp_all
  have negative : splitSign ('-' :: text) = (true, text) := rfl
  unfold readFloat?
  rw [unsigned, negative, Option.map_map]
  rfl

theorem decimalTokens_plain {text : List Char} (h : DecimalText text) :
    decimalTokens text = [.decimal ((readFloat? text).getD 0.0)] := by
  unfold decimalTokens
  split
  · exact absurd rfl (decimal_head h _)
  · rfl

theorem cut_toString {n : Nat} (small : n < UInt64.size) (stop : Break tail) :
    Cut (toString n).toList [.whole n] tail :=
  cut_whole (digits_toString n) (readNat?_toString n) small stop.numberEnds

theorem cut_int {i : Int64} (stop : Break tail) :
    Cut (toString i.toInt).toList (intTokens i.toInt) tail := by
  have low := i.minValue_le_toInt
  have high := i.toInt_le
  rw [Int64.toInt_minValue] at low
  rw [Int64.toInt_maxValue] at high
  generalize i.toInt = n at *
  have size : UInt64.size = 2 ^ 64 := rfl
  cases n with
  | ofNat n =>
    have small : n < UInt64.size := by
      rw [Int.ofNat_eq_natCast] at high
      omega
    exact cut_toString small stop
  | negSucc n =>
    have small : n + 1 < UInt64.size := by omega
    have text : toString (Int.negSucc n) = "-" ++ toString (n + 1) := rfl
    rw [text, String.toList_append]
    exact cut_minus (cut_toString small stop)

theorem cut_finite {x : Float} (reads : readFloat? (Value.layout.finite x).toList = some x)
    (stop : Break tail) :
    Cut (Value.layout.finite x).toList (decimalTokens (Value.layout.finite x).toList) tail := by
  obtain ⟨body, decimal, plain | negative⟩ := finite_text x
  · rw [plain] at reads ⊢
    rw [decimalTokens_plain decimal, reads]
    exact cut_decimal decimal reads stop
  · rw [negative] at reads ⊢
    rw [readFloat?_minus decimal] at reads
    obtain ⟨y, value, -⟩ := Option.map_eq_some_iff.1 reads
    rw [decimalTokens, value]
    exact cut_minus (cut_decimal decimal value stop)

theorem cut_float {x : Float} (stop : Break tail)
    (reads : x.isNaN = false → x.isInf = false →
      readFloat? (Value.layout.finite x).toList = some x) :
    Cut (Value.floatText x).toList (valueTokens (.float x)) tail := by
  have nan : IsWord "nan" := by decide
  have inf : IsWord "inf" := by decide
  rw [valueTokens, Value.floatText]
  split
  · exact cut_word nan stop.continuesWord
  · rename_i number
    split
    · split
      · exact cut_word inf stop.continuesWord
      · exact cut_minus (cut_word inf stop.continuesWord)
    · rename_i finite
      exact cut_finite (reads (by simpa using number) (by simpa using finite)) stop

theorem cut_value {v : Value} (stop : Break tail) (reads : ReadsBack (.constant v)) :
    Cut (valueSource v).toList (valueTokens v) tail := by
  cases v with
  | null => exact cut_word (show IsWord "null" by decide) stop.continuesWord
  | bool b =>
    cases b
    · exact cut_word (show IsWord "false" by decide) stop.continuesWord
    · exact cut_word (show IsWord "true" by decide) stop.continuesWord
  | int i => exact cut_int stop
  | float x => exact cut_float stop (reads x (by simp [constants]))
  | text s =>
    have mark : "'".toList = ['\''] := rfl
    rw [valueSource, String.toList_append, String.toList_append, mark]
    exact cut_quoted (.inl rfl) (stop.apart (.inl rfl))

/-! ## Formulas -/

theorem cut_close : Cut [')'] [.rightParen] tail := .one (by decide) rfl

theorem cut_arguments {first : Formula} {rest : List Formula}
    (each : ∀ a ∈ first :: rest, ∀ tail, Break tail → Cut a.source.toList a.tokens tail) :
    Cut ((", ".intercalate (sources (first :: rest))).toList ++ [')'])
      (argumentTokens (first :: rest)) tail := by
  have read := each first (List.mem_cons_self ..)
  induction rest generalizing first with
  | nil =>
    rw [sources, sources, String.intercalate_singleton, argumentTokens, moreTokens]
    exact (read _ (.cons (by simp))).append cut_close
  | cons next rest ih =>
    have others := ih (fun a ha => each a (List.mem_cons_of_mem _ ha)) (each next (by simp))
    have some : argumentTokens (next :: rest) ≠ [] := by
      cases rest <;> simp [argumentTokens, moreTokens]
    have comma : Cut [','] [.comma] (' ' :: ((", ".intercalate (sources (next :: rest))).toList
        ++ [')']) ++ tail) := .one (by decide) rfl
    have mark : ", ".toList = [',', ' '] := rfl
    have more := (read _ (.cons (by simp))).append (comma.append (others.space some))
    rw [argumentTokens, moreTokens_cons, sources, sources, String.intercalate_cons_cons,
      String.toList_append, String.toList_append, mark]
    rw [sources] at more
    simpa using more

/-- The text of a formula is cut into the formula's tokens. -/
theorem cut_source {columns : List String} {e : Formula} (spelled : Spelled columns e)
    (reads : ReadsBack e) (stop : Break tail) : Cut e.source.toList e.tokens tail := by
  induction spelled generalizing tail with
  | constant => exact cut_value stop reads
  | column => exact cut_name stop
  | @binary name a b operator _ _ left right =>
    have space : ∀ text, Break (' ' :: text) := fun _ => .cons (.inl rfl)
    have second : Cut (b.source.toList ++ [')']) (b.tokens ++ [.rightParen]) tail :=
      (right (reads.argument (by simp)) (.cons (by simp))).append cut_close
    have symbol : Cut name.toList [operatorToken name]
        (' ' :: (b.source.toList ++ [')']) ++ tail) := cut_operator operator
    have others := symbol.append (second.space (by simp))
    have first := (left (reads.argument (by simp)) (space _)).append (others.space (by simp))
    have paren : Cut ['('] [.leftParen] (a.source.toList ++
        ' ' :: (name.toList ++ ' ' :: (b.source.toList ++ [')'])) ++ tail) := .one (by decide) rfl
    have text : (binary name a b).source.toList = ['('] ++ (a.source.toList ++
        ' ' :: (name.toList ++ ' ' :: (b.source.toList ++ [')']))) := by
      simp [binary, source]
    rw [text, tokens_binary]
    simpa using paren.append first
  | @call name args word _ each =>
    have text : (call name args).source.toList =
        name.toList ++ (['('] ++ ((", ".intercalate (sources args)).toList ++ [')'])) := by
      simp [call, source]
    have inside : Cut ((", ".intercalate (sources args)).toList ++ [')'])
        (argumentTokens args) tail := by
      cases args with
      | nil => exact cut_close
      | cons first rest =>
        exact cut_arguments fun a ha tail stop => each a ha (reads.argument ha) stop
    have paren : Cut ['('] [.leftParen] ((", ".intercalate (sources args)).toList ++ [')']
        ++ tail) := .one (by decide) rfl
    rw [text, tokens_call]
    exact (cut_word word (Break.continuesWord (.cons (by simp)))).append (paren.append inside)

end

end TableFlow.Formula
