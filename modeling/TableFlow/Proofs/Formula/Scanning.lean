import TableFlow.Formula.Scan
import TableFlow.Formula.Source
import TableFlow.Proofs.Number.Numeral
import TableFlow.Proofs.Outcome

/-!
# Scanning text that was put together from tokens

Each kind of token has a lemma that says which text scans to it and where the token ends.
`Cut text tokens tail` says that `text` in front of `tail` is cut into `tokens`; texts are
put together by `Cut.append`. The words that a scan finds are words (`scan_words`).
-/

namespace TableFlow.Formula

/-! ## Characters -/

/-- A letter or an underscore, and then letters, numerals and underscores. -/
def IsWord (name : String) : Prop :=
  match name.toList with
  | [] => False
  | c :: rest => startsWord c = true ∧ ∀ d ∈ rest, continuesWord d = true

instance : DecidablePred IsWord := fun name =>
  match h : name.toList with
  | [] => .isFalse (by simp [IsWord, h])
  | c :: rest => decidable_of_iff ((startsWord c && rest.all continuesWord) = true)
      (by simp [IsWord, h])

theorem isWord_iff {name : String} {c : Char} {rest : List Char} (h : name.toList = c :: rest) :
    IsWord name ↔ startsWord c = true ∧ ∀ d ∈ rest, continuesWord d = true := by
  rw [IsWord, h]

theorem IsWord.letters {name : String} (h : IsWord name) : ∃ c rest, name.toList = c :: rest ∧
    startsWord c = true ∧ ∀ d ∈ rest, continuesWord d = true := by
  cases text : name.toList with
  | nil =>
    rw [IsWord, text] at h
    cases h
  | cons c rest => exact ⟨c, rest, rfl, (isWord_iff text).1 h⟩

theorem isDigit_bounds {c : Char} (h : c.isDigit = true) : 48 ≤ c.toNat ∧ c.toNat ≤ 57 := by
  unfold Char.isDigit at h
  simp only [ge_iff_le, Bool.and_eq_true, decide_eq_true_eq] at h
  exact ⟨UInt32.le_iff_toNat_le.1 h.1, UInt32.le_iff_toNat_le.1 h.2⟩

theorem startsWord_digit {c : Char} (h : c.isDigit = true) : startsWord c = false := by
  have bounds := isDigit_bounds h
  have low : Text.isLetter c = false := Text.inside_cons_of_lt (by omega)
  have line : c ≠ '_' := by
    rintro rfl
    exact absurd bounds (by decide)
  simp [startsWord, low, line]

/-- White space, one by one. -/
theorem isBlank_iff {c : Char} : Text.isBlank c = true ↔
    c.toNat ∈ [9, 10, 11, 12, 13, 32, 133, 160, 5760, 8192, 8193, 8194, 8195, 8196, 8197, 8198,
      8199, 8200, 8201, 8202, 8232, 8233, 8239, 8287, 12288] := by
  simp only [Text.isBlank, Text.blankBounds, Text.inside, Bool.and_eq_true, decide_eq_true_eq,
    Bool.not_eq_true', Bool.and_eq_false_iff, decide_eq_false_iff_not, Bool.not_eq_false',
    Bool.not_false, reduceCtorEq, List.mem_cons, List.not_mem_nil, or_false]
  omega

/-- White space neither starts a word nor goes on with one. -/
theorem blank_apart {c : Char} (blank : Text.isBlank c = true) :
    startsWord c = false ∧ continuesWord c = false := by
  have codes := isBlank_iff.1 blank
  have outside : ∀ n ∈ [9, 10, 11, 12, 13, 32, 133, 160, 5760, 8192, 8193, 8194, 8195, 8196, 8197,
      8198, 8199, 8200, 8201, 8202, 8232, 8233, 8239, 8287, 12288],
      Text.inside Text.letterBounds n = false ∧ Text.inside Text.wordBounds n = false := by
    decide +kernel
  obtain ⟨letter, part⟩ := outside _ codes
  have line : c ≠ '_' := by
    rintro rfl
    exact absurd codes (by decide)
  simp [startsWord, continuesWord, Text.isLetter, Text.isWordPart, letter, part, line]

theorem isBlank_of_startsWord {c : Char} (h : startsWord c = true) : Text.isBlank c = false := by
  rw [Bool.eq_false_iff]
  intro blank
  rw [(blank_apart blank).1] at h
  cases h

/-! ## The ends of tokens -/

/-- What follows a token that was put in: nothing, a space or punctuation. -/
def Break (tail : List Char) : Prop :=
  ∀ c ∈ tail.head?, c = ' ' ∨ c = ')' ∨ c = ',' ∨ c = '('

theorem Break.nil : Break [] := by
  rintro _ ⟨⟩

theorem Break.cons {c : Char} {tail : List Char} (h : c = ' ' ∨ c = ')' ∨ c = ',' ∨ c = '(') :
    Break (c :: tail) := by
  rintro _ ⟨⟩
  exact h

theorem Break.continuesWord {tail : List Char} (h : Break tail) :
    ∀ c ∈ tail.head?, continuesWord c = false := by
  intro c hc
  rcases h c hc with rfl | rfl | rfl | rfl <;> decide

/-- Nothing follows that goes on with a number: no digit, no point before a digit and no
exponent. -/
structure NumberEnds (tail : List Char) : Prop where
  digit : ∀ c ∈ tail.head?, c.isDigit = false
  point : ∀ rest, tail = '.' :: rest → rest.head?.any Char.isDigit = false
  exponent : ∀ c rest, tail = c :: rest → c = 'e' ∨ c = 'E' → exponentFollows rest = false

theorem Break.numberEnds {tail : List Char} (h : Break tail) : NumberEnds tail := by
  refine ⟨fun c hc => ?_, ?_, ?_⟩
  · rcases h c hc with rfl | rfl | rfl | rfl <;> rfl
  · rintro rest rfl
    rcases h '.' rfl with same | same | same | same <;> cases same
  · rintro c rest rfl mark
    rcases h c rfl with rfl | rfl | rfl | rfl <;> rcases mark with same | same <;> cases same

theorem Break.apart {c : Char} {tail : List Char} (h : Break tail)
    (quote : c = '\'' ∨ c = '"' ∨ c = '`') : ∀ d ∈ tail.head?, d ≠ c := by
  intro d hd
  rcases quote with rfl | rfl | rfl <;> rcases h d hd with rfl | rfl | rfl | rfl <;> decide

theorem takeWhile_break {p : Char → Bool} {text tail : List Char} (each : ∀ c ∈ text, p c = true)
    (stop : ∀ c ∈ tail.head?, p c = false) :
    (text ++ tail).takeWhile p = text ∧ (text ++ tail).dropWhile p = tail := by
  induction text with
  | nil =>
    cases tail with
    | nil => exact ⟨rfl, rfl⟩
    | cons c tail =>
      have := stop c rfl
      simp [this]
  | cons c text ih =>
    have hc := each c (List.mem_cons_self ..)
    have := ih fun d hd => each d (List.mem_cons_of_mem _ hd)
    simp [hc, this]

/-! ## Numbers -/

open Number

theorem numberRun_end {f : Bool} {tail : List Char} (h : NumberEnds tail) :
    numberRun f tail = ([], f, tail) := by
  cases tail with
  | nil => unfold numberRun; rfl
  | cons c tail =>
    have digit : c.isDigit = false := h.digit c rfl
    have point : ¬(c = '.' ∧ f = false ∧ tail.head?.any Char.isDigit = true) := by
      rintro ⟨rfl, -, after⟩
      rw [h.point tail rfl] at after
      cases after
    have exponent : ¬((c = 'e' ∨ c = 'E') ∧ exponentFollows tail = true) := by
      rintro ⟨mark, after⟩
      rw [h.exponent c tail rfl mark] at after
      cases after
    unfold numberRun
    rw [digit, if_neg Bool.false_ne_true, if_neg point, if_neg exponent]

theorem numberRun_digits {f g : Bool} {a text tail rest : List Char}
    (digits : ∀ c ∈ a, c.isDigit = true) (h : numberRun f rest = (text, g, tail)) :
    numberRun f (a ++ rest) = (a ++ text, g, tail) := by
  induction a with
  | nil => exact h
  | cons c a ih =>
    have hc := digits c (List.mem_cons_self ..)
    have := ih fun d hd => digits d (List.mem_cons_of_mem _ hd)
    unfold numberRun
    rw [List.cons_append]
    simp only [hc, if_true, this]
    rfl

theorem numberRun_point {g : Bool} {b text tail rest : List Char} (digits : Digits b)
    (h : numberRun true rest = (text, g, tail)) :
    numberRun false ('.' :: (b ++ rest)) = ('.' :: (b ++ text), g, tail) := by
  have run := numberRun_digits digits.each h
  obtain ⟨c, b, rfl⟩ := List.exists_cons_of_ne_nil digits.some
  have hc := digits.each c (List.mem_cons_self ..)
  have point : ('.').isDigit = false := rfl
  unfold numberRun
  simp only [point, Bool.false_eq_true, if_false, List.cons_append, List.head?_cons,
    Option.any_some, hc, and_self, if_true]
  rw [← List.cons_append, run]
  rfl

theorem numberRun_exponent {f : Bool} {mark : Char} {sign c tail : List Char}
    (marks : mark = 'e' ∨ mark = 'E') (signs : sign = [] ∨ sign = ['+'] ∨ sign = ['-'])
    (digits : Digits c) (h : NumberEnds tail) :
    numberRun f (mark :: (sign ++ c) ++ tail) = (mark :: (sign ++ c), true, tail) := by
  have stop : numberRun true tail = ([], true, tail) := numberRun_end h
  have run := numberRun_digits digits.each stop
  obtain ⟨d, c, rfl⟩ := List.exists_cons_of_ne_nil digits.some
  have hd := digits.each d (List.mem_cons_self ..)
  have plus : d ≠ '+' := by rintro rfl; cases hd
  have minus : d ≠ '-' := by rintro rfl; cases hd
  have digit : mark.isDigit = false := by rcases marks with rfl | rfl <;> rfl
  have point : mark ≠ '.' := by rcases marks with rfl | rfl <;> decide
  have follows : exponentFollows (sign ++ d :: (c ++ tail)) = true := by
    rcases signs with rfl | rfl | rfl <;> simp [exponentFollows, hd]
  unfold numberRun
  rcases signs with rfl | rfl | rfl
  all_goals
    simp only [List.nil_append, List.cons_append] at follows run ⊢
    simp [digit, point, marks, follows, plus, minus, run]

/-- Digits, perhaps with a point among or before them and an exponent behind them; `fractional`
where there is a point or an exponent. -/
inductive NumberText : Bool → List Char → Prop where
  | digits {a} : Digits a → NumberText false a
  | point {a b} : (∀ c ∈ a, c.isDigit = true) → Digits b → NumberText true (a ++ '.' :: b)
  | exponent {a mark sign c} : Digits a → mark = 'e' ∨ mark = 'E' →
      sign = [] ∨ sign = ['+'] ∨ sign = ['-'] → Digits c →
      NumberText true (a ++ mark :: (sign ++ c))
  | both {a b mark sign c} : (∀ c ∈ a, c.isDigit = true) → Digits b → mark = 'e' ∨ mark = 'E' →
      sign = [] ∨ sign = ['+'] ∨ sign = ['-'] → Digits c →
      NumberText true (a ++ '.' :: (b ++ mark :: (sign ++ c)))

theorem numberText_of_decimal {text : List Char} (h : DecimalText text) : NumberText true text := by
  cases h with
  | point a b => exact .point a.each b
  | exponent a sign c => exact .exponent a (.inl rfl) (sign.imp_right .inr) c
  | both a b sign c => exact .both a.each b (.inl rfl) (sign.imp_right .inr) c

/-- The text of a number is read up to its end. -/
theorem numberRun_numberText {text tail : List Char} {fractional : Bool}
    (h : NumberText fractional text) (stop : NumberEnds tail) :
    numberRun false (text ++ tail) = (text, fractional, tail) := by
  cases h with
  | digits a =>
    have after : numberRun false tail = ([], false, tail) := numberRun_end stop
    simpa using numberRun_digits a.each after
  | point a b =>
    have fraction := numberRun_point b (numberRun_end stop)
    rw [List.append_nil] at fraction
    rw [List.append_assoc]
    exact numberRun_digits a fraction
  | exponent a mark sign c =>
    rw [List.append_assoc]
    exact numberRun_digits a.each (numberRun_exponent mark sign c stop)
  | both a b mark sign c =>
    have fraction := numberRun_point b (numberRun_exponent mark sign c stop)
    rw [List.append_assoc, List.cons_append, List.append_assoc]
    exact numberRun_digits a fraction

/-! ## Tokens -/

/-- Characters that start neither a word nor a number. -/
def punctuation : List Char :=
  ['(', ')', ',', '.', '\'', '"', '`', '=', '!', '<', '>', '&', '|', '+', '-', '*', '/', '%']

theorem startsWord_not_punctuation {c : Char} (h : startsWord c = true) : c ∉ punctuation := by
  have none : punctuation.all (!startsWord ·) = true := by decide
  intro mem
  have := List.all_eq_true.1 none c mem
  rw [h] at this
  cases this

theorem isDigit_not_punctuation {c : Char} (h : c.isDigit = true) : c ∉ punctuation := by
  have none : punctuation.all (!Char.isDigit ·) = true := by decide
  intro mem
  have := List.all_eq_true.1 none c mem
  rw [h] at this
  cases this

theorem symbolAt?_eq_none {c : Char} {rest : List Char} (h : c ∉ punctuation) :
    symbolAt? (c :: rest) = none := by
  simp only [punctuation, List.mem_cons, List.not_mem_nil, or_false, not_or] at h
  unfold symbolAt?
  split <;> simp_all

theorem nextToken_plain {c : Char} {rest : List Char} (h : c ∉ punctuation) :
    nextToken (c :: rest) =
      if c.isDigit then
        match numberToken? (numberRun false (c :: rest)).1 (numberRun false (c :: rest)).2.1 with
        | some token => .ok (token, (numberRun false (c :: rest)).2.2)
        | none => .error (.invalidNumber (String.ofList (numberRun false (c :: rest)).1))
      else if startsWord c then
        .ok (.word (String.ofList (c :: rest.takeWhile continuesWord)),
          rest.dropWhile continuesWord)
      else .error (.unexpectedCharacter c) := by
  have symbol : symbolAt? (c :: rest) = none := symbolAt?_eq_none h
  simp only [punctuation, List.mem_cons, List.not_mem_nil, or_false, not_or] at h
  have plain := nextToken.eq_def (c :: rest)
  simp only [h, if_false, false_and, or_false, symbol] at plain
  exact plain

theorem nextToken_word {name : String} {tail : List Char} (word : IsWord name)
    (stop : ∀ c ∈ tail.head?, continuesWord c = false) :
    nextToken (name.toList ++ tail) = .ok (.word name, tail) := by
  obtain ⟨c, rest, text, first, others⟩ := word.letters
  have digit : c.isDigit = false := by
    rw [Bool.eq_false_iff]
    intro h
    rw [startsWord_digit h] at first
    cases first
  obtain ⟨take, drop⟩ := takeWhile_break others stop
  rw [text, List.cons_append, nextToken_plain (startsWord_not_punctuation first), digit, first,
    take, drop, ← text, String.ofList_toList]
  rfl

def StartsNumber (text : List Char) : Prop :=
  ∃ c rest, text = c :: rest ∧
    (c.isDigit = true ∨ c = '.' ∧ rest.head?.any Char.isDigit = true)

theorem NumberText.starts {text : List Char} {fractional : Bool} (h : NumberText fractional text) :
    StartsNumber text := by
  have digits : ∀ {a more : List Char}, Digits a → StartsNumber (a ++ more) := by
    intro a more some
    obtain ⟨c, rest, rfl⟩ := List.exists_cons_of_ne_nil some.some
    exact ⟨c, rest ++ more, rfl, .inl (some.each c (List.mem_cons_self ..))⟩
  have point : ∀ {a b more : List Char}, (∀ c ∈ a, c.isDigit = true) → Digits b →
      StartsNumber (a ++ '.' :: (b ++ more)) := by
    intro a b more each some
    cases a with
    | nil =>
      obtain ⟨c, rest, rfl⟩ := List.exists_cons_of_ne_nil some.some
      exact ⟨'.', c :: rest ++ more, rfl, .inr ⟨rfl, by
        simpa using some.each c (List.mem_cons_self ..)⟩⟩
    | cons c a => exact digits ⟨List.cons_ne_nil _ _, each⟩
  cases h with
  | digits some =>
    have whole : StartsNumber (text ++ []) := digits some
    rwa [List.append_nil] at whole
  | @point a b each some =>
    have whole : StartsNumber (a ++ '.' :: (b ++ [])) := point each some
    rwa [List.append_nil] at whole
  | exponent a => exact digits a
  | both a b => exact point a b

theorem nextToken_number {text tail : List Char} {fractional : Bool} {token : Token}
    (starts : StartsNumber text)
    (run : numberRun false (text ++ tail) = (text, fractional, tail))
    (number : numberToken? text fractional = some token) :
    nextToken (text ++ tail) = .ok (token, tail) := by
  obtain ⟨c, rest, rfl, digit | ⟨rfl, follows⟩⟩ := starts
  · rw [List.cons_append] at run ⊢
    rw [nextToken_plain (isDigit_not_punctuation digit), if_pos digit, run, number]
  · have digit : (rest ++ tail).head?.any Char.isDigit = true := by
      cases rest with
      | nil => cases follows
      | cons d rest => exact follows
    have symbol : symbolAt? ('.' :: (rest ++ tail)) = none := by simp [symbolAt?]
    rw [List.cons_append] at run ⊢
    have point := nextToken.eq_def ('.' :: (rest ++ tail))
    simp only [digit, run, number, symbol, Char.reduceEq, Bool.true_eq_false, and_false, if_false,
      or_true, or_false, if_true] at point
    exact point

theorem nextToken_whole {text tail : List Char} {n : Nat} (digits : Digits text)
    (value : readNat? text = some n) (small : n < UInt64.size) (stop : NumberEnds tail) :
    nextToken (text ++ tail) = .ok (.whole n, tail) := by
  have token : numberToken? text false = some (.whole n) := by
    simp only [numberToken?, Bool.false_eq_true, if_false, value, small, if_true]
  have whole : NumberText false text := .digits digits
  exact nextToken_number whole.starts (numberRun_numberText whole stop) token

theorem nextToken_numberText {text tail : List Char} {x : Float} {fractional : Bool}
    (h : NumberText fractional text)
    (large : fractional = false → ∀ n, readNat? text = some n → UInt64.size ≤ n)
    (value : readFloat? text = some x) (stop : NumberEnds tail) :
    nextToken (text ++ tail) = .ok (.decimal x, tail) := by
  have number : numberToken? text fractional = some (.decimal x) := by
    unfold numberToken?
    cases fractional with
    | true => simp [value]
    | false =>
      cases whole : readNat? text with
      | none => simp [value]
      | some n =>
        have := large rfl n whole
        simp [value, show ¬n < UInt64.size by omega]
  exact nextToken_number h.starts (numberRun_numberText h stop) number

theorem nextToken_decimal {text tail : List Char} {x : Float} (h : DecimalText text)
    (value : readFloat? text = some x) (stop : Break tail) :
    nextToken (text ++ tail) = .ok (.decimal x, tail) :=
  nextToken_numberText (numberText_of_decimal h) (fun whole => by cases whole) value
    stop.numberEnds

theorem closeQuote_doubled {quote : Char} {text tail : List Char}
    (stop : ∀ c ∈ tail.head?, c ≠ quote) :
    closeQuote quote ((text.flatMap fun c => if c = quote then [quote, quote] else [c])
      ++ quote :: tail) = some (text, tail) := by
  induction text with
  | nil =>
    cases tail with
    | nil => simp [closeQuote]
    | cons c tail =>
      have := stop c rfl
      simp [closeQuote, this]
  | cons c text ih =>
    by_cases same : c = quote
    · subst same
      simp [closeQuote, ih]
    · rw [List.flatMap_cons, if_neg same, List.append_assoc, List.singleton_append]
      unfold closeQuote
      rw [if_neg same, ih]
      rfl

theorem nextToken_quoted {quote : Char} {text : String} {tail : List Char}
    (kind : quote = '\'' ∨ quote = '"' ∨ quote = '`') (stop : ∀ c ∈ tail.head?, c ≠ quote) :
    nextToken (quote :: ((doubled quote text).toList ++ quote :: tail)) =
      .ok (if quote = '`' then .name text else .text text, tail) := by
  have closed : closeQuote quote ((text.toList.flatMap fun c =>
      if c = quote then [quote, quote] else [c]) ++ quote :: tail) = some (text.toList, tail) :=
    closeQuote_doubled stop
  rw [doubled, String.toList_ofList]
  unfold nextToken
  rcases kind with rfl | rfl | rfl <;> simp [closed]

/-! ## Steps of a scan -/

/-- White space up to the end of a text is dropped. -/
theorem scanFrom_blank {size steps : Nat} {blank : List Char}
    (each : ∀ c ∈ blank, Text.isBlank c = true) :
    scanFrom size steps blank = .ok [⟨.eof, size⟩] := by
  cases steps with
  | zero => rfl
  | succ steps =>
    have none : (blank ++ []).dropWhile Text.isBlank = [] := List.dropWhile_append_of_pos each
    rw [List.append_nil] at none
    rw [scanFrom, none]

/-- White space before a token is dropped, and the token stands where its text starts. -/
theorem scanFrom_next {size steps : Nat} {blank rest tail : List Char} {c : Char} {token : Token}
    (each : ∀ c ∈ blank, Text.isBlank c = true) (visible : Text.isBlank c = false)
    (next : nextToken (c :: rest) = .ok (token, tail)) :
    scanFrom size (steps + 1) (blank ++ c :: rest) =
      (scanFrom size steps tail).map (⟨token, size - (c :: rest).length⟩ :: ·) := by
  rw [scanFrom, List.dropWhile_append_of_pos each,
    List.dropWhile_cons_of_neg (by simp [visible])]
  simp only [next]

/-! ## Texts put together -/

/-- A text is cut into tokens in front of what follows it. Each token has a character of
its own. -/
structure Cut (text : List Char) (tokens : List Token) (tail : List Char) : Prop where
  enough : tokens.length ≤ text.length
  scans : ∀ size steps, ∃ located : List Located, located.map (·.token) = tokens ∧
    scanFrom size (steps + tokens.length) (text ++ tail) =
      (scanFrom size steps tail).map (located ++ ·)

namespace Cut

variable {text a b tail : List Char} {token : Token} {tokens s t : List Token}

theorem append (ha : Cut a s (b ++ tail)) (hb : Cut b t tail) : Cut (a ++ b) (s ++ t) tail := by
  refine ⟨?_, fun size steps => ?_⟩
  · have := ha.enough
    have := hb.enough
    simp only [List.length_append]
    omega
  · obtain ⟨la, ta, first⟩ := ha.scans size (steps + t.length)
    obtain ⟨lb, tb, second⟩ := hb.scans size steps
    refine ⟨la ++ lb, by rw [List.map_append, ta, tb], ?_⟩
    have count : steps + (s ++ t).length = steps + t.length + s.length := by
      rw [List.length_append]
      omega
    rw [count, List.append_assoc, first, second]
    cases scanFrom size steps tail <;> simp [Except.map]

/-- A text that is one token. -/
theorem one {c : Char} (visible : Text.isBlank c = false)
    (next : nextToken (c :: (text ++ tail)) = .ok (token, tail)) :
    Cut (c :: text) [token] tail := by
  refine ⟨by simp, fun size steps => ⟨[⟨token, size - (c :: (text ++ tail)).length⟩], rfl, ?_⟩⟩
  exact scanFrom_next (List.forall_mem_nil _) visible next

/-- White space before a token is dropped. -/
theorem blanks {blank : List Char} (h : Cut text tokens tail) (some : tokens ≠ [])
    (each : ∀ c ∈ blank, Text.isBlank c = true) : Cut (blank ++ text) tokens tail := by
  refine ⟨by have := h.enough; simp only [List.length_append]; omega, fun size steps => ?_⟩
  obtain ⟨located, same, scans⟩ := h.scans size steps
  obtain ⟨n, count⟩ : ∃ n, steps + tokens.length = n + 1 := by
    obtain ⟨_, _, rfl⟩ := List.exists_cons_of_ne_nil some
    exact ⟨_, rfl⟩
  refine ⟨located, same, ?_⟩
  rw [← scans, count, scanFrom, scanFrom, List.append_assoc,
    List.dropWhile_append_of_pos each]

theorem space (h : Cut text tokens tail) (some : tokens ≠ []) : Cut (' ' :: text) tokens tail :=
  h.blanks some (List.forall_mem_singleton.2 (by decide : Text.isBlank ' ' = true))

end Cut

/-- A text that is cut as a whole scans to its tokens and the end. -/
theorem scan_of_cut {source : String} {tokens : List Token} (h : Cut source.toList tokens []) :
    ∃ located, scan source = .ok located ∧ located.map (·.token) = tokens ++ [.eof] := by
  obtain ⟨located, same, scans⟩ :=
    h.scans source.toList.length (source.toList.length - tokens.length)
  have enough := h.enough
  rw [Nat.sub_add_cancel enough, List.append_nil] at scans
  rw [scanFrom_blank (List.forall_mem_nil _)] at scans
  exact ⟨_, scans, by simp [same]⟩

/-! ## Words found -/

theorem numberToken?_ne_word {text : List Char} {f : Bool} {s : String} :
    numberToken? text f ≠ some (.word s) := by
  unfold numberToken?
  split
  · simp
  · split
    · split <;> simp
    · simp

theorem nextToken_words {text : List Char} :
    Ends (nextToken text) (fun r => ∀ s, r.1 = .word s → IsWord s) fun _ => True := by
  fun_cases nextToken text
  case case12 token number =>
    rintro s rfl
    exact absurd number numberToken?_ne_word
  case case14 c rest _ _ _ _ _ _ _ _ _ letter =>
    rintro s ⟨⟩
    rw [IsWord, String.toList_ofList]
    exact ⟨letter, fun d hd => List.all_eq_true.1 List.all_takeWhile d hd⟩
  all_goals first
    | trivial
    | rintro s ⟨⟩

theorem scanFrom_words {size : Nat} (steps : Nat) (text : List Char) :
    Ends (scanFrom size steps text)
      (fun located => ∀ t ∈ located, ∀ s, t.token = .word s → IsWord s) fun _ => True := by
  induction steps generalizing text with
  | zero =>
    rintro t ht s hs
    rw [List.mem_singleton.1 ht] at hs
    cases hs
  | succ steps ih =>
    rw [scanFrom]
    split
    · rintro t ht s hs
      rw [List.mem_singleton.1 ht] at hs
      cases hs
    · rename_i c rest _
      have words := @nextToken_words (c :: rest)
      dsimp only
      split
      · trivial
      · rename_i token tail next
        refine Ends.map ((ih tail).mono (fun located each => ?_) fun _ => id)
        intro t ht s hs
        rcases List.mem_cons.1 ht with rfl | ht
        · exact words.of_eq_ok next s hs
        · exact each t ht s hs

/-- The words among the tokens of a text are words. -/
theorem scan_words {source : String} {located : List Located} (h : scan source = .ok located) :
    ∀ t ∈ located, ∀ s, t.token = .word s → IsWord s :=
  (scanFrom_words _ _).of_eq_ok h

end TableFlow.Formula
