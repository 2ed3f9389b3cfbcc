import TableFlow.Proofs.Formula.Printing

/-!
# Texts that are written as tokens

`Token.Written token text` holds of every text of a token, not only of the one that is printed:
an operator may have several signs, a text may stand in either quote, and a number may be written
with any digits. Tokens stand one after the other with white space between them or without any,
as long as no token goes on in the characters of the next one (`Token.Apart`). Such a text scans
to its tokens (`scan_written`).
-/

namespace TableFlow.Formula

open Number

/-! ## Texts of tokens -/

def Symbol.signs : Symbol → List String
  | .ne => ["!=", "<>"]
  | .and => ["&", "&&"]
  | .or => ["|", "||"]
  | .not => ["!"]
  | s => [s.text]

/-- The texts of a token. Digits stand for a whole number below `2 ^ 64`, and all other numbers
are the doubles that their texts read as. -/
inductive Token.Written : Token → List Char → Prop where
  | whole {n text} : Digits text → readNat? text = some n → n < UInt64.size →
      Written (.whole n) text
  | decimal {x text fractional} : NumberText fractional text →
      (fractional = false → ∀ n, readNat? text = some n → UInt64.size ≤ n) →
      readFloat? text = some x → Written (.decimal x) text
  | text {quote s} : quote = '\'' ∨ quote = '"' →
      Written (.text s) (quote :: ((doubled quote s).toList ++ [quote]))
  | name {s} : Written (.name s) ('`' :: ((doubled '`' s).toList ++ ['`']))
  | word {s} : IsWord s → Written (.word s) s.toList
  | op {s sign} : sign ∈ s.signs → Written (.op s) sign.toList
  | leftParen : Written .leftParen ['(']
  | rightParen : Written .rightParen [')']
  | comma : Written .comma [',']
  | dot : Written .dot ['.']

/-- The characters after a token do not go on with it. -/
def Token.Apart (token : Token) (text tail : List Char) : Prop :=
  match token with
  | .whole _ | .decimal _ => NumberEnds tail
  | .text _ | .name _ => ∀ c ∈ tail.head?, text.head? ≠ some c
  | .word _ => ∀ c ∈ tail.head?, continuesWord c = false
  | .op _ => ∀ c ∈ tail.head?, ∀ s : Symbol, String.ofList (text ++ [c]) ∉ s.signs
  | .dot => ∀ c ∈ tail.head?, c.isDigit = false
  | _ => True

/-- Tokens written one after the other, with any white space around them. -/
inductive Written : List Token → List Char → Prop where
  | nil {blank} : (∀ c ∈ blank, Text.isBlank c = true) → Written [] blank
  | cons {blank token text tokens tail} : (∀ c ∈ blank, Text.isBlank c = true) →
      token.Written text → token.Apart text tail → Written tokens tail →
      Written (token :: tokens) (blank ++ text ++ tail)

variable {text tail : List Char} {token : Token} {tokens : List Token}

/-! ## Operators -/

/-- Longer signs win, so a sign is found if the next character does not make it longer. -/
theorem symbolAt?_sign {s : Symbol} {sign : String} (h : sign ∈ s.signs)
    (apart : (Token.op s).Apart sign.toList tail) :
    symbolAt? (sign.toList ++ tail) = some (s, tail) := by
  have longer : ∀ (c : Char) (other : Symbol), String.ofList (sign.toList ++ [c]) ∈ other.signs →
      ∀ rest, tail ≠ c :: rest := by
    rintro c other mem rest rfl
    exact apart c rfl other mem
  cases s with
  | lt =>
    obtain rfl := List.mem_singleton.1 h
    have le := longer '=' .le (by decide)
    have ne := longer '>' .ne (by decide)
    show symbolAt? ('<' :: tail) = _
    rw [symbolAt?] <;> assumption
  | gt =>
    obtain rfl := List.mem_singleton.1 h
    have ge := longer '=' .ge (by decide)
    show symbolAt? ('>' :: tail) = _
    rw [symbolAt?]
    exact ge
  | not =>
    obtain rfl := List.mem_singleton.1 h
    have ne := longer '=' .ne (by decide)
    show symbolAt? ('!' :: tail) = _
    rw [symbolAt?]
    exact ne
  | and =>
    obtain rfl | h := List.mem_cons.1 h
    · have double := longer '&' .and (by decide)
      show symbolAt? ('&' :: tail) = _
      rw [symbolAt?]
      exact double
    · obtain rfl := List.mem_singleton.1 h
      rfl
  | or =>
    obtain rfl | h := List.mem_cons.1 h
    · have double := longer '|' .or (by decide)
      show symbolAt? ('|' :: tail) = _
      rw [symbolAt?]
      exact double
    · obtain rfl := List.mem_singleton.1 h
      rfl
  | ne =>
    obtain rfl | h := List.mem_cons.1 h
    · rfl
    · obtain rfl := List.mem_singleton.1 h
      rfl
  | _ =>
    obtain rfl := List.mem_singleton.1 h
    rfl

/-- A sign starts with a character of its own. -/
theorem sign_head {s : Symbol} {sign : String} (h : sign ∈ s.signs) :
    ∃ c rest, sign.toList = c :: rest ∧ Text.isBlank c = false ∧
      c ∉ ['(', ')', ',', '.', '\'', '"', '`'] := by
  have each : ∀ s : Symbol, ∀ sign ∈ s.signs, sign.toList.head?.any (fun c =>
      Text.isBlank c = false ∧ c ∉ ['(', ')', ',', '.', '\'', '"', '`']) = true := by
    intro s
    cases s <;> decide
  obtain ⟨c, head, plain⟩ := (Option.any_eq_true _ _).1 (each s sign h)
  obtain ⟨rest, text⟩ := List.head?_eq_some_iff.1 head
  exact ⟨c, rest, text, of_decide_eq_true plain⟩

theorem nextToken_sign {s : Symbol} {sign : String} (h : sign ∈ s.signs)
    (apart : (Token.op s).Apart sign.toList tail) :
    nextToken (sign.toList ++ tail) = .ok (.op s, tail) := by
  have symbol := symbolAt?_sign h apart
  obtain ⟨c, rest, text, -, plain⟩ := sign_head h
  rw [text, List.cons_append] at symbol ⊢
  simp only [List.mem_cons, List.not_mem_nil, or_false, not_or] at plain
  have next := nextToken.eq_def (c :: (rest ++ tail))
  simp only [plain, if_false, false_and, or_false, symbol] at next
  exact next

/-! ## Texts -/

/-- A text of a token starts with a character that is no white space. -/
theorem Token.Written.head (written : token.Written text) :
    ∃ c rest, text = c :: rest ∧ Text.isBlank c = false := by
  cases written with
  | whole digits =>
    obtain ⟨c, rest, rfl⟩ := List.exists_cons_of_ne_nil digits.some
    exact ⟨c, rest, rfl, isBlank_digit (digits.each c (List.mem_cons_self ..))⟩
  | decimal number =>
    obtain ⟨c, rest, rfl, digit | ⟨rfl, -⟩⟩ := number.starts
    · exact ⟨c, rest, rfl, isBlank_digit digit⟩
    · exact ⟨'.', rest, rfl, by decide⟩
  | text kind => exact ⟨_, _, rfl, by rcases kind with rfl | rfl <;> decide⟩
  | name => exact ⟨_, _, rfl, by decide⟩
  | word word =>
    obtain ⟨c, rest, same, first, -⟩ := word.letters
    exact ⟨c, rest, same, isBlank_of_startsWord first⟩
  | op sign =>
    obtain ⟨c, rest, same, visible, -⟩ := sign_head sign
    exact ⟨c, rest, same, visible⟩
  | leftParen | rightParen | comma | dot => exact ⟨_, _, rfl, by decide⟩

/-- The next token is the one that is written, up to the end of its text. -/
theorem nextToken_written (written : token.Written text) (apart : token.Apart text tail) :
    nextToken (text ++ tail) = .ok (token, tail) := by
  cases written with
  | whole digits value small => exact nextToken_whole digits value small apart
  | decimal number large value => exact nextToken_numberText number large value apart
  | @text quote s kind =>
    have stop : ∀ c ∈ tail.head?, c ≠ quote := fun c mem same => apart c mem (by simp [same])
    have other : quote ≠ '`' := by rcases kind with rfl | rfl <;> decide
    have next := @nextToken_quoted quote s tail (kind.imp_right .inl) stop
    rw [if_neg other] at next
    simpa using next
  | @name s =>
    have stop : ∀ c ∈ tail.head?, c ≠ '`' := fun c mem same => apart c mem (by simp [same])
    simpa using @nextToken_quoted '`' s tail (.inr (.inr rfl)) stop
  | word word => exact nextToken_word word apart
  | op sign => exact nextToken_sign sign apart
  | leftParen | rightParen | comma => rfl
  | dot =>
    have plain : tail.head?.any Char.isDigit = false := by
      cases head : tail.head? with
      | none => rfl
      | some c => exact apart c head
    simp [nextToken, plain]

theorem cut_token (written : token.Written text) (apart : token.Apart text tail) :
    Cut text [token] tail := by
  have next := nextToken_written written apart
  obtain ⟨c, rest, rfl, visible⟩ := written.head
  exact .one visible next

/-- Written tokens are cut apart again. -/
theorem Written.cut (written : Written tokens text) : Cut text tokens [] := by
  induction written with
  | @nil blank each =>
    refine ⟨Nat.zero_le _, fun size steps => ⟨[], rfl, ?_⟩⟩
    rw [List.append_nil, scanFrom_blank each, scanFrom_blank (List.forall_mem_nil _)]
    rfl
  | @cons blank token text tokens tail each written apart _ ih =>
    have first : Cut (blank ++ text) [token] (tail ++ []) := by
      rw [List.append_nil]
      exact (cut_token written apart).blanks (List.cons_ne_nil _ _) each
    exact first.append ih

/-- A written text scans to its tokens. -/
theorem scan_written {source : String} (written : Written tokens source.toList) :
    ∃ located, scan source = .ok located ∧ located.map (·.token) = tokens ++ [.eof] :=
  scan_of_cut written.cut

end TableFlow.Formula
