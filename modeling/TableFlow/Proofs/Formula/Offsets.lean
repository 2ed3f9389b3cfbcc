import TableFlow.Proofs.Formula.Writing

/-!
# Where tokens stand in a text

`Lexeme` is a text of a token behind its white space, and `layout` writes lexemes one after the
other. With white space between neighbours no token goes on in the next one, whatever the two
are, so the text scans to just the tokens that were written, each at the number of characters
before its own text (`scan_layout`). `locate` counts these from the lexemes alone; the scan
counts them from the end of the text.
-/

namespace TableFlow.Formula

open Number

/-! ## Lexemes -/

/-- The texts of a token, among them the text that is printed for a double. A double with a sign
is printed as two tokens, and so is the negative zero. -/
inductive Token.Spelled : Token → List Char → Prop where
  | written {token text} : token.Written text → Spelled token text
  | printed {x} : x.isNaN = false → x.isInf = false → (Binary.ofFloat x).negative = false →
      readFloat? (Value.floatText x).toList = some x →
      Spelled (.decimal x) (Value.floatText x).toList

structure Lexeme where
  blank : List Char
  text : List Char
  token : Token

structure Lexeme.Spelled (l : Lexeme) : Prop where
  blank : ∀ c ∈ l.blank, Text.isBlank c = true
  text : l.token.Spelled l.text

/-- Lexemes one after the other, and white space behind the last one. -/
def layout : List Lexeme → List Char → List Char
  | [], trailing => trailing
  | l :: more, trailing => l.blank ++ (l.text ++ layout more trailing)

/-- The tokens of lexemes that follow `start` characters, with the characters before each. -/
def locate (start : Nat) : List Lexeme → List Located
  | [] => []
  | l :: more =>
    ⟨l.token, start + l.blank.length⟩ :: locate (start + l.blank.length + l.text.length) more

variable {text tail blank trailing : List Char} {token : Token} {l : Lexeme}
  {lexemes : List Lexeme}

/-! ## White space ends a token -/

theorem Token.Spelled.toWritten (h : token.Spelled text) : token.Written text := by
  cases h with
  | written written => exact written
  | @printed x number finite plain reads =>
    obtain ⟨body, decimal, same⟩ := finite_sign x
    have printed : (Value.floatText x).toList = body := by
      rw [Value.floatText, number, finite]
      simpa [plain] using same
    rw [printed] at reads ⊢
    exact .decimal (numberText_of_decimal decimal) (fun whole => by cases whole) reads

theorem numberEnds_blank (stop : ∀ c ∈ tail.head?, Text.isBlank c = true) : NumberEnds tail where
  digit c mem := by
    rw [Bool.eq_false_iff]
    intro digit
    have visible := isBlank_digit digit
    rw [stop c mem] at visible
    cases visible
  point := by
    rintro rest rfl
    exact absurd (stop '.' rfl) (by decide)
  exponent := by
    rintro c rest rfl mark
    have blank := stop c rfl
    rcases mark with rfl | rfl <;> exact absurd blank (by decide)

theorem sign_visible {s : Symbol} {sign : String} (h : sign ∈ s.signs) :
    ∀ c ∈ sign.toList, Text.isBlank c = false := by
  have each : ∀ s : Symbol, ∀ sign ∈ s.signs, sign.toList.all (!Text.isBlank ·) = true := by
    intro s
    cases s <;> decide
  simpa using each s sign h

/-- No token goes on in white space. -/
theorem Token.Written.apart_blank (written : token.Written text)
    (stop : ∀ c ∈ tail.head?, Text.isBlank c = true) : token.Apart text tail := by
  obtain ⟨first, rest, start, visible⟩ := written.head
  cases token with
  | whole | decimal => exact numberEnds_blank stop
  | text | name =>
    intro c mem same
    rw [start, List.head?_cons, Option.some.injEq] at same
    rw [same, stop c mem] at visible
    cases visible
  | word => exact fun c mem => (blank_apart (stop c mem)).2
  | op =>
    intro c mem s longer
    have visible := sign_visible longer c (by simp)
    rw [stop c mem] at visible
    cases visible
  | dot => exact (numberEnds_blank stop).digit
  | _ => trivial

/-- White space, or nothing, follows a token whose successors are set apart. -/
theorem head_layout (spelled : ∀ l ∈ lexemes, l.Spelled)
    (separated : ∀ l ∈ lexemes, l.blank ≠ [])
    (ended : ∀ c ∈ trailing, Text.isBlank c = true) :
    ∀ c ∈ (layout lexemes trailing).head?, Text.isBlank c = true := by
  intro c mem
  cases lexemes with
  | nil => exact ended c (List.mem_of_mem_head? mem)
  | cons l more =>
    obtain ⟨space, spaces, blank⟩ :=
      List.exists_cons_of_ne_nil (separated l (List.mem_cons_self ..))
    have first : space = c := by simpa [layout, blank] using mem
    exact (spelled l (List.mem_cons_self ..)).blank c (by simp [blank, first])

/-! ## The scan -/

/-- One step of a scan: white space and the text of a token are taken off, and the token stands
at the characters before its text. -/
theorem scanFrom_written {size steps : Nat} (each : ∀ c ∈ blank, Text.isBlank c = true)
    (written : token.Written text) (apart : token.Apart text tail) :
    scanFrom size (steps + 1) (blank ++ (text ++ tail)) =
      (scanFrom size steps tail).map (⟨token, size - (text ++ tail).length⟩ :: ·) := by
  have next := nextToken_written written apart
  obtain ⟨c, rest, rfl, visible⟩ := written.head
  exact scanFrom_next each visible next

/-- What is left of a text is scanned from where it starts. -/
theorem scanFrom_layout {start steps : Nat} (spelled : ∀ l ∈ lexemes, l.Spelled)
    (separated : ∀ l ∈ lexemes.tail, l.blank ≠ [])
    (ended : ∀ c ∈ trailing, Text.isBlank c = true) (enough : lexemes.length ≤ steps) :
    scanFrom (start + (layout lexemes trailing).length) steps (layout lexemes trailing) =
      .ok (locate start lexemes ++ [⟨.eof, start + (layout lexemes trailing).length⟩]) := by
  induction lexemes generalizing start steps with
  | nil => exact scanFrom_blank ended
  | cons l more ih =>
    cases steps with
    | zero => exact absurd enough (Nat.not_succ_le_zero _)
    | succ steps =>
      obtain ⟨first, others⟩ := List.forall_mem_cons.1 spelled
      have apart := first.text.toWritten.apart_blank (head_layout others separated ended)
      have rest := @ih (start + l.blank.length + l.text.length) steps others
        (fun m mem => separated m (List.mem_of_mem_tail mem)) (Nat.le_of_succ_le_succ enough)
      have size : start + (layout (l :: more) trailing).length =
          start + l.blank.length + l.text.length + (layout more trailing).length := by
        simp only [layout, List.length_append]
        omega
      -- What is left of the text is taken off its size, and the offset remains.
      have offset : start + l.blank.length + l.text.length + (layout more trailing).length -
          (l.text ++ layout more trailing).length = start + l.blank.length := by
        rw [List.length_append]
        omega
      rw [size, layout, scanFrom_written first.blank first.text.toWritten apart, rest, offset]
      rfl

theorem length_le_layout (spelled : ∀ l ∈ lexemes, l.Spelled) :
    lexemes.length ≤ (layout lexemes trailing).length := by
  induction lexemes with
  | nil => exact Nat.zero_le _
  | cons l more ih =>
    obtain ⟨first, others⟩ := List.forall_mem_cons.1 spelled
    obtain ⟨c, rest, text, -⟩ := first.text.toWritten.head
    have := ih others
    simp only [layout, text, List.length_append, List.length_cons]
    omega

/-- Texts of tokens with white space between neighbours, and with any white space around them,
scan to the tokens and the end, each at the number of characters before its text. -/
theorem scan_layout (spelled : ∀ l ∈ lexemes, l.Spelled)
    (separated : ∀ l ∈ lexemes.tail, l.blank ≠ [])
    (ended : ∀ c ∈ trailing, Text.isBlank c = true) :
    scan (String.ofList (layout lexemes trailing)) =
      .ok (locate 0 lexemes ++ [⟨.eof, (layout lexemes trailing).length⟩]) := by
  have enough := @length_le_layout trailing lexemes spelled
  have run := @scanFrom_layout trailing lexemes 0 _ spelled separated ended enough
  rw [Nat.zero_add] at run
  rw [scan, String.toList_ofList]
  exact run

/-- Two signs for an operator, the printed text of a double and a quote in a text. -/
theorem scan_layout_signs :
    let lexemes : List Lexeme := [
      ⟨[' '], "x".toList, .word "x"⟩,
      ⟨[' '], "<>".toList, .op .ne⟩,
      ⟨['\n'], (Value.floatText 1e16).toList, .decimal 1e16⟩,
      ⟨['\t'], "&".toList, .op .and⟩,
      ⟨[' '], '\'' :: ((doubled '\'' "it's").toList ++ ['\'']), .text "it's"⟩]
    (∀ l ∈ lexemes, l.Spelled) ∧ (∀ l ∈ lexemes.tail, l.blank ≠ []) ∧
      scan " x <>\n1e16\t& 'it''s' " = .ok [⟨.word "x", 1⟩, ⟨.op .ne, 3⟩, ⟨.decimal 1e16, 6⟩,
        ⟨.op .and, 11⟩, ⟨.text "it's", 13⟩, ⟨.eof, 21⟩] := by
  intro lexemes
  have space : ∀ c ∈ [' '], Text.isBlank c = true := List.forall_mem_singleton.2 (by decide)
  have line : ∀ c ∈ ['\n'], Text.isBlank c = true := List.forall_mem_singleton.2 (by decide)
  have tab : ∀ c ∈ ['\t'], Text.isBlank c = true := List.forall_mem_singleton.2 (by decide)
  have finite : Token.Spelled (.decimal 1e16) (Value.floatText 1e16).toList :=
    .printed (by decide +kernel) (by decide +kernel) (by decide +kernel) (by decide +kernel)
  have spelled : ∀ l ∈ lexemes, l.Spelled := by
    simp only [lexemes, List.forall_mem_cons, List.not_mem_nil, false_implies, implies_true,
      and_true]
    exact ⟨⟨space, .written (.word (by decide))⟩, ⟨space, .written (.op (by decide))⟩,
      ⟨line, finite⟩, ⟨tab, .written (.op (by decide))⟩, ⟨space, .written (.text (.inl rfl))⟩⟩
  have separated : ∀ l ∈ lexemes.tail, l.blank ≠ [] := by decide
  have scans := scan_layout spelled separated space
  refine ⟨spelled, separated, (congrArg scan ?_).trans (scans.trans ?_)⟩
  · decide +kernel
  · decide +kernel

end TableFlow.Formula
