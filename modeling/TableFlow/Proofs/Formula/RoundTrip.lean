import TableFlow.Proofs.Formula.Parsed
import TableFlow.Proofs.Formula.Rereading

/-!
# Printing and parsing

A parsed formula is parsed back from its text just if every call of `not` stands where its
text is read as that call (`notsPlaced`).
-/

namespace TableFlow.Formula

/-- Where a formula stands: as an operand of a tight operator, or elsewhere. -/
inductive Place where
  | left
  | right
  | other
  deriving DecidableEq, Repr

mutual

/-- Every call of `not` stands right of a tight operator, or has one argument and does not
stand left of such an operator. -/
def notsPlaced (place : Place) : Formula → Bool
  | constant _ => true
  | column _ => true
  | apply name [a, b] .operator =>
    if tightNames.contains name then notsPlaced .left a && notsPlaced .right b
    else notsPlaced .other a && notsPlaced .other b
  | apply name args _ =>
    (name != "not" || place == .right || (args.length == 1 && place == .other))
      && notsPlacedAll args

def notsPlacedAll : List Formula → Bool
  | [] => true
  | e :: rest => notsPlaced .other e && notsPlacedAll rest

end

variable {columns : List String} {place : Place} {direct : Bool} {name : String}
  {a b e : Formula} {args : List Formula}

theorem notsPlaced_binary : notsPlaced place (binary name a b) =
    if tightNames.contains name then notsPlaced .left a && notsPlaced .right b
    else notsPlaced .other a && notsPlaced .other b := by
  rw [binary, notsPlaced]

theorem notsPlaced_call : notsPlaced place (call name args) =
    ((name != "not" || place == .right || (args.length == 1 && place == .other))
      && notsPlacedAll args) := by
  rw [call, notsPlaced]
  simp

/-- Left of a tight operator a call of `not` is never in its place. -/
theorem notsPlaced_left (spelled : Spelled columns a) :
    notsPlaced .left a = (!isNot a && notsPlaced .other a) := by
  cases spelled with
  | constant => rfl
  | column => rfl
  | binary => rw [notsPlaced_binary, notsPlaced_binary]; rfl
  | @call name args =>
    rw [notsPlaced_call, notsPlaced_call]
    cases same : name == "not" <;> simp [same, bne, call, isNot]

theorem rereadAll_eq_some {args : List Formula}
    (each : ∀ x ∈ args, reread false x = some x ↔ notsPlaced .other x = true) :
    rereadAll args = some args ↔ notsPlacedAll args = true := by
  induction args with
  | nil => simp [rereadAll, notsPlacedAll]
  | cons x args ih =>
    have rest := ih fun y hy => each y (List.mem_cons_of_mem _ hy)
    have first := each x (List.mem_cons_self ..)
    simp [rereadAll, notsPlacedAll, Option.bind_eq_some_iff, first, rest]

/-- An operator is read back just if its operands are and the left one does not start with
the operator `not` in front of a tight one. -/
theorem reread_binary_eq_some : reread direct (binary name a b) = some (binary name a b) ↔
    (tightNames.contains name = true → isNot a = false) ∧ reread false a = some a ∧
      reread (tightNames.contains name) b = some b := by
  rw [reread_binary]
  by_cases under : tightNames.contains name = true ∧ isNot a = true
  · obtain ⟨tight, not⟩ := under
    obtain ⟨args, rfl⟩ := eq_call_of_isNot not
    have call_ne : ∀ operand right, underNot name right (call "not" [operand]) ≠
        binary name (call "not" args) b := by
      intro operand right same
      cases same
    rw [tight, not, reread_not]
    cases notOperand args <;> cases reread true b <;> simp [call_ne]
  · have plain : tightNames.contains name = true → isNot a = false := by simpa using under
    have apart : (tightNames.contains name && isNot a) = false := by simpa using under
    simp only [apart, Bool.false_eq_true, if_false]
    constructor
    · intro h
      obtain ⟨left, first, h⟩ := Option.bind_eq_some_iff.1 h
      obtain ⟨right, second, h⟩ := Option.bind_eq_some_iff.1 h
      cases h
      exact ⟨plain, first, second⟩
    · rintro ⟨-, first, second⟩
      rw [first, second]
      rfl

/-- A call is read back just if its arguments are and `not` is not taken for an operator
without an operand of its own. -/
theorem reread_call_eq_some : reread direct (call name args) = some (call name args) ↔
    (name = "not" → direct = true ∨ args.length = 1) ∧ rereadAll args = some args := by
  rw [reread_call]
  split
  · rename_i refused
    obtain ⟨same, loose, count⟩ := refused
    simp [same, loose, count]
  · rename_i taken
    have free : name = "not" → direct = true ∨ args.length = 1 := by
      cases direct <;> simp_all
    constructor
    · intro h
      obtain ⟨read, all, h⟩ := Option.bind_eq_some_iff.1 h
      cases h
      exact ⟨free, all⟩
    · rintro ⟨-, all⟩
      rw [all]
      rfl

/-- A formula is read back just if every call of `not` is in its place. -/
theorem reread_eq_some (spelled : Spelled columns e) :
    (reread true e = some e ↔ notsPlaced .right e = true) ∧
      (reread false e = some e ↔ notsPlaced .other e = true) := by
  induction spelled with
  | constant => simp [reread, notsPlaced]
  | column => simp [reread, notsPlaced]
  | @binary name a b operator spelled _ left right =>
    have both : ∀ direct place, reread direct (binary name a b) = some (binary name a b) ↔
        notsPlaced place (binary name a b) = true := by
      intro direct place
      rw [reread_binary_eq_some, notsPlaced_binary]
      cases tightNames.contains name with
      | true =>
        rw [if_pos rfl, notsPlaced_left spelled, Bool.and_eq_true, Bool.and_eq_true, ← left.2,
          ← right.1, and_assoc]
        simp
      | false =>
        rw [if_neg Bool.false_ne_true, Bool.and_eq_true, ← left.2, ← right.2]
        simp
    exact ⟨both true .right, both false .other⟩
  | @call name args word _ each =>
    have all := rereadAll_eq_some fun x hx => (each x hx).2
    rw [reread_call_eq_some, reread_call_eq_some, notsPlaced_call, notsPlaced_call,
      Bool.and_eq_true, Bool.and_eq_true, ← all]
    by_cases same : name = "not" <;> simp [same]

/-! ## Parsing back -/

mutual

/-- Formulas are compared head by head; unlike `equal` this identifies NaN with itself. -/
def decEq : (a b : Formula) → Decidable (a = b)
  | constant v, constant w => decidable_of_iff (v = w) (by simp)
  | column a, column b => decidable_of_iff (a = b) (by simp)
  | apply f as p, apply g bs q =>
    match decEqAll as bs with
    | .isTrue same => decidable_of_iff (f = g ∧ p = q) (by simp [same])
    | .isFalse other => .isFalse (by simp [other])
  | constant _, column _ => .isFalse (by simp)
  | constant _, apply .. => .isFalse (by simp)
  | column _, constant _ => .isFalse (by simp)
  | column _, apply .. => .isFalse (by simp)
  | apply .., constant _ => .isFalse (by simp)
  | apply .., column _ => .isFalse (by simp)

def decEqAll : (as bs : List Formula) → Decidable (as = bs)
  | [], [] => .isTrue rfl
  | [], _ :: _ => .isFalse (by simp)
  | _ :: _, [] => .isFalse (by simp)
  | a :: as, b :: bs =>
    match decEq a b, decEqAll as bs with
    | .isTrue first, .isTrue rest => .isTrue (by rw [first, rest])
    | .isFalse first, _ => .isFalse (by simp [first])
    | _, .isFalse rest => .isFalse (by simp [rest])

end

instance : DecidableEq Formula := decEq

/-- The text of a parsed formula is parsed back to it, without any named constants, just if
every call of `not` is in its place. -/
theorem source_parses_back {text : String} {scope : Scope} {e : Formula}
    (parsed : parse text scope = .ok e) (reads : ReadsBack e) :
    parse e.source ⟨scope.columns, .empty⟩ = .ok e ↔ notsPlaced .other e = true := by
  have spelled := parse_spelled parsed
  have again : Spelled (Scope.mk scope.columns .empty).columns e := spelled
  exact (parse_source again reads).trans (reread_eq_some spelled).2

/-- Arguments of a prefix `not` come back, and so does a fraction written without a zero. -/
theorem source_parses_back_half :
    let e := call "not" [binary "<" (column "a") (constant (.float 0.5))]
    parse "not a < .5" ⟨["a"], .empty⟩ = .ok e ∧ ReadsBack e ∧
      (parse e.source ⟨["a"], .empty⟩ = .ok e ↔ notsPlaced .other e = true) := by
  intro e
  have parsed : parse "not a < .5" ⟨["a"], .empty⟩ = .ok e := by decide +kernel
  have reads : ReadsBack e := by
    intro x hx _ _
    have half : x = 0.5 := by simpa [e, constants, constantsOfAll, call, binary] using hx
    subst half
    decide +kernel
  have back := source_parses_back parsed reads
  dsimp only at back
  exact ⟨parsed, reads, back⟩

/-- A call of `not` left of a comparison takes the comparison with it when it is parsed. -/
theorem not_left_parses_apart :
    let e := binary "==" (call "not" [column "a"]) (column "b")
    parse "(not a) == b" ⟨["a", "b"], .empty⟩ = .ok e ∧ ReadsBack e ∧
      e.source = "(not(a) == b)" ∧
      parse e.source ⟨["a", "b"], .empty⟩ =
        .ok (call "not" [binary "==" (column "a") (column "b")]) := by
  intro e
  have reads : ReadsBack e := by
    intro x hx
    simp [e, constants, constantsOfAll, call, binary] at hx
  have parsed : parse "(not a) == b" ⟨["a", "b"], .empty⟩ = .ok e := by decide +kernel
  have text : e.source = "(not(a) == b)" := by decide +kernel
  have again : parse e.source ⟨["a", "b"], .empty⟩ =
      .ok (call "not" [binary "==" (column "a") (column "b")]) := by decide +kernel
  exact ⟨parsed, reads, text, again⟩

end TableFlow.Formula
