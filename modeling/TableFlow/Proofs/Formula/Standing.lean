import TableFlow.Proofs.Formula.RoundTrip

/-!
# Where calls stand

The parts of a formula, each with the place where it stands (`HasPart`). The text of any
formula that can be spelled is parsed back to it just if no part of it is a call of `not`
at a place where the word is taken for the operator (`spelled_parses_back`).
-/

namespace TableFlow.Formula

/-- A formula that stands at a place has a part that stands at a place. -/
inductive HasPart : Place → Formula → Place → Formula → Prop where
  | whole {place e} : HasPart place e place e
  | left {place at' name a b x} : name ∈ tightNames → HasPart .left a at' x →
      HasPart place (binary name a b) at' x
  | right {place at' name a b x} : name ∈ tightNames → HasPart .right b at' x →
      HasPart place (binary name a b) at' x
  | side {place at' name a b e x} : name ∉ tightNames → e ∈ [a, b] → HasPart .other e at' x →
      HasPart place (binary name a b) at' x
  | argument {place at' name args e x} : e ∈ args → HasPart .other e at' x →
      HasPart place (call name args) at' x

/-- A call of `not` is read as a call right of a tight operator; elsewhere the word is the
operator, which has one operand and does not stand left of a tight one. -/
def ReadAsCall (place : Place) (args : List Formula) : Prop :=
  place = .right ∨ args.length = 1 ∧ place ≠ .left

/-- Every call of `not` in a formula is read as a call. -/
def NotsFit (place : Place) (e : Formula) : Prop :=
  ∀ at' args, HasPart place e at' (call "not" args) → ReadAsCall at' args

variable {columns : List String} {place : Place} {name : String} {a b e : Formula}
  {args : List Formula}

theorem notsFit_constant {v : Value} : NotsFit place (constant v) := by
  rintro at' args ⟨⟩

theorem notsFit_column : NotsFit place (column name) := by
  rintro at' args ⟨⟩

theorem notsFit_tight (tight : name ∈ tightNames) :
    NotsFit place (binary name a b) ↔ NotsFit .left a ∧ NotsFit .right b := by
  constructor
  · exact fun fit => ⟨fun at' args part => fit at' args (.left tight part),
      fun at' args part => fit at' args (.right tight part)⟩
  · rintro ⟨first, second⟩ at' args part
    cases part with
    | left _ part => exact first at' args part
    | right _ part => exact second at' args part
    | side loose => exact absurd tight loose

theorem notsFit_loose (loose : name ∉ tightNames) :
    NotsFit place (binary name a b) ↔ NotsFit .other a ∧ NotsFit .other b := by
  constructor
  · exact fun fit => ⟨fun at' args part => fit at' args (.side loose (by simp) part),
      fun at' args part => fit at' args (.side loose (by simp) part)⟩
  · rintro ⟨first, second⟩ at' args part
    cases part with
    | left tight => exact absurd tight loose
    | right tight => exact absurd tight loose
    | side _ mem part =>
      rcases List.mem_pair.1 mem with rfl | rfl
      · exact first at' args part
      · exact second at' args part

theorem notsFit_call : NotsFit place (call name args) ↔
    (name = "not" → ReadAsCall place args) ∧ ∀ x ∈ args, NotsFit .other x := by
  constructor
  · refine fun fit => ⟨?_, fun x mem at' inner part => fit at' inner (.argument mem part)⟩
    rintro rfl
    exact fit place args .whole
  · rintro ⟨here, inside⟩ at' inner part
    cases part with
    | whole => exact here rfl
    | argument mem part => exact inside _ mem at' inner part

theorem notsPlacedAll_iff : notsPlacedAll args = true ↔ ∀ x ∈ args, notsPlaced .other x = true := by
  induction args with
  | nil => simp [notsPlacedAll]
  | cons x args ih => simp [notsPlacedAll, ih]

/-- The check of a formula's calls of `not` looks at every one of them. -/
theorem notsPlaced_iff (spelled : Spelled columns e) :
    notsPlaced place e = true ↔ NotsFit place e := by
  induction spelled generalizing place with
  | constant => exact iff_of_true rfl notsFit_constant
  | column => exact iff_of_true rfl notsFit_column
  | @binary name a b _ _ _ left right =>
    rw [notsPlaced_binary]
    by_cases tight : name ∈ tightNames
    · rw [if_pos (List.contains_iff_mem.2 tight), Bool.and_eq_true, left, right,
        notsFit_tight tight]
    · rw [if_neg (mt List.contains_iff_mem.1 tight), Bool.and_eq_true, left, right,
        notsFit_loose tight]
  | @call name args _ _ each =>
    have inside : notsPlacedAll args = true ↔ ∀ x ∈ args, NotsFit .other x :=
      notsPlacedAll_iff.trans (forall₂_congr fun x mem => each x mem)
    rw [notsPlaced_call, Bool.and_eq_true, inside, notsFit_call]
    refine and_congr_left fun _ => ?_
    by_cases same : name = "not" <;> cases place <;> simp [same, ReadAsCall]

/-- The text of a formula that can be spelled is parsed back to it, without any named
constants, just if each call of `not` in it stands right of a tight operator, or has one
argument and does not stand left of such an operator. -/
theorem spelled_parses_back (spelled : Spelled columns e) (reads : ReadsBack e) :
    parse e.source ⟨columns, .empty⟩ = .ok e ↔
      ∀ place args, HasPart .other e place (call "not" args) →
        place = .right ∨ args.length = 1 ∧ place ≠ .left := by
  have spelled' : Spelled (Scope.mk columns .empty).columns e := spelled
  exact (parse_source spelled' reads).trans
    ((reread_eq_some spelled).2.trans (notsPlaced_iff spelled))

/-- A `not` of two arguments comes back as a right operand, beside names that need quotes,
the least integer, a fraction and a function that is called like a keyword. -/
theorem spelled_parses_back_right :
    let e := binary "<" (call "true" [column "", int Int64.minValue])
      (call "not" [column "a`b", constant (.float 0.5)])
    Spelled ["", "a`b"] e ∧ ReadsBack e ∧
      (parse e.source ⟨["", "a`b"], .empty⟩ = .ok e ↔
        ∀ place args, HasPart .other e place (call "not" args) →
          place = .right ∨ args.length = 1 ∧ place ≠ .left) := by
  intro e
  have left : Spelled ["", "a`b"] (call "true" [column "", int Int64.minValue]) := by
    refine .call (by decide +kernel) fun x mem => ?_
    rcases List.mem_pair.1 mem with rfl | rfl
    · exact .column (by decide)
    · exact .constant
  have right : Spelled ["", "a`b"] (call "not" [column "a`b", constant (.float 0.5)]) := by
    refine .call (by decide +kernel) fun x mem => ?_
    rcases List.mem_pair.1 mem with rfl | rfl
    · exact .column (by decide)
    · exact .constant
  have spelled : Spelled ["", "a`b"] e := .binary (by decide) left right
  have reads : ReadsBack e := by
    intro x hx _ _
    have half : x = 0.5 := by simpa [e, constants, constantsOfAll, call, binary, int] using hx
    subst half
    decide +kernel
  exact ⟨spelled, reads, spelled_parses_back spelled reads⟩

end TableFlow.Formula
